import LogDesk.Ascending
import LogDesk.Log.Row
import LogDesk.Preferences
import LogDesk.Toast

/-! What a view is told to show, and the screen that comes of it. -/

namespace LogDesk

inductive ViewCall where
  | showPreferences (p : Preferences)
  | renderLogs (rows : List Row)
  | openDetail (index : Nat) (html : String)
  | closeDetail (index : Nat)
  | scrollTo (position : UInt32)
  | renderJobs (rows : List JobRow)
  | removeJob (id : String)
  | clearJobs
  | closeForm
  | showRawJson (text : String)
  | showToast (t : Toast)
  | removeToast (id : Uuid)
  deriving DecidableEq

/-- The log table as it stands on the screen: its rows, and the rows whose details are open,
ascending. -/
structure Screen where
  rows : List Row := []
  details : List Nat := []

/-- New rows close all details. -/
def Screen.display (s : Screen) : ViewCall → Screen
  | .renderLogs rows => ⟨rows, []⟩
  | .openDetail index _ => { s with details := insertAscending index s.details }
  | .closeDetail index => { s with details := s.details.filter (· ≠ index) }
  | _ => s

def Screen.ofCalls (calls : List ViewCall) : Screen := calls.foldl Screen.display {}

end LogDesk
