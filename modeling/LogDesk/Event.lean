import LogDesk.Log.EntryForm
import LogDesk.Text.Decimal
import LogDesk.Text.Blank
import LogDesk.Uuid

/-! What the user asks of the console, and how each event is typed. -/

namespace LogDesk

inductive Event where
  | stopAll
  | startJob
  | triggerError
  | refresh
  | openJobs
  | closeJobs
  | submitEntry (form : EntryForm)
  | showRawJson
  | stopJob (id : String)
  | setAutoRefresh (on : Bool)
  /-- In seconds. -/
  | setInterval (seconds : UInt32)
  | expandRow (pos : Nat)
  | collapseRow (pos : Nat)
  | dismissToast (id : Uuid)
  | quit
  deriving DecidableEq

namespace Event

/-- Whether the event calls the server. All others only change what the console holds, and are
applied in the order in which they arrive. -/
def isRequest : Event → Bool
  | stopAll | startJob | triggerError | refresh | openJobs | submitEntry _ | showRawJson
  | stopJob _ => true
  | _ => false

def fieldText (f : EntryForm) (name : String) : List Char :=
  ((f.fields.lookup name).getD "").toList

/-- The words that an event is typed as. -/
def words : Event → List (List Char)
  | stopAll => ["stop-all".toList]
  | startJob => ["start".toList]
  | triggerError => ["error".toList]
  | refresh => ["refresh".toList]
  | openJobs => ["jobs".toList]
  | closeJobs => ["close-jobs".toList]
  | submitEntry f =>
    ["log".toList, fieldText f "level"] ++
      (if (f.fields.lookup "addException").isSome then ["--exception".toList] else []) ++
      [fieldText f "message"]
  | showRawJson => ["json".toList]
  | stopJob id => ["stop".toList, id.toList]
  | setAutoRefresh on => ["auto".toList, if on then "on".toList else "off".toList]
  | setInterval n => ["interval".toList, Text.digits n.toNat]
  | expandRow pos => ["expand".toList, Text.digits pos]
  | collapseRow pos => ["collapse".toList, Text.digits pos]
  | dismissToast id => ["dismiss".toList, id.print]
  | quit => ["quit".toList]

def print (e : Event) : List Char := Text.unwords e.words

end Event

end LogDesk
