import LogDesk.Markup
import LogDesk.Text.Blank
import LogDesk.Text.Decimal
import LogDesk.Text.Utf8
import LogDesk.View

/-! A view of lines of text. -/

namespace LogDesk.Terminal

def marker : Option Highlight → List Char
  | some .danger => "!!".toList
  | some .warning => "! ".toList
  | none => "  ".toList

def rowLine (r : Row) : List Char :=
  marker r.highlight ++ Text.padLeft 4 (Text.digits r.index) ++ "  ".toList ++
    Text.padRight 12 r.time.toList ++ "  ".toList ++ Text.padRight 7 r.level.toList ++
    " [".toList ++ r.loggerName.toList ++ "] (".toList ++ r.threadName.toList ++ ") ".toList ++
    r.message.toList

/-- The lines of all rows, without the white space at their end. -/
def logText : List Row → List Char
  | [] => "(no log entries)".toList
  | rows => Text.trimEnd (rows.flatMap fun r => rowLine r ++ ['\n'])

def jobLine (r : JobRow) : List Char :=
  "\n  ".toList ++ r.id.toList ++ "  (stop ".toList ++ r.id.toList ++ [')']

def jobText : List JobRow → List Char
  | [] => "No active jobs.".toList
  | rows => "Active jobs:".toList ++ rows.flatMap jobLine

def detailStart (index : Nat) : List Char :=
  "  ".toList ++ Text.padLeft 4 (Text.digits index) ++ " > ".toList

def preferencesText (p : Preferences) : List Char :=
  "auto-refresh: ".toList ++ (if p.autoRefresh then "on" else "off").toList ++
    ", job interval: ".toList ++ Text.digits p.interval.toNat ++ ['s']

def toastText (t : Toast) : List Char :=
  '[' :: t.notification.title.toList ++ "] ".toList ++ t.notification.body.toList ++
    "  (dismiss ".toList ++ t.id.print ++ [')']

def text? : ViewCall → Option (List Char)
  | .showPreferences p => some (preferencesText p)
  | .renderLogs rows => some (logText rows)
  | .openDetail index html => some (detailStart index ++ Markup.plain html.toList)
  | .closeDetail index => some (detailStart index ++ "(collapsed)".toList)
  | .renderJobs rows => some (jobText rows)
  | .removeJob id => some ("Job ".toList ++ id.toList ++ " removed from the jobs table.".toList)
  | .clearJobs => some "Jobs table closed.".toList
  | .showRawJson text => some text.toList
  | .showToast t => some (toastText t)
  | .closeForm | .scrollTo _ | .removeToast _ => none

def print (c : ViewCall) : List Char := ((text? c).map (· ++ ['\n'])).getD []

def printAll (calls : List ViewCall) : List Char := calls.flatMap print

/-- The bytes that get through to a writer that takes so many and then fails. -/
def written (limit : Nat) (calls : List ViewCall) : List UInt8 :=
  (Text.utf8 (printAll calls)).take limit

end LogDesk.Terminal
