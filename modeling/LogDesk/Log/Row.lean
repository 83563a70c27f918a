import LogDesk.Log.Record

/-! Rows of the log table and of the jobs table. -/

namespace LogDesk

/-- How a row stands out. A row is given one of two classes or none; other class texts are left out, since
none are ever built. -/
inductive Highlight where
  | warning
  | danger
  deriving DecidableEq, Repr

namespace Highlight

def className : Highlight → String
  | warning => "table-warning"
  | danger => "table-danger"

def ofLevel? (level : String) : Option Highlight :=
  if level ∈ ["WARN", "WARNING"] then some warning
  else if level ∈ ["ERROR", "SEVERE", "FATAL"] then some danger
  else none

end Highlight

/-- The time of day in a timestamp: its characters from the 11th up to the 23rd. -/
def timeOfDay (timestamp : String) : String :=
  String.ofList ((timestamp.toList.drop 11).take 12)

def cellWidth : Nat := 80

/-- What a message cell shows: the message, and what of the stack trace still has room. -/
def Record.cell (r : Record) : String :=
  match r.trace? with
  | none => r.message
  | some trace =>
    if cellWidth ≤ r.message.toList.length then r.message
    else r.message ++ " " ++ String.ofList (trace.toList.take (cellWidth - r.message.toList.length))

structure Row where
  index : Nat
  time : String
  level : String
  loggerName : String
  threadName : String
  message : String
  highlight : Option Highlight
  deriving DecidableEq

def Row.ofRecord (index : Nat) (r : Record) : Row where
  index := index
  time := timeOfDay r.timestamp
  level := r.level
  loggerName := r.loggerName
  threadName := r.threadName
  message := r.cell
  highlight := Highlight.ofLevel? r.level

def Row.ofRecords (first : Nat) : List Record → List Row
  | [] => []
  | r :: rs => Row.ofRecord first r :: Row.ofRecords (first + 1) rs

def stopButton : String :=
  "<a class=\"remove\" href=\"javascript:void(0)\" title=\"Remove\">" ++
    "<button class=\"btn btn-small btn-danger\">Stop</button></a>"

structure JobRow where
  id : String
  action : String
  deriving DecidableEq

def JobRow.ofId (id : String) : JobRow := ⟨id, stopButton⟩

end LogDesk
