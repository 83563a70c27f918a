import LogDesk.Json.Printer
import LogDesk.Json.Schema
import LogDesk.Job
import LogDesk.Log.Record

/-! Records and jobs as JSON, read and written. -/

namespace LogDesk

open Json

def textOf (f : Found) (name : String) : String :=
  match f.get? name with
  | some (.text s) => s
  | _ => ""

namespace Record

def schema : Schema := [
  ⟨"timestamp", .text, false⟩, ⟨"level", .text, false⟩, ⟨"loggerName", .text, false⟩,
  ⟨"threadName", .text, false⟩, ⟨"message", .text, false⟩, ⟨"stackTrace", .textOrNull, false⟩]

def ofFound (f : Found) : Record where
  timestamp := textOf f "timestamp"
  level := textOf f "level"
  loggerName := textOf f "loggerName"
  threadName := textOf f "threadName"
  message := textOf f "message"
  stackTrace :=
    match f.get? "stackTrace" with
    | some (.text s) => some s
    | _ => none

def toJson (r : Record) : Value :=
  .object <| [("timestamp", .string r.timestamp), ("level", .string r.level),
    ("loggerName", .string r.loggerName), ("threadName", .string r.threadName),
    ("message", .string r.message)] ++ (r.stackTrace.map fun t => ("stackTrace", .string t)).toList

def read (fuel : Nat) (bs : List UInt8) : Reading (Piece Record) :=
  (schema.read fuel bs).map fun (f, r) => (ofFound f, r)

end Record

namespace StopOutcome

def schema : Schema := [⟨"id", .text, true⟩, ⟨"cancelled", .flag, false⟩]

def ofFound (f : Found) : StopOutcome where
  id := textOf f "id"
  cancelled := f.get? "cancelled" == some (.flag true)

def toJson (j : StopOutcome) : Value := .object [("id", .string j.id), ("cancelled", .bool j.cancelled)]

def read (fuel : Nat) (bs : List UInt8) : Reading (Piece StopOutcome) :=
  (schema.read fuel bs).map fun (f, r) => (ofFound f, r)

end StopOutcome

namespace StartedJob

def schema : Schema := [⟨"id", .text, true⟩]

def toJson (j : StartedJob) : Value := .object [("id", .string j.id)]

def read (fuel : Nat) (bs : List UInt8) : Reading (Piece StartedJob) :=
  (schema.read fuel bs).map fun (f, r) => (⟨textOf f "id"⟩, r)

end StartedJob

namespace RunningJob

def schema : Schema := [⟨"id", .text, true⟩]

def toJson (j : RunningJob) : Value := .object [("id", .string j.id)]

def read (fuel : Nat) (bs : List UInt8) : Reading (Piece RunningJob) :=
  (schema.read fuel bs).map fun (f, r) => (⟨textOf f "id"⟩, r)

end RunningJob

def parseOne {α : Type} (read : Nat → List UInt8 → Reading (Piece α)) (text : List UInt8) :
    Reading α :=
  readAll (read (text.length + 1)) text

def parseMany {α : Type} (read : Nat → List UInt8 → Reading (Piece α)) (text : List UInt8) :
    Reading (List α) :=
  readAll (readListOf (read (text.length + 1)) (text.length + 1)) text

end LogDesk
