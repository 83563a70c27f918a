import LogDesk.Command

/-! Scripts: bytes that hold a command a line. -/

namespace LogDesk.Script

/-- The lines between line feeds. A carriage return at the end of one is blank, and so is a line
that the last line feed leaves empty. -/
def splitLines : List UInt8 → List (List UInt8)
  | [] => [[]]
  | b :: bs =>
    if b == 0x0A then [] :: splitLines bs
    else match splitLines bs with
      | [] => [[b]]
      | line :: rest => (b :: line) :: rest

/-- The texts of lines, up to the first that is not UTF-8. -/
def readable : List (List UInt8) → List (List Char)
  | [] => []
  | line :: rest =>
    match Text.ofUtf8? line with
    | some cs => cs :: readable rest
    | none => []

def commands (bytes : List UInt8) : List (Except CommandError Command) :=
  (readable (splitLines bytes)).map Command.parse

def event? : Except CommandError Command → Option Event
  | .ok (.event e) => some e
  | _ => none

/-- What is said at a line that means no event. A blank line is passed over. -/
def notice? : Except CommandError Command → Option String
  | .ok .help => some Command.helpText
  | .error e => some e.message
  | _ => none

def events (bytes : List UInt8) : List Event := (commands bytes).filterMap event?

end LogDesk.Script
