import LogDesk.Json.Value
import LogDesk.Json.Shortest

/-! The text of a JSON value, on one line or indented. -/

namespace LogDesk.Json

/-- Text is written as it is, but for quotes, backslashes and control characters. -/
def escapeChar (c : Char) : List Char :=
  if c == '"' then ['\\', '"']
  else if c == '\\' then ['\\', '\\']
  else if c.toNat < 0x20 then
    if c == '\n' then ['\\', 'n']
    else if c == '\r' then ['\\', 'r']
    else if c == '\t' then ['\\', 't']
    else if c.toNat == 8 then ['\\', 'b']
    else if c.toNat == 12 then ['\\', 'f']
    else ['\\', 'u', '0', '0', Nat.digitChar (c.toNat / 16), Nat.digitChar (c.toNat % 16)]
  else [c]

def stringText (s : String) : List Char := '"' :: s.toList.flatMap escapeChar ++ ['"']

def Number.text : Number → List Char
  | .int (.ofNat n) => Nat.toDigits 10 n
  | .int (.negSucc n) => '-' :: Nat.toDigits 10 (n + 1)
  | .double bits => doubleText bits

/-- How the parts of a value are set: on one line, or each on a line of its own. -/
inductive Layout where
  | compact
  | indented (unit : List Char)

def Layout.break (l : Layout) (depth : Nat) : List Char :=
  match l with
  | .compact => []
  | .indented unit => '\n' :: (List.replicate depth unit).flatten

def Layout.colon (l : Layout) : List Char :=
  match l with
  | .compact => [':']
  | .indented _ => [':', ' ']

mutual
def Value.print (l : Layout) (depth : Nat) : Value → List Char
  | .null => ['n', 'u', 'l', 'l']
  | .bool true => ['t', 'r', 'u', 'e']
  | .bool false => ['f', 'a', 'l', 's', 'e']
  | .number n => n.text
  | .string s => stringText s
  | .array [] => ['[', ']']
  | .array (v :: vs) =>
    '[' :: l.break (depth + 1) ++ v.print l (depth + 1) ++ printItems l (depth + 1) vs
      ++ l.break depth ++ [']']
  | .object [] => ['\x7b', '\x7d']
  | .object ((n, v) :: ms) =>
    '\x7b' :: l.break (depth + 1) ++ stringText n ++ l.colon ++ v.print l (depth + 1)
      ++ printMembers l (depth + 1) ms ++ l.break depth ++ ['\x7d']

def printItems (l : Layout) (depth : Nat) : List Value → List Char
  | [] => []
  | v :: vs => ',' :: l.break depth ++ v.print l depth ++ printItems l depth vs

def printMembers (l : Layout) (depth : Nat) : List (String × Value) → List Char
  | [] => []
  | (n, v) :: ms =>
    ',' :: l.break depth ++ stringText n ++ l.colon ++ v.print l depth ++ printMembers l depth ms
end

def Value.compact (v : Value) : String := String.ofList (v.print .compact 0)

/-- The text with each part on a line of its own, indented by a unit for each level. -/
def Value.pretty (unit : String) (v : Value) : String :=
  String.ofList (v.print (.indented unit.toList) 0)

end LogDesk.Json
