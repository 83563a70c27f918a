/-! Decimal numerals and columns: natural numbers as text, and text filled up to a width. -/

namespace LogDesk.Text

def digits (n : Nat) : List Char := Nat.toDigits 10 n

def isDigit (c : Char) : Bool := '0' ≤ c && c ≤ '9'

def digitValue (c : Char) : Nat := c.toNat - '0'.toNat

def ofDigits (acc : Nat) : List Char → Nat
  | [] => acc
  | c :: cs => ofDigits (10 * acc + digitValue c) cs

/-- A numeral: an optional plus sign and one or more digits. -/
def numeral? (cs : List Char) : Option Nat :=
  let ds := match cs with
    | '+' :: rest => rest
    | rest => rest
  if ds.isEmpty || !ds.all isDigit then none else some (ofDigits 0 ds)

def numeralBelow? (bound : Nat) (cs : List Char) : Option Nat :=
  (numeral? cs).filter (· < bound)

def padLeft (width : Nat) (cs : List Char) : List Char :=
  List.replicate (width - cs.length) ' ' ++ cs

def padRight (width : Nat) (cs : List Char) : List Char :=
  cs ++ List.replicate (width - cs.length) ' '

end LogDesk.Text
