/-! Hexadecimal digits. -/

namespace LogDesk.Text

def hexValue? (c : Char) : Option Nat :=
  if '0' ≤ c && c ≤ '9' then some (c.toNat - '0'.toNat)
  else if 'a' ≤ c && c ≤ 'f' then some (c.toNat - 'a'.toNat + 10)
  else if 'A' ≤ c && c ≤ 'F' then some (c.toNat - 'A'.toNat + 10)
  else none

/-- The shortest numeral of a number, in lower case. -/
def hexDigits (n : Nat) : List Char := Nat.toDigits 16 n

def upperHexDigit (n : Nat) : Char := (Nat.digitChar n).toUpper

end LogDesk.Text
