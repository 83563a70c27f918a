import LogDesk.Text.Hexadecimal

/-! Identifiers of 128 bits, and their written forms. -/

namespace LogDesk

structure Uuid where
  bits : BitVec 128
  deriving DecidableEq, Inhabited

namespace Uuid

def nil : Uuid := ⟨0⟩

def hexTail (n : Nat) (x : Nat) : List Char :=
  match n with
  | 0 => []
  | n + 1 => hexTail n (x / 16) ++ [Nat.digitChar (x % 16)]

def digits (u : Uuid) : List Char := hexTail 32 u.bits.toNat

/-- Digits in groups of 8, 4, 4, 4 and the rest, with hyphens between them. -/
def hyphenate (ds : List Char) : List Char :=
  ds.take 8 ++ '-' :: (ds.drop 8).take 4 ++ '-' :: (ds.drop 12).take 4 ++
    '-' :: (ds.drop 16).take 4 ++ '-' :: ds.drop 20

def print (u : Uuid) : List Char := hyphenate u.digits

def toText (u : Uuid) : String := String.ofList u.print

def ofHex? (acc : Nat) : List Char → Option Nat
  | [] => some acc
  | c :: cs => do ofHex? (16 * acc + (← Text.hexValue? c)) cs

def ofDigits? (cs : List Char) : Option Uuid :=
  if cs.length = 32 then (ofHex? 0 cs).map fun n => ⟨BitVec.ofNat 128 n⟩ else none

def ofGroups? (cs : List Char) : Option Uuid :=
  let ds := cs.take 8 ++ (cs.drop 9).take 4 ++ (cs.drop 14).take 4 ++ (cs.drop 19).take 4 ++
    cs.drop 24
  if cs = hyphenate ds then ofDigits? ds else none

/-- Reads an identifier: 32 digits, or groups, alone, in braces or behind `urn:uuid:`. -/
def parse? (cs : List Char) : Option Uuid :=
  if cs.length = 32 then ofDigits? cs
  else if cs.length = 36 then ofGroups? cs
  else if cs.length = 38 && cs.head? = some '\x7b' && cs.getLast? = some '\x7d' then
    ofGroups? (cs.drop 1).dropLast
  else if cs.length = 45 && "urn:uuid:".toList.isPrefixOf cs then ofGroups? (cs.drop 9)
  else none

end Uuid

end LogDesk
