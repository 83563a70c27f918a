import LogDesk.Text.Decimal
import LogDesk.Url.Domain
import LogDesk.Url.Percent

/-! Hosts: names and addresses. -/

namespace LogDesk.Url

inductive Host where
  | name (text : List Char)
  /-- An address of 32 bits. -/
  | four (n : Nat)
  /-- An address of eight pieces of 16 bits. -/
  | six (pieces : List Nat)
  deriving DecidableEq

/-- What a part of an address is: no number, a number, or one that is far too great. -/
inductive AddressPart where
  | noNumber
  | number (n : Nat)
  | tooGreat

def ofRadix (radix : Nat) : (acc : Nat) → List Char → Option Nat
  | acc, [] => some acc
  | acc, c :: cs => do
    let d ← Text.hexValue? c
    if d < radix then ofRadix radix (radix * acc + d) cs else none

/-- A part in decimal, in octal behind a zero, or in hexadecimal behind `0x`. -/
def readAddressPart (cs : List Char) : AddressPart :=
  let (radix, ds) := match cs with
    | '0' :: 'x' :: r => (16, r)
    | '0' :: 'X' :: r => (16, r)
    | '0' :: d :: r => (8, d :: r)
    | r => (10, r)
  if cs.isEmpty then .noNumber
  else match ofRadix radix 0 ds with
    | none => .noNumber
    | some n => if n < UInt32.size then .number n else .tooGreat

/-- The labels of a name without the empty one that a last dot leaves. -/
def addressParts (cs : List Char) : List (List Char) :=
  let parts := splitOn '.' cs
  if parts.getLast? = some [] then parts.dropLast else parts

def endsInNumber (cs : List Char) : Bool :=
  match (addressParts cs).getLast? with
  | none => false
  | some part =>
    (!part.isEmpty && part.all Text.isDigit) ||
      match readAddressPart part with
      | .noNumber => false
      | _ => true

/-- The last part fills all places that the ones before it leave. -/
def joinAddress : (places : Nat) → List Nat → Option Nat
  | _, [] => none
  | places, [last] => if last < 256 ^ places then some last else none
  | places, n :: rest =>
    if n < 256 then (joinAddress (places - 1) rest).map (n * 256 ^ (places - 1) + ·) else none

def numberOf : AddressPart → Option Nat
  | .number n => some n
  | _ => none

def fourAddress (cs : List Char) : Option Nat := do
  let parts := addressParts cs
  if 4 < parts.length then none
  else joinAddress 4 (← parts.mapM fun part => numberOf (readAddressPart part))

def printFour (n : Nat) : List Char :=
  Text.digits (n / Nat.pow 2 24) ++ '.' :: Text.digits (n / Nat.pow 2 16 % 256) ++ '.' ::
    Text.digits (n / Nat.pow 2 8 % 256) ++ '.' :: Text.digits (n % 256)

def embeddedPieces (cs : List Char) : Option (List Nat) := do
  let parts := splitOn '.' cs
  let byte (ds : List Char) : Option Nat :=
    if ds.isEmpty || !ds.all Text.isDigit || (1 < ds.length && ds.head? = some '0') then none
    else if Text.ofDigits 0 ds < 256 then some (Text.ofDigits 0 ds) else none
  match ← parts.mapM byte with
  | [a, b, c, d] => some [256 * a + b, 256 * c + d]
  | _ => none

def hexPiece (cs : List Char) : Option Nat :=
  if cs.isEmpty || 4 < cs.length then none else ofRadix 16 0 cs

def readPieces : List (List Char) → Option (List Nat)
  | [] => some []
  | [last] => if last.contains '.' then embeddedPieces last else (hexPiece last).map ([·])
  | piece :: rest => do
    let n ← hexPiece piece
    let ns ← readPieces rest
    return n :: ns

def readSide (cs : List Char) : Option (List Nat) :=
  if cs.isEmpty then some [] else readPieces (splitOn ':' cs)

def splitDouble : List Char → Option (List Char × List Char)
  | ':' :: ':' :: r => some ([], r)
  | c :: r => (splitDouble r).map fun (a, b) => (c :: a, b)
  | [] => none

def sixAddress (cs : List Char) : Option (List Nat) :=
  match splitDouble cs with
  | none => (readSide cs).filter (·.length = 8)
  | some (before, after) => do
    if before.contains '.' then none
    else
      let a ← readSide before
      let b ← readSide after
      if a.length + b.length < 8 then
        some (a ++ List.replicate (8 - a.length - b.length) 0 ++ b)
      else none

def zeroRun (ps : List Nat) : Nat := (ps.takeWhile (· == 0)).length

/-- Where the first of the longest runs of zeros begins, and its length. -/
def longestZeros : (pos : Nat) → List Nat → Nat × Nat
  | _, [] => (0, 0)
  | pos, p :: ps =>
    let here := zeroRun (p :: ps)
    let later := longestZeros (pos + 1) ps
    if later.2 ≤ here then (pos, here) else later

def printPieces (ps : List Nat) : List Char := joinWith ':' (ps.map Text.hexDigits)

/-- The longest run of at least two zeros is left out. -/
def printSix (ps : List Nat) : List Char :=
  let (pos, count) := longestZeros 0 ps
  if count < 2 then printPieces ps
  else printPieces (ps.take pos) ++ ':' :: ':' :: printPieces (ps.drop (pos + count))

def bracketed (cs : List Char) : Option Host :=
  if cs.getLast? = some ']' then (sixAddress cs.dropLast).map .six else none

def Host.ofSpecial (cs : List Char) : Option Host :=
  match cs with
  | '[' :: r => bracketed r
  | _ => do
    let name ← asciiDomain (← Text.ofUtf8? (decode cs))
    if name.isEmpty then none
    else if endsInNumber name then (fourAddress name).map .four
    else some (.name name)

def forbiddenInHost (c : Char) : Bool := "\x00\t\n\r #/:<>?@[\\]^|".toList.contains c

def Host.ofOther (cs : List Char) : Option Host :=
  match cs with
  | '[' :: r => bracketed r
  | _ => if cs.any forbiddenInHost then none else some (.name (encode inControlSet cs))

def Host.print : Host → List Char
  | .name text => text
  | .four n => printFour n
  | .six ps => '[' :: printSix ps ++ [']']

end LogDesk.Url
