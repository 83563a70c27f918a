import LogDesk.Json.Numeral
import LogDesk.Text.Utf8

/-! The small parts of JSON text, read off the front of the bytes: blanks, literals, strings and
numerals. -/

namespace LogDesk.Json

/-- Why a text was not read: it breaks the grammar, it ends too early, or it is well formed and of
another shape than asked for. -/
inductive ReadError where
  | malformed
  | ended
  | mismatch
  deriving DecidableEq, Repr, Inhabited

abbrev Reading := Except ReadError

/-- What is read off the front, and the bytes after it. -/
abbrev Piece (α : Type) := α × List UInt8

def isSpace (b : UInt8) : Bool := b == 0x20 || b == 0x0A || b == 0x09 || b == 0x0D

def skipSpace (bs : List UInt8) : List UInt8 := bs.dropWhile isSpace

def literal : List UInt8 → List UInt8 → Reading (List UInt8)
  | [], r => .ok r
  | _ :: _, [] => .error .ended
  | e :: es, b :: r => if b == e then literal es r else .error .malformed

/-- `ull` -/
def nullTail : List UInt8 := [0x75, 0x6C, 0x6C]
/-- `rue` -/
def trueTail : List UInt8 := [0x72, 0x75, 0x65]
/-- `alse` -/
def falseTail : List UInt8 := [0x61, 0x6C, 0x73, 0x65]

def isDigitByte (b : UInt8) : Bool := 0x30 ≤ b && b ≤ 0x39

def takeDigits (bs : List UInt8) : List Nat × List UInt8 :=
  ((bs.takeWhile isDigitByte).map (·.toNat - 0x30), bs.dropWhile isDigitByte)

/-- The digits that a numeral needs at this place. `atEnd` is the error where the text ends. -/
def needDigits (atEnd : ReadError) (bs : List UInt8) : Reading (Piece (List Nat)) :=
  match takeDigits bs with
  | ([], []) => .error atEnd
  | ([], _ :: _) => .error .malformed
  | (ds, r) => .ok (ds, r)

def readWhole (atEnd : ReadError) : List UInt8 → Reading (Piece (List Nat))
  | 0x30 :: r =>
    match r with
    | b :: _ => if isDigitByte b then .error .malformed else .ok ([0], r)
    | [] => .ok ([0], r)
  | r => needDigits atEnd r

def readFraction (atEnd : ReadError) : List UInt8 → Reading (Piece (Option (List Nat)))
  | 0x2E :: r => (needDigits atEnd r).map fun (ds, r) => (some ds, r)
  | r => .ok (none, r)

def readSign : List UInt8 → Bool × List UInt8
  | 0x2B :: r => (false, r)
  | 0x2D :: r => (true, r)
  | r => (false, r)

def readExponent (atEnd : ReadError) : List UInt8 → Reading (Piece (Option (Bool × List Nat)))
  | [] => .ok (none, [])
  | b :: r =>
    if b == 0x65 || b == 0x45 then
      let (down, r) := readSign r
      (needDigits atEnd r).map fun (ds, r) => (some (down, ds), r)
    else .ok (none, b :: r)

/-- A numeral, from its sign or first digit on. -/
def readNumeral (atEnd : ReadError) (bs : List UInt8) : Reading (Piece Numeral) := do
  let (negative, r) := match bs with
    | 0x2D :: r => (true, r)
    | r => (false, r)
  let (whole, r) ← readWhole atEnd r
  let (fraction, r) ← readFraction atEnd r
  let (exponent, r) ← readExponent atEnd r
  return (⟨negative, whole, fraction, exponent⟩, r)

def readNumber (bs : List UInt8) : Reading (Piece Number) := do
  let (n, r) ← readNumeral .ended bs
  match n.toNumber? with
  | some x => return (x, r)
  | none => .error .malformed

def hexValue? (b : UInt8) : Option Nat :=
  if 0x30 ≤ b && b ≤ 0x39 then some (b.toNat - 0x30)
  else if 0x41 ≤ b && b ≤ 0x46 then some (b.toNat - 0x41 + 10)
  else if 0x61 ≤ b && b ≤ 0x66 then some (b.toNat - 0x61 + 10)
  else none

def hexFour? (a b c d : UInt8) : Option Nat := do
  let a ← hexValue? a
  let b ← hexValue? b
  let c ← hexValue? c
  let d ← hexValue? d
  return ((a * 16 + b) * 16 + c) * 16 + d

def shortEscape? (b : UInt8) : Option UInt8 :=
  if b == 0x22 || b == 0x5C || b == 0x2F then some b
  else if b == 0x62 then some 0x08
  else if b == 0x66 then some 0x0C
  else if b == 0x6E then some 0x0A
  else if b == 0x72 then some 0x0D
  else if b == 0x74 then some 0x09
  else none

def isLeading (n : Nat) : Bool := 0xD800 ≤ n && n ≤ 0xDBFF

def isTrailing (n : Nat) : Bool := 0xDC00 ≤ n && n ≤ 0xDFFF

def pairChar (lead trail : Nat) : Char :=
  Char.ofNat (0x10000 + (lead - 0xD800) * 0x400 + (trail - 0xDC00))

def stringBytes : List UInt8 → Reading (Piece (List UInt8))
  | [] => .error .ended
  | b :: r =>
    if b == 0x22 then .ok ([], r)
    else if b == 0x5C then
      match r with
      | [] => .error .ended
      | e :: r =>
        if e == 0x75 then
          match r with
          | h₁ :: h₂ :: h₃ :: h₄ :: r =>
            match hexFour? h₁ h₂ h₃ h₄ with
            | none => .error .malformed
            | some n =>
              if isTrailing n then .error .malformed
              else if isLeading n then
                match r with
                | [] => .error .ended
                | s :: r =>
                  if s != 0x5C then .error .malformed
                  else match r with
                    | [] => .error .ended
                    | u :: r =>
                      if u != 0x75 then .error .malformed
                      else match r with
                        | k₁ :: k₂ :: k₃ :: k₄ :: r =>
                          match hexFour? k₁ k₂ k₃ k₄ with
                          | none => .error .malformed
                          | some m =>
                            if isTrailing m then
                              (stringBytes r).map fun (bs, r) =>
                                (Text.charBytes (pairChar n m) ++ bs, r)
                            else .error .malformed
                        | _ => .error .ended
              else (stringBytes r).map fun (bs, r) => (Text.charBytes (Char.ofNat n) ++ bs, r)
          | _ => .error .ended
        else match shortEscape? e with
          | some c => (stringBytes r).map fun (bs, r) => (c :: bs, r)
          | none => .error .malformed
    else if b < 0x20 then .error .malformed
    else (stringBytes r).map fun (bs, r) => (b :: bs, r)

def readString (bs : List UInt8) : Reading (Piece String) := do
  let (text, r) ← stringBytes bs
  match Text.ofUtf8? text with
  | some cs => return (String.ofList cs, r)
  | none => .error .malformed

/-- Skips a string, from behind its opening quote. What its bytes spell is not looked at. -/
def skipString : List UInt8 → Reading (List UInt8)
  | [] => .error .ended
  | b :: r =>
    if b == 0x22 then .ok r
    else if b == 0x5C then
      match r with
      | [] => .error .ended
      | e :: r =>
        if e == 0x75 then
          match r with
          | h₁ :: h₂ :: h₃ :: h₄ :: r =>
            if (hexFour? h₁ h₂ h₃ h₄).isSome then skipString r else .error .malformed
          | _ => .error .ended
        else if (shortEscape? e).isSome then skipString r
        else .error .malformed
    else if b < 0x20 then .error .malformed
    else skipString r

end LogDesk.Json
