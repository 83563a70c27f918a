import LogDesk.Json.Reader

/-! Reading a value of a known shape. A record has its slots in a fixed order. It is written as an
object, whose other members are skipped, or as a list of the slots' values from the first on. -/

namespace LogDesk.Json

inductive Kind where
  | text
  | textOrNull
  | flag
  deriving DecidableEq, Repr

inductive Scalar where
  | text (s : String)
  | flag (b : Bool)
  | none
  deriving DecidableEq, Repr, Inhabited

structure Slot where
  name : String
  kind : Kind
  /-- Whether a record without it is refused. -/
  required : Bool

abbrev Schema := List Slot

def readText (bs : List UInt8) : Reading (Piece String) :=
  match skipSpace bs with
  | 0x22 :: r => readString r
  | r => .error (wrongKind r)

def Kind.read (k : Kind) (bs : List UInt8) : Reading (Piece Scalar) :=
  match k, skipSpace bs with
  | .text, r => (readText r).map fun (s, r) => (.text s, r)
  | .textOrNull, 0x6E :: r => (literal nullTail r).map fun r => (.none, r)
  | .textOrNull, r => (readText r).map fun (s, r) => (.text s, r)
  | .flag, 0x74 :: r => (literal trueTail r).map fun r => (.flag true, r)
  | .flag, 0x66 :: r => (literal falseTail r).map fun r => (.flag false, r)
  | .flag, r => .error (wrongKind r)

abbrev Found := List (String × Scalar)

def Found.get? (f : Found) (name : String) : Option Scalar := f.lookup name

/-- Nothing is missing that is required. -/
def Schema.complete (s : Schema) (f : Found) : Bool :=
  s.all fun slot => !slot.required || (f.get? slot.name).isSome

def Schema.find? (s : Schema) (name : String) : Option Slot := List.find? (·.name == name) s

/-- Reads the values of a list in the order of the slots. A list that ends early leaves out the
last slots. -/
def readSlots : Schema → (first : Bool) → List UInt8 → Reading (Piece Found)
  | [], _, bs =>
    match skipSpace bs with
    | [] => .error .ended
    | b :: r => if b == 0x5D then .ok ([], r) else .error .malformed
  | slot :: rest, first, bs => do
    match ← nextItem first bs with
    | .close r => return ([], r)
    | .item r =>
      let (v, r) ← slot.kind.read r
      let (vs, r) ← readSlots rest false r
      return ((slot.name, v) :: vs, r)

/-- Reads the members of an object to behind its end. A slot may come only once. -/
def readFields (s : Schema) : (fuel : Nat) → (first : Bool) → Found → List UInt8 → Reading (Piece Found)
  | 0, _, _, _ => .error .malformed
  | fuel + 1, first, found, bs => do
    match ← nextName first bs with
    | .close r => return (found, r)
    | .item r =>
      let (name, r) ← readString r
      match s.find? name with
      | none =>
        let r ← colon r
        let r ← skipValue fuel r
        readFields s fuel false found r
      | some slot =>
        if (found.get? name).isSome then .error .mismatch
        else
          let r ← colon r
          let (v, r) ← slot.kind.read r
          readFields s fuel false ((name, v) :: found) r

def Schema.read (s : Schema) (fuel : Nat) (bs : List UInt8) : Reading (Piece Found) := do
  let (found, r) ← match skipSpace bs with
    | [] => .error .ended
    | b :: r =>
      if b == 0x5B then readSlots s true r
      else if b == 0x7B then readFields s fuel true [] r
      else .error (wrongKind (b :: r))
  if s.complete found then return (found, r) else .error .mismatch

def readList {α : Type} (item : List UInt8 → Reading (Piece α)) :
    (fuel : Nat) → (first : Bool) → List UInt8 → Reading (Piece (List α))
  | 0, _, _ => .error .malformed
  | fuel + 1, first, bs => do
    match ← nextItem first bs with
    | .close r => return ([], r)
    | .item r =>
      let (a, r) ← item r
      let (as, r) ← readList item fuel false r
      return (a :: as, r)

def readListOf {α : Type} (item : List UInt8 → Reading (Piece α)) (fuel : Nat) (bs : List UInt8) :
    Reading (Piece (List α)) :=
  match skipSpace bs with
  | [] => .error .ended
  | b :: r => if b == 0x5B then readList item fuel true r else .error (wrongKind (b :: r))

def readTexts : (fuel : Nat) → (first : Bool) → List UInt8 → Reading (Piece (List (String × String)))
  | 0, _, _ => .error .malformed
  | fuel + 1, first, bs => do
    match ← nextName first bs with
    | .close r => return ([], r)
    | .item r =>
      let (name, r) ← readString r
      let r ← colon r
      let (v, r) ← readText r
      let (ms, r) ← readTexts fuel false r
      return ((name, v) :: ms, r)

def readTextObject (fuel : Nat) (bs : List UInt8) : Reading (Piece (List (String × String))) :=
  match skipSpace bs with
  | [] => .error .ended
  | b :: r => if b == 0x7B then readTexts fuel true r else .error (wrongKind (b :: r))

end LogDesk.Json
