import LogDesk.Json.Scan

/-! Reading JSON text: a whole value, or a value that is only skipped. The fuel of a reader counts
the values and commas it may meet; the length of the text is always enough. -/

namespace LogDesk.Json

/-- What stands at the place where a list or an object goes on. -/
inductive Next where
  | item (r : List UInt8)
  | close (r : List UInt8)

/-- Goes to the next item of a list: behind a comma, unless it is the first. -/
def nextItem (first : Bool) (bs : List UInt8) : Reading Next :=
  match skipSpace bs with
  | [] => .error .ended
  | b :: r =>
    if b == 0x5D then .ok (.close r)
    else if first then .ok (.item (b :: r))
    else if b == 0x2C then
      match skipSpace r with
      | [] => .error .ended
      | c :: r => if c == 0x5D then .error .malformed else .ok (.item (c :: r))
    else .error .malformed

def nextName (first : Bool) (bs : List UInt8) : Reading Next :=
  match skipSpace bs with
  | [] => .error .ended
  | b :: r =>
    if b == 0x7D then .ok (.close r)
    else if first then
      if b == 0x22 then .ok (.item r) else .error .malformed
    else if b == 0x2C then
      match skipSpace r with
      | [] => .error .ended
      | c :: r => if c == 0x22 then .ok (.item r) else .error .malformed
    else .error .malformed

def colon (bs : List UInt8) : Reading (List UInt8) :=
  match skipSpace bs with
  | [] => .error .ended
  | b :: r => if b == 0x3A then .ok r else .error .malformed

/-- Lists and objects of a value may stand this deep in each other, and one deeper is refused. -/
def depthLimit : Nat := 127

mutual
/-- Reads a value whose lists and objects stand at most `depth` deep. -/
def readValue : (fuel depth : Nat) → List UInt8 → Reading (Piece Value)
  | 0, _, _ => .error .malformed
  | fuel + 1, depth, bs =>
    match skipSpace bs with
    | [] => .error .ended
    | b :: r =>
      if b == 0x6E then (literal nullTail r).map fun r => (.null, r)
      else if b == 0x74 then (literal trueTail r).map fun r => (.bool true, r)
      else if b == 0x66 then (literal falseTail r).map fun r => (.bool false, r)
      else if b == 0x2D || isDigitByte b then
        (readNumber (b :: r)).map fun (n, r) => (.number n, r)
      else if b == 0x22 then (readString r).map fun (s, r) => (.string s, r)
      else if b == 0x5B then
        match depth with
        | 0 => .error .malformed
        | depth + 1 => (readItems fuel depth true r).map fun (vs, r) => (.array vs, r)
      else if b == 0x7B then
        match depth with
        | 0 => .error .malformed
        | depth + 1 =>
          (readMembers fuel depth true r).map fun (ms, r) => (.object (mergeMembers ms), r)
      else .error .malformed

def readItems : (fuel depth : Nat) → (first : Bool) → List UInt8 → Reading (Piece (List Value))
  | 0, _, _, _ => .error .malformed
  | fuel + 1, depth, first, bs => do
    match ← nextItem first bs with
    | .close r => return ([], r)
    | .item r =>
      let (v, r) ← readValue fuel depth r
      let (vs, r) ← readItems fuel depth false r
      return (v :: vs, r)

def readMembers : (fuel depth : Nat) → (first : Bool) → List UInt8 → Reading (Piece (List (String × Value)))
  | 0, _, _, _ => .error .malformed
  | fuel + 1, depth, first, bs => do
    match ← nextName first bs with
    | .close r => return ([], r)
    | .item r =>
      let (name, r) ← readString r
      let r ← colon r
      let (v, r) ← readValue fuel depth r
      let (ms, r) ← readMembers fuel depth false r
      return ((name, v) :: ms, r)
end

mutual
/-- Skips a value. Only its grammar counts: it may be as deep, its numbers as great and its strings
as broken as they like. -/
def skipValue : (fuel : Nat) → List UInt8 → Reading (List UInt8)
  | 0, _ => .error .malformed
  | fuel + 1, bs =>
    match skipSpace bs with
    | [] => .error .ended
    | b :: r =>
      if b == 0x6E then literal nullTail r
      else if b == 0x74 then literal trueTail r
      else if b == 0x66 then literal falseTail r
      else if b == 0x2D || isDigitByte b then (readNumeral .malformed (b :: r)).map (·.2)
      else if b == 0x22 then skipString r
      else if b == 0x5B then skipItems fuel true r
      else if b == 0x7B then skipMembers fuel true r
      else .error .malformed

def skipItems : (fuel : Nat) → (first : Bool) → List UInt8 → Reading (List UInt8)
  | 0, _, _ => .error .malformed
  | fuel + 1, first, bs => do
    match ← nextItem first bs with
    | .close r => return r
    | .item r =>
      let r ← skipValue fuel r
      skipItems fuel false r

def skipMembers : (fuel : Nat) → (first : Bool) → List UInt8 → Reading (List UInt8)
  | 0, _, _ => .error .malformed
  | fuel + 1, first, bs => do
    match ← nextName first bs with
    | .close r => return r
    | .item r =>
      let r ← skipString r
      let r ← colon r
      let r ← skipValue fuel r
      skipMembers fuel false r
end

/-- The error at a value of another kind than asked for. A scalar is read first, and what is broken
in it counts before its kind. -/
def wrongKind (bs : List UInt8) : ReadError :=
  let after {α : Type} : Reading α → ReadError
    | .ok _ => .mismatch
    | .error e => e
  match bs with
  | [] => .ended
  | b :: r =>
    if b == 0x6E then after (literal nullTail r)
    else if b == 0x74 then after (literal trueTail r)
    else if b == 0x66 then after (literal falseTail r)
    else if b == 0x2D || isDigitByte b then after (readNumber (b :: r))
    else if b == 0x22 then after (readString r)
    else if b == 0x5B || b == 0x7B then .mismatch
    else .malformed

/-- What a reader makes of a whole text: after it only blanks may come. -/
def readAll {α : Type} (reader : List UInt8 → Reading (Piece α)) (text : List UInt8) : Reading α := do
  let (a, r) ← reader text
  if (skipSpace r).isEmpty then return a else .error .malformed

def Value.parse (text : List UInt8) : Reading Value :=
  readAll (readValue (text.length + 1) depthLimit) text

end LogDesk.Json
