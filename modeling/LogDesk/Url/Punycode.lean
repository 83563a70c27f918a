import LogDesk.Ascending

/-! Punycode: a text as ASCII. First come its ASCII characters, then, in ascending order, the
others, each as the number of places to go on to where it is put in. The numbers are written in
base 36 with the least digit first, and each digit has a threshold that it ends below. -/

namespace LogDesk.Punycode

def digit (d : Nat) : Char := if d < 26 then Char.ofNat (97 + d) else Char.ofNat (22 + d)

def value? (c : Char) : Option Nat :=
  if 'a' ≤ c && c ≤ 'z' then some (c.toNat - 97)
  else if 'A' ≤ c && c ≤ 'Z' then some (c.toNat - 65)
  else if '0' ≤ c && c ≤ '9' then some (c.toNat - 22)
  else none

/-- The threshold of the digit at a place, where places count up by 36. -/
def threshold (place bias : Nat) : Nat :=
  if place ≤ bias then 1 else if bias + 26 ≤ place then 26 else place - bias

theorem threshold_bounds (place bias : Nat) :
    1 ≤ threshold place bias ∧ threshold place bias ≤ 26 := by
  unfold threshold
  split
  · omega
  · split <;> omega

def scaleDown (delta place : Nat) : Nat × Nat :=
  if 455 < delta then scaleDown (delta / 35) (place + 36) else (delta, place)
termination_by delta

def adapt (delta count : Nat) (first : Bool) : Nat :=
  let delta := if first then delta / 700 else delta / 2
  let (delta, place) := scaleDown (delta + delta / count) 0
  place + 36 * delta / (delta + 38)

def writeNumber (bias place q : Nat) : List Char :=
  let t := threshold place bias
  if q < t then [digit q]
  else digit (t + (q - t) % (36 - t)) :: writeNumber bias (place + 36) ((q - t) / (36 - t))
termination_by q
decreasing_by
  have h := threshold_bounds place bias
  exact Nat.lt_of_le_of_lt (Nat.div_le_self _ _) (by omega)

structure Writer where
  out : List Char
  delta : Nat
  bias : Nat
  count : Nat

/-- Goes past one character while `m` is the one that is put in. -/
def Writer.pass (basic m : Nat) (w : Writer) (c : Char) : Writer :=
  if c.toNat < m then { w with delta := w.delta + 1 }
  else if c.toNat = m then
    { out := w.out ++ writeNumber w.bias 36 w.delta, delta := 0,
      bias := adapt w.delta (w.count + 1) (w.count == basic), count := w.count + 1 }
  else w

def writeAll (text : List Char) (basic : Nat) : (next : Nat) → List Nat → Writer → Writer
  | _, [], w => w
  | next, m :: ms, w =>
    let w := text.foldl (Writer.pass basic m) { w with delta := w.delta + (m - next) * (w.count + 1) }
    writeAll text basic (m + 1) ms { w with delta := w.delta + 1 }

def isBasic (c : Char) : Bool := c.toNat < 0x80

def encode (text : List Char) : List Char :=
  let basic := text.filter isBasic
  let others := ascending ((text.filter (!isBasic ·)).map Char.toNat)
  let w := writeAll text basic.length 128 others ⟨[], 0, 72, basic.length⟩
  basic ++ (if basic.isEmpty then [] else ['-']) ++ w.out

/-- Reads a number off the front and adds it, weighted, to `i`. -/
def readNumber (bias : Nat) : List Char → (place weight i : Nat) → Option (Nat × List Char)
  | [], _, _, _ => none
  | c :: rest, place, weight, i =>
    match value? c with
    | none => none
    | some d =>
      let t := threshold place bias
      if d < t then some (i + d * weight, rest)
      else readNumber bias rest (place + 36) (weight * (36 - t)) (i + d * weight)

theorem readNumber_shorter {bias : Nat} {cs : List Char} {place weight i n : Nat} {rest : List Char}
    (h : readNumber bias cs place weight i = some (n, rest)) : rest.length < cs.length := by
  induction cs generalizing place weight i with
  | nil => simp [readNumber] at h
  | cons c cs ih =>
    rw [readNumber] at h
    split at h
    · simp at h
    · simp only at h
      split at h
      · simp only [Option.some.injEq, Prod.mk.injEq] at h
        simp [← h.2]
      · have := ih h
        simp only [List.length_cons]
        omega

def readAll (out : List Char) (next i bias : Nat) (cs : List Char) : Option (List Char) :=
  if cs.isEmpty then some out
  else
    match _h : readNumber bias cs 36 1 i with
    | none => none
    | some (j, rest) =>
      let count := out.length + 1
      let n := next + j / count
      if 0x10FFFF < n || (0xD800 ≤ n && n ≤ 0xDFFF) then none
      else
        let at' := j % count
        readAll (out.take at' ++ Char.ofNat n :: out.drop at') n (at' + 1)
          (adapt (j - i) count (i == 0)) rest
termination_by cs.length
decreasing_by exact readNumber_shorter (by assumption)

/-- The text before the last hyphen, and what is after it; no text where there is none. -/
def splitBasic (cs : List Char) : List Char × List Char :=
  if '-' ∈ cs then
    let tail := (cs.reverse.takeWhile (· ≠ '-')).reverse
    (cs.take (cs.length - tail.length - 1), tail)
  else ([], cs)

def decode? (cs : List Char) : Option (List Char) :=
  let (basic, tail) := splitBasic cs
  if basic.all isBasic then readAll basic 128 0 72 tail else none

end LogDesk.Punycode
