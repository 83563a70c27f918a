import LogDesk.Json.Value

/-! The numerals of JSON and the numbers they stand for. An integer that fits 64 bits stays one. All
others become doubles: the significand is what fits 64 bits of the digits, scaled by a power of ten
in double arithmetic. -/

namespace LogDesk.Json

structure Numeral where
  negative : Bool
  whole : List Nat
  fraction : Option (List Nat)
  /-- Whether the exponent is negative, and its digits. -/
  exponent : Option (Bool × List Nat)

def maxSignificand : Nat := UInt64.size - 1

structure Scaled where
  significand : Nat
  exponent : Int

/-- Takes in the whole digits. From the first that does not fit they only scale. -/
def Scaled.whole (x : Scaled) : List Nat → Scaled
  | [] => x
  | d :: ds =>
    if x.significand * 10 + d ≤ maxSignificand then
      Scaled.whole ⟨x.significand * 10 + d, x.exponent⟩ ds
    else ⟨x.significand, x.exponent + (d :: ds).length⟩

/-- Takes in the digits of the fraction. From the first that does not fit they are dropped. -/
def Scaled.fraction (x : Scaled) : List Nat → Scaled
  | [] => x
  | d :: ds =>
    if x.significand * 10 + d ≤ maxSignificand then
      Scaled.fraction ⟨x.significand * 10 + d, x.exponent - 1⟩ ds
    else x

def natOfDigits (ds : List Nat) : Nat := ds.foldl (fun n d => 10 * n + d) 0

def powerOfTen (n : Nat) : Float := Float.ofScientific 1 false n

/-- A double scaled by a power of ten, in steps of at most 308. There is none beyond the greatest
double. -/
def scaleDouble : Nat → Float → Int → Option Float
  | 0, f, _ => some f
  | steps + 1, f, e =>
    if e.natAbs ≤ 308 then
      if 0 ≤ e then
        let g := f * powerOfTen e.natAbs
        if g.isInf then none else some g
      else some (f / powerOfTen e.natAbs)
    else if f == 0 then some f
    else if 0 ≤ e then none
    else scaleDouble steps (f / powerOfTen 308) (e + 308)

def Scaled.toDouble? (x : Scaled) (negative : Bool) : Option Number :=
  (scaleDouble (x.exponent.natAbs / 308 + 1) x.significand.toUInt64.toFloat x.exponent).map
    fun f => .double (if negative then -f else f).toBits

def Numeral.toNumber? (n : Numeral) : Option Number :=
  let whole := natOfDigits n.whole
  if n.fraction.isNone && n.exponent.isNone && !n.negative && whole < UInt64.size then
    some (.int whole)
  else if n.fraction.isNone && n.exponent.isNone && n.negative && 0 < whole && whole ≤ Nat.pow 2 63 then
    some (.int (-(whole : Int)))
  else
    let x := (Scaled.whole ⟨0, 0⟩ n.whole).fraction (n.fraction.getD [])
    let shift : Int :=
      match n.exponent with
      | none => 0
      | some (down, ds) => if down then -(natOfDigits ds : Int) else natOfDigits ds
    Scaled.toDouble? ⟨x.significand, x.exponent + shift⟩ n.negative

end LogDesk.Json
