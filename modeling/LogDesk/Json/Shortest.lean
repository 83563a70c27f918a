/-! The shortest decimal of a double: the fewest digits that read back as it, and of those the
nearest to it. -/

namespace LogDesk.Json

structure Ratio where
  num : Nat
  den : Nat

namespace Ratio

/-- The product of a natural number and a power of two. -/
def ofBinary (m : Nat) (e : Int) : Ratio :=
  if 0 ≤ e then ⟨m * Nat.pow 2 e.natAbs, 1⟩ else ⟨m, Nat.pow 2 e.natAbs⟩

def downTen (x : Ratio) (e : Int) : Ratio :=
  if 0 ≤ e then ⟨x.num, x.den * Nat.pow 10 e.natAbs⟩ else ⟨x.num * Nat.pow 10 e.natAbs, x.den⟩

def lt (x y : Ratio) : Bool := x.num * y.den < y.num * x.den

def le (x y : Ratio) : Bool := x.num * y.den ≤ y.num * x.den

end Ratio

/-- A finite positive double: its value, the ends of the interval of reals that round to it, and
whether the ends belong to it. -/
structure Rounding where
  value : Ratio
  low : Ratio
  high : Ratio
  closed : Bool

def Rounding.ofBits (bits : Nat) : Rounding :=
  let field : Nat := bits / Nat.pow 2 52
  let frac : Nat := bits % Nat.pow 2 52
  let m : Nat := if field = 0 then frac else frac + Nat.pow 2 52
  let e : Int := if field = 0 then -1074 else (field : Int) - 1075
  -- below a power of two the doubles lie twice as close
  let low : Nat := if frac = 0 && 1 < field then 4 * m - 1 else 4 * m - 2
  ⟨.ofBinary (4 * m) (e - 2), .ofBinary low (e - 2), .ofBinary (4 * m + 2) (e - 2), m % 2 = 0⟩

def Rounding.holds (r : Rounding) (x : Ratio) : Bool :=
  if r.closed then r.low.le x && x.le r.high else r.low.lt x && x.lt r.high

/-- The number of places before the point: the least `p` with the value below the `p`-th power of
ten. Found downward from above the greatest double. -/
def Rounding.places (r : Rounding) : Nat → Int → Int
  | 0, p => p
  | steps + 1, p =>
    if r.value.lt (Ratio.downTen ⟨1, 1⟩ (1 - p)) then r.places steps (p - 1) else p

/-- The nearer of the two neighbours of the value on the grid of a power of ten that lie in the
interval; in a tie the even one. -/
def Rounding.onGrid (r : Rounding) (e : Int) : Option Nat :=
  let x := r.value.downTen e
  let below := x.num / x.den
  let at' (n : Nat) : Ratio := Ratio.downTen ⟨n, 1⟩ (-e)
  let twice := 2 * (x.num % x.den)
  let lowFirst := twice < x.den || (twice = x.den && below % 2 = 0)
  let first := if lowFirst then below else below + 1
  let second := if lowFirst then below + 1 else below
  if r.holds (at' first) then some first
  else if r.holds (at' second) then some second
  else none

/-- The first grid with a hit, from one digit on. -/
def Rounding.search (r : Rounding) (places : Int) : Nat → Nat → Nat × Int
  | 0, n => ((r.value.downTen (places - n)).num / (r.value.downTen (places - n)).den, places - n)
  | steps + 1, n =>
    match r.onGrid (places - n) with
    | some d => (d, places - n)
    | none => r.search places steps (n + 1)

def dropZeros : Nat → Nat → Int → Nat × Int
  | 0, d, e => (d, e)
  | steps + 1, d, e => if d % 10 = 0 && 0 < d then dropZeros steps (d / 10) (e + 1) else (d, e)

def shortest (bits : Nat) : Nat × Int :=
  let r := Rounding.ofBits bits
  let places := r.places 640 310
  let (d, e) := r.search places 17 1
  dropZeros 20 d e

/-- The text of a finite double: with a point and at least one digit after it from 1e-5 up to below
1e16, and with an exponent elsewhere. -/
def doubleText (bits : UInt64) : List Char :=
  let low := bits.toNat % Nat.pow 2 63
  let sign := if bits.toNat < Nat.pow 2 63 then [] else ['-']
  if low = 0 then sign ++ ['0', '.', '0']
  else
    let (d, e) := shortest low
    let ds := Nat.toDigits 10 d
    let point : Int := ds.length + e
    sign ++
      if 0 ≤ e && point ≤ 16 then ds ++ List.replicate e.natAbs '0' ++ ['.', '0']
      else if 0 < point && point ≤ 16 then ds.take point.natAbs ++ '.' :: ds.drop point.natAbs
      else if -5 < point && point ≤ 0 then
        '0' :: '.' :: List.replicate point.natAbs '0' ++ ds
      else
        let rest := ds.drop 1
        ds.take 1 ++ (if rest.isEmpty then [] else '.' :: rest) ++
          'e' :: (if 0 ≤ point - 1 then '+' else '-') :: Nat.toDigits 10 (point - 1).natAbs

end LogDesk.Json
