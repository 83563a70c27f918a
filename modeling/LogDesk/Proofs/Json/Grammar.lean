import LogDesk.Json.Numeral
import LogDesk.Text.Hexadecimal

/-! The grammar of JSON texts, said apart from every reader: which texts say what. A text says its numbers
by their digits and every member as often as it comes, in its order. -/

namespace LogDesk.Json

inductive Tree where
  | null
  | bool (b : Bool)
  | number (n : Numeral)
  | string (s : String)
  | array (items : List Tree)
  | object (members : List (String × Tree))

def Blanks (w : List Char) : Prop := ∀ c ∈ w, c ∈ [' ', '\n', '\t', '\r']

theorem blanks_nil : Blanks [] := fun _ h => nomatch h

def Digits (ds : List Nat) : Prop := ds ≠ [] ∧ ∀ d ∈ ds, d < 10

def digitsText (ds : List Nat) : List Char := ds.map Nat.digitChar

/-- The digits in front of the point. A zero stands there by itself only. -/
inductive WholeText : List Nat → List Char → Prop
  | zero : WholeText [0] ['0']
  | more {ds} : Digits ds → ds.head? ≠ some 0 → WholeText ds (digitsText ds)

inductive FractionText : Option (List Nat) → List Char → Prop
  | none : FractionText none []
  | some {ds} : Digits ds → FractionText (some ds) ('.' :: digitsText ds)

/-- The sign of an exponent. A plus may be left out. -/
inductive SignText : (down : Bool) → List Char → Prop
  | minus : SignText true ['-']
  | plus : SignText false ['+']
  | none : SignText false []

inductive ExponentText : Option (Bool × List Nat) → List Char → Prop
  | none : ExponentText none []
  | some {e down s ds} : e ∈ ['e', 'E'] → SignText down s → Digits ds →
      ExponentText (some (down, ds)) (e :: (s ++ digitsText ds))

inductive NumeralText : Numeral → List Char → Prop
  | mk {negative whole fraction exponent w f e} :
      WholeText whole w → FractionText fraction f → ExponentText exponent e →
      NumeralText ⟨negative, whole, fraction, exponent⟩
        ((if negative then ['-'] else []) ++ (w ++ (f ++ e)))

def shortEscapes : List (Char × Char) :=
  [('"', '"'), ('\\', '\\'), ('/', '/'), ('b', '\x08'), ('f', '\x0c'), ('n', '\n'), ('r', '\r'), ('t', '\t')]

inductive Code : List Char → Nat → Prop
  | mk {h₁ h₂ h₃ h₄ : Char} {a b c d : Nat} : Text.hexValue? h₁ = some a → Text.hexValue? h₂ = some b →
      Text.hexValue? h₃ = some c → Text.hexValue? h₄ = some d →
      Code [h₁, h₂, h₃, h₄] (((a * 16 + b) * 16 + c) * 16 + d)

/-- What may stand between the quotes for a text. A character beyond the first plane is one or a pair of
surrogates, which stand for nothing by themselves. -/
inductive Quoted : List Char → List Char → Prop
  | nil : Quoted [] []
  | plain {c s t} : 0x20 ≤ c.toNat → c ≠ '"' → c ≠ '\\' → Quoted s t → Quoted (c :: s) (c :: t)
  | short {e c s t} : (e, c) ∈ shortEscapes → Quoted s t → Quoted (c :: s) ('\\' :: e :: t)
  | code {ds n s t} : Code ds n → (n < 0xD800 ∨ 0xDFFF < n) → Quoted s t →
      Quoted (Char.ofNat n :: s) ('\\' :: 'u' :: (ds ++ t))
  | pair {ds es n m s t} : Code ds n → 0xD800 ≤ n → n ≤ 0xDBFF → Code es m → 0xDC00 ≤ m → m ≤ 0xDFFF →
      Quoted s t → Quoted (Char.ofNat (0x10000 + (n - 0xD800) * 0x400 + (m - 0xDC00)) :: s)
        ('\\' :: 'u' :: (ds ++ '\\' :: 'u' :: (es ++ t)))

/-- What stands in front of an item or a member: blanks, and a comma behind the one before. -/
inductive Gap : (first : Bool) → List Char → Prop
  | first {w} : Blanks w → Gap true w
  | later {w w'} : Blanks w → Blanks w' → Gap false (w ++ ',' :: w')

mutual
inductive Written : Tree → List Char → Prop
  | null : Written .null ['n', 'u', 'l', 'l']
  | true : Written (.bool true) ['t', 'r', 'u', 'e']
  | false : Written (.bool false) ['f', 'a', 'l', 's', 'e']
  | number {n t} : NumeralText n t → Written (.number n) t
  | string {s t} : Quoted s.toList t → Written (.string s) ('"' :: (t ++ ['"']))
  | array {vs t} : WrittenItems true vs t → Written (.array vs) ('[' :: t)
  | object {ms t} : WrittenMembers true ms t → Written (.object ms) ('\x7b' :: t)

/-- How a list goes on behind its bracket or behind an item. -/
inductive WrittenItems : (first : Bool) → List Tree → List Char → Prop
  | close {first w} : Blanks w → WrittenItems first [] (w ++ [']'])
  | item {first g v t vs u} : Gap first g → Written v t → WrittenItems false vs u →
      WrittenItems first (v :: vs) (g ++ (t ++ u))

/-- How an object goes on behind its brace or behind a member. -/
inductive WrittenMembers : (first : Bool) → List (String × Tree) → List Char → Prop
  | close {first w} : Blanks w → WrittenMembers first [] (w ++ ['\x7d'])
  | member {first g name n w w' v t ms u} : Gap first g → Quoted (String.toList name) n → Blanks w →
      Blanks w' → Written v t → WrittenMembers false ms u →
      WrittenMembers first ((name, v) :: ms) (g ++ '"' :: (n ++ '"' :: (w ++ ':' :: (w' ++ (t ++ u)))))
end

inductive WellFormed : Tree → List Char → Prop
  | mk {v w t w'} : Blanks w → Written v t → Blanks w' → WellFormed v (w ++ (t ++ w'))

end LogDesk.Json
