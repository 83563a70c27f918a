import LogDesk.Json.Printer
import LogDesk.Proofs.Json.Strings
import LogDesk.Proofs.Json.Written
import LogDesk.Proofs.Text.Decimal

/-! What is printed is well formed, and says the value that it is printed for. Each kind of value is told apart,
so that a shape can be put together from its parts. -/

namespace LogDesk.Json

open Text

def Layout.IsBlank : Layout → Prop
  | .compact => True
  | .indented unit => Blanks unit

variable {l : Layout} {depth : Nat}

theorem break_blanks (h : l.IsBlank) (depth : Nat) : Blanks (l.break depth) := by
  cases l with
  | compact => simp [Blanks, Layout.break]
  | indented unit =>
    intro c hc
    rw [Layout.break, List.mem_cons] at hc
    rcases hc with rfl | hc
    · decide
    · obtain ⟨u, hu, hc⟩ := List.mem_flatten.mp hc
      exact h c (List.eq_of_mem_replicate hu ▸ hc)

theorem tab_blank : (Layout.indented "\t".toList).IsBlank := forall_of_all rfl

theorem gap_break (h : l.IsBlank) (depth : Nat) :
    Gap true (l.break depth) ∧ Gap false (',' :: l.break depth) :=
  ⟨.first (break_blanks h depth), .later blanks_nil (break_blanks h depth)⟩

theorem colon_text (l : Layout) : ∃ w, Blanks w ∧ l.colon = ':' :: w := by
  cases l with
  | compact => exact ⟨[], blanks_nil, rfl⟩
  | indented => exact ⟨[' '], by simp [Blanks], rfl⟩

def digitsOf (n : Nat) : List Nat := (digits n).map digitValue

def Numeral.ofInt (n : Int) : Numeral := ⟨n < 0, digitsOf n.natAbs, none, none⟩

theorem digitChar_digitValue {c : Char} (h : isDigit c = true) :
    Nat.digitChar (digitValue c) = c ∧ digitValue c < 10 := by
  obtain ⟨h0, h9⟩ := isDigit_toNat h
  have hv : digitValue c = c.toNat - 48 := rfl
  refine ⟨Char.toNat_inj.mp ?_, by omega⟩
  rw [Nat.toNat_digitChar_of_lt_ten (by omega), hv]
  omega

theorem digitsText_digitsOf (n : Nat) : digitsText (digitsOf n) = digits n := by
  rw [digitsText, digitsOf, List.map_map]
  refine (List.map_congr_left fun c hc => ?_).trans (List.map_id _)
  exact (digitChar_digitValue (isDigit_of_mem_digits hc)).1

theorem digits_digitsOf (n : Nat) : Digits (digitsOf n) := by
  refine ⟨by simp [digitsOf, digits_ne_nil], fun d hd => ?_⟩
  obtain ⟨c, hc, rfl⟩ := List.mem_map.mp hd
  exact (digitChar_digitValue (isDigit_of_mem_digits hc)).2

/-- Only the numeral of zero begins with a zero. -/
theorem digitsOf_head {n : Nat} (h : n ≠ 0) : (digitsOf n).head? ≠ some 0 := by
  induction n using Nat.strongRecOn with
  | _ n ih =>
    rcases Nat.lt_or_ge n 10 with hn | hn
    · rw [digitsOf, digits, Nat.toDigits_of_lt_base hn]
      have hall : ∀ n < 10, n ≠ 0 → ([Nat.digitChar n].map digitValue).head? ≠ some 0 := by decide
      exact hall n hn h
    · have hq := ih (n / 10) (by omega) (by omega)
      have hne := (digits_digitsOf (n / 10)).1
      rw [digitsOf, digits] at hq hne ⊢
      rwa [Nat.toDigits_of_base_le (by omega) hn, List.map_append, List.head?_append_of_ne_nil _ hne]

theorem wholeText_digits (n : Nat) : WholeText (digitsOf n) (digits n) := by
  by_cases hn : n = 0
  · subst hn
    exact .zero
  · have hw := WholeText.more (digits_digitsOf n) (digitsOf_head hn)
    rwa [digitsText_digitsOf] at hw

theorem numeralText_ofInt (n : Int) : NumeralText (.ofInt n) (Number.int n).text := by
  have hw : NumeralText (.ofInt n) _ := .mk (wholeText_digits n.natAbs) .none .none
  have ht : (Number.int n).text =
      (if decide (n < 0) then ['-'] else []) ++ (digits n.natAbs ++ ([] ++ [])) := by
    cases n with
    | ofNat n => simp [Number.text, digits]
    | negSucc n => simp [Number.text, digits, Int.negSucc_lt_zero]
  rw [ht]
  exact hw

theorem natOfDigits_digitsOf (n : Nat) : natOfDigits (digitsOf n) = n := by
  rw [natOfDigits, digitsOf, List.foldl_map]
  exact Nat.ofDigitChars_toDigits (by decide) (by decide)

/-- An integer of 64 bits is the number of its numeral. -/
theorem toNumber?_ofInt {n : Int} (hlow : -(2 ^ 63 : Nat) ≤ n) (hhigh : n < UInt64.size) :
    (Numeral.ofInt n).toNumber? = some (.int n) := by
  unfold Numeral.toNumber? Numeral.ofInt
  simp only [natOfDigits_digitsOf]
  rcases lt_or_ge n 0 with hn | hn
  · have hpos : 0 < n.natAbs := by omega
    have hle : n.natAbs ≤ Nat.pow 2 63 := by
      change n.natAbs ≤ 2 ^ 63
      omega
    simp [hn, hpos, hle, abs_of_neg hn]
  · have hlt : n.natAbs < UInt64.size := by omega
    simp [not_lt.mpr hn, hlt, abs_of_nonneg hn]

/-- A value is printed as a text that says `j`. -/
def Prints (l : Layout) (j : Tree) (v : Value) : Prop := ∀ depth, Written j (v.print l depth)

namespace Prints

theorem null : Prints l .null .null := fun _ => .null

theorem bool (b : Bool) : Prints l (.bool b) (.bool b) := by
  intro depth
  cases b with
  | true => exact .true
  | false => exact .false

theorem int (n : Int) : Prints l (.number (.ofInt n)) (.number (.int n)) :=
  fun _ => .number (numeralText_ofInt n)

theorem string (s : String) : Prints l (.string s) (.string s) :=
  fun _ => .string (quoted_escaped s.toList)

theorem items (h : l.IsBlank) (inner outer : Nat) {js : List Tree} {vs : List Value}
    (hvs : List.Forall₂ (Prints l) js vs) :
    WrittenItems false js (printItems l inner vs ++ (l.break outer ++ [']'])) := by
  induction hvs with
  | nil => exact .close (break_blanks h outer)
  | cons hv _ ih =>
    have hi := WrittenItems.item (gap_break h inner).2 (hv inner) ih
    simpa [printItems] using hi

theorem array (h : l.IsBlank) {js : List Tree} {vs : List Value}
    (hvs : List.Forall₂ (Prints l) js vs) : Prints l (.array js) (.array vs) := by
  intro depth
  cases hvs with
  | nil => exact .array (.close blanks_nil)
  | cons hv hvs =>
    have hi := WrittenItems.item (gap_break h (depth + 1)).1 (hv (depth + 1))
      (items h (depth + 1) depth hvs)
    simpa [Value.print] using Written.array hi

def Member (l : Layout) (j : String × Tree) (m : String × Value) : Prop := j.1 = m.1 ∧ Prints l j.2 m.2

theorem Member.mk (name : String) {j : Tree} {v : Value} (h : Prints l j v) : Member l (name, j) (name, v) :=
  ⟨rfl, h⟩

theorem member {gap u : List Char} {first : Bool} (hg : Gap first gap) {j : String × Tree}
    {m : String × Value} (hm : Member l j m) (depth : Nat) {js : List (String × Tree)}
    (hu : WrittenMembers false js u) :
    WrittenMembers first (j :: js) (gap ++ (stringText m.1 ++ (l.colon ++ (m.2.print l depth ++ u)))) := by
  obtain ⟨name, j⟩ := j
  obtain ⟨name', v⟩ := m
  obtain ⟨rfl, hv⟩ : name = name' ∧ Prints l j v := hm
  obtain ⟨w, hw, hc⟩ := colon_text l
  have hm := WrittenMembers.member hg (quoted_escaped name.toList) blanks_nil hw
    (hv depth) hu
  simpa [stringText, hc] using hm

theorem members (h : l.IsBlank) (inner outer : Nat) {js : List (String × Tree)}
    {ms : List (String × Value)} (hms : List.Forall₂ (Member l) js ms) :
    WrittenMembers false js (printMembers l inner ms ++ (l.break outer ++ ['\x7d'])) := by
  induction hms with
  | nil => exact .close (break_blanks h outer)
  | cons hm _ ih =>
    have hi := member (gap_break h inner).2 hm inner ih
    simpa [printMembers] using hi

theorem object (h : l.IsBlank) {js : List (String × Tree)} {ms : List (String × Value)}
    (hms : List.Forall₂ (Member l) js ms) : Prints l (.object js) (.object ms) := by
  intro depth
  cases hms with
  | nil => exact .object (.close blanks_nil)
  | cons hm hms =>
    have hi := member (gap_break h (depth + 1)).1 hm (depth + 1) (members h (depth + 1) depth hms)
    simpa [Value.print] using Written.object hi

/-- The whole text. -/
theorem wellFormed {j : Tree} {v : Value} (h : Prints l j v) : WellFormed j (v.print l 0) := by
  simpa using WellFormed.mk blanks_nil (h 0) blanks_nil

end Prints

end LogDesk.Json
