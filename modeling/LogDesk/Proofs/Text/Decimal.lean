import LogDesk.Text.Decimal
import LogDesk.Proofs.Text.Words

/-! What is read as a number: `numeral?_iff`. A number reads back from its digits: `numeral?_digits`. -/

namespace LogDesk.Text

theorem ofDigits_eq (acc : Nat) (cs : List Char) : ofDigits acc cs = Nat.ofDigitChars 10 cs acc := by
  induction cs generalizing acc with
  | nil => rfl
  | cons c cs ih => exact ih (10 * acc + digitValue c)

theorem ofDigits_digits (n : Nat) : ofDigits 0 (digits n) = n := by
  rw [ofDigits_eq, digits, Nat.ofDigitChars_toDigits (by decide) (by decide)]

theorem isDigit_of_mem_digits {n : Nat} {c : Char} (h : c ∈ digits n) : isDigit c = true :=
  Nat.isDigit_of_mem_toDigits (b := 10) (by decide) (by decide) h

theorem isDigit_toNat {c : Char} (h : isDigit c = true) : 48 ≤ c.toNat ∧ c.toNat ≤ 57 := by
  have hc : '0' ≤ c ∧ c ≤ '9' := by simpa [isDigit] using h
  exact ⟨UInt32.le_iff_toNat_le.mp hc.1, UInt32.le_iff_toNat_le.mp hc.2⟩

theorem isBlank_of_isDigit {c : Char} (h : isDigit c = true) : isBlank c = false := by
  have hn := isDigit_toNat h
  simp [isBlank]
  omega

theorem digits_ne_nil (n : Nat) : digits n ≠ [] := Nat.toDigits_ne_nil

/-- A number in writing: a digit or more, maybe behind a plus sign. -/
def Numeral (w : List Char) (n : Nat) : Prop :=
  ∃ ds, (w = ds ∨ w = '+' :: ds) ∧ ds ≠ [] ∧ (∀ c ∈ ds, '0' ≤ c ∧ c ≤ '9') ∧ Nat.ofDigitChars 10 ds 0 = n

theorem numeral?_iff {w : List Char} {n : Nat} : numeral? w = some n ↔ Numeral w n := by
  have read (ds : List Char) : (if ds.isEmpty || !ds.all isDigit then none else some (ofDigits 0 ds)) = some n ↔
      ds ≠ [] ∧ (∀ c ∈ ds, '0' ≤ c ∧ c ≤ '9') ∧ Nat.ofDigitChars 10 ds 0 = n := by
    rw [ofDigits_eq]
    by_cases he : ds = [] <;> by_cases hd : ∀ c ∈ ds, '0' ≤ c ∧ c ≤ '9' <;>
      simp [isDigit, he, hd]
  unfold numeral? Numeral
  dsimp only
  rw [read]
  split
  next rest =>
    refine ⟨fun h => ⟨rest, .inr rfl, h⟩, ?_⟩
    rintro ⟨ds, rfl | hw, h⟩
    · exact absurd (h.2.1 '+' List.mem_cons_self) (by decide)
    · cases hw
      exact h
  next hne =>
    refine ⟨fun h => ⟨w, .inl rfl, h⟩, ?_⟩
    rintro ⟨ds, rfl | rfl, h⟩
    · exact h
    · exact absurd rfl (hne ds)

theorem numeralBelow?_iff {bound n : Nat} {w : List Char} :
    numeralBelow? bound w = some n ↔ Numeral w n ∧ n < bound := by
  rw [numeralBelow?, Option.filter_eq_some_iff, numeral?_iff, decide_eq_true_eq]

/-- A number reads back from its digits. -/
theorem numeral?_digits (n : Nat) : numeral? (digits n) = some n := by
  have hall : (digits n).all isDigit = true := List.all_eq_true.mpr fun c => isDigit_of_mem_digits
  have hplus : ∀ rest, digits n ≠ '+' :: rest := by
    intro rest h
    have hd : isDigit '+' = true := isDigit_of_mem_digits (n := n) (by rw [h]; exact List.mem_cons_self)
    exact absurd hd (by decide)
  unfold numeral?
  split
  next rest h => exact absurd h (hplus rest)
  next => simp [digits_ne_nil, hall, ofDigits_digits]

theorem trim_digits (n : Nat) : trim (digits n) = digits n :=
  trim_solid fun _ hc => isBlank_of_isDigit (isDigit_of_mem_digits hc)

end LogDesk.Text
