import LogDesk.Uuid
import LogDesk.Proofs.Text.Words

/-! An identifier reads back from its canonical form: `parse?_print`. -/

namespace LogDesk.Uuid

theorem hexValue?_digitChar {n : Nat} (h : n < 16) : Text.hexValue? (Nat.digitChar n) = some n := by
  have all : ∀ n : Fin 16, Text.hexValue? (Nat.digitChar n) = some n.val := by decide
  exact all ⟨n, h⟩

theorem isBlank_digitChar {n : Nat} (h : n < 16) : Text.isBlank (Nat.digitChar n) = false := by
  have all : ∀ n : Fin 16, Text.isBlank (Nat.digitChar n) = false := by decide
  exact all ⟨n, h⟩

theorem length_hexTail (n x : Nat) : (hexTail n x).length = n := by
  induction n generalizing x with
  | zero => rfl
  | succ n ih => rw [hexTail, List.length_append, ih, List.length_singleton]

theorem ofHex?_append (acc : Nat) (cs ds : List Char) :
    ofHex? acc (cs ++ ds) = (ofHex? acc cs).bind fun n => ofHex? n ds := by
  induction cs generalizing acc with
  | nil => rfl
  | cons c cs ih =>
    rw [List.cons_append, ofHex?, ofHex?]
    cases Text.hexValue? c with
    | none => rfl
    | some d => exact ih (16 * acc + d)

/-- The last digits of a number are those of its remainder. -/
theorem ofHex?_hexTail (n x : Nat) : ofHex? 0 (hexTail n x) = some (x % 16 ^ n) := by
  induction n generalizing x with
  | zero => simp [hexTail, ofHex?, Nat.mod_one]
  | succ n ih =>
    have hd : x % 16 < 16 := Nat.mod_lt x (by decide)
    have hx : 16 * (x / 16 % 16 ^ n) + x % 16 = x % 16 ^ (n + 1) := by
      rw [Nat.pow_succ, Nat.mul_comm (16 ^ n), Nat.mod_mul]
      omega
    rw [hexTail, ofHex?_append, ih, Option.bind_some, ofHex?, hexValue?_digitChar hd]
    exact congrArg some hx

theorem length_digits (u : Uuid) : u.digits.length = 32 := length_hexTail 32 u.bits.toNat

theorem ofDigits?_digits (u : Uuid) : ofDigits? u.digits = some u := by
  have hu : u.bits.toNat % 16 ^ 32 = u.bits.toNat := Nat.mod_eq_of_lt (by have := u.bits.isLt; omega)
  rw [ofDigits?, if_pos u.length_digits, digits, ofHex?_hexTail, hu]
  simp

theorem mem_hyphenate {ds : List Char} {c : Char} (h : c ∈ hyphenate ds) : c ∈ ds ∨ c = '-' := by
  simp only [hyphenate, List.mem_append, List.mem_cons] at h
  rcases h with (((h | rfl | h) | rfl | h) | rfl | h) | rfl | h
  · exact .inl (List.mem_of_mem_take h)
  · exact .inr rfl
  · exact .inl (List.mem_of_mem_drop (List.mem_of_mem_take h))
  · exact .inr rfl
  · exact .inl (List.mem_of_mem_drop (List.mem_of_mem_take h))
  · exact .inr rfl
  · exact .inl (List.mem_of_mem_drop (List.mem_of_mem_take h))
  · exact .inr rfl
  · exact .inl (List.mem_of_mem_drop h)

/-- Groups of 8, 4, 4, 4 and more digits are found between their hyphens. -/
theorem ungroup {a b c d : List Char} (e : List Char) (ha : a.length = 8) (hb : b.length = 4)
    (hc : c.length = 4) (hd : d.length = 4) :
    let cs := a ++ '-' :: b ++ '-' :: c ++ '-' :: d ++ '-' :: e
    cs.take 8 ++ (cs.drop 9).take 4 ++ (cs.drop 14).take 4 ++ (cs.drop 19).take 4 ++ cs.drop 24 =
      a ++ b ++ c ++ d ++ e := by
  simp [List.drop_append, ha, hb, hc, hd, List.drop_eq_nil_of_le]

/-- Digits in groups, put together again. -/
theorem ofGroups?_hyphenate {ds : List Char} (h : ds.length = 32) :
    ofGroups? (hyphenate ds) = ofDigits? ds := by
  have next (n m : Nat) : (ds.drop n).take m ++ ds.drop (n + m) = ds.drop n := by
    rw [← List.drop_drop, List.take_append_drop]
  have digits : (hyphenate ds).take 8 ++ ((hyphenate ds).drop 9).take 4 ++ ((hyphenate ds).drop 14).take 4 ++
      ((hyphenate ds).drop 19).take 4 ++ (hyphenate ds).drop 24 = ds := by
    refine (ungroup (ds.drop 20) (by simp [h]) (by simp [h]) (by simp [h]) (by simp [h])).trans ?_
    rw [List.append_assoc, next 16 4, List.append_assoc, next 12 4, List.append_assoc, next 8 4,
      List.take_append_drop]
  unfold ofGroups?
  dsimp only
  rw [digits, if_pos rfl]

theorem parse?_print (u : Uuid) : parse? u.print = some u := by
  have hl : u.print.length = 36 := by simp [print, hyphenate, u.length_digits]
  unfold parse?
  rw [if_neg (by rw [hl]; decide), if_pos hl]
  exact (ofGroups?_hyphenate u.length_digits).trans u.ofDigits?_digits

theorem isBlank_of_mem_hexTail {n x : Nat} {c : Char} (h : c ∈ hexTail n x) : Text.isBlank c = false := by
  induction n generalizing x with
  | zero => cases h
  | succ n ih =>
    rcases List.mem_append.mp h with h | h
    · exact ih h
    · rw [List.mem_singleton.mp h]
      exact isBlank_digitChar (Nat.mod_lt x (by decide))

/-- The canonical form is one word. -/
theorem isWord_print (u : Uuid) : Text.IsWord u.print := by
  refine ⟨by simp [print, hyphenate], fun c hc => ?_⟩
  rcases mem_hyphenate hc with h | rfl
  · exact isBlank_of_mem_hexTail h
  · decide

end LogDesk.Uuid
