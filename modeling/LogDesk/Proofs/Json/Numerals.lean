import LogDesk.Json.Scan
import LogDesk.Proofs.Json.Grammar
import LogDesk.Proofs.Text.Utf8

/-! A numeral is read from every way of writing it, up to where nothing goes on with it:
`readNumeral_written`. -/

namespace LogDesk.Json

open Text

variable {ds : List Nat} {rest : List UInt8}

/-- What holds of every entry of a list, by trying them. Bytes and characters are finitely many, so that `decide`
alone would try them all. -/
theorem forall_of_all {α : Type} {p : α → Prop} [DecidablePred p] {l : List α} (h : l.all (p ·) = true) :
    ∀ a ∈ l, p a := by
  simpa using h

def NoDigit (rest : List UInt8) : Prop := ∀ b ∈ rest.head?, isDigitByte b = false

/-- What comes does not go on with a numeral. -/
def Stops (rest : List UInt8) : Prop :=
  ∀ b ∈ rest.head?, isDigitByte b = false ∧ b ≠ 0x2E ∧ b ≠ 0x65 ∧ b ≠ 0x45

theorem Stops.noDigit (h : Stops rest) : NoDigit rest := fun b hb => (h b hb).1

theorem stops_nil : Stops [] := fun _ h => nomatch h

/-- Bytes that stand between values. -/
theorem stops_cons {b : UInt8} (hb : b ∈ [0x20, 0x0A, 0x09, 0x0D, 0x2C, 0x5D, 0x7D]) (r : List UInt8) :
    Stops (b :: r) := by
  have hall : ∀ b ∈ [0x20, 0x0A, 0x09, 0x0D, 0x2C, 0x5D, 0x7D],
      isDigitByte b = false ∧ b ≠ 0x2E ∧ b ≠ 0x65 ∧ b ≠ 0x45 := forall_of_all rfl
  intro c hc
  obtain rfl : b = c := by simpa using hc
  exact hall b hb

theorem charBytes_digit : ∀ d < 10, charBytes (Nat.digitChar d) = [.ofNat (0x30 + d)] := by
  decide

theorem digit_byte : ∀ d < 10, isDigitByte (.ofNat (0x30 + d)) = true ∧
    (UInt8.ofNat (0x30 + d)).toNat - 0x30 = d := by
  decide

theorem utf8_digits (h : ∀ d ∈ ds, d < 10) :
    utf8 (digitsText ds) = ds.map fun d => .ofNat (0x30 + d) := by
  induction ds with
  | nil => rfl
  | cons d ds ih =>
    have hd := charBytes_digit d (h d List.mem_cons_self)
    have hds := ih fun x hx => h x (List.mem_cons_of_mem d hx)
    rw [digitsText, List.map_cons, utf8_cons, hd, ← digitsText, hds]
    rfl

theorem takeDigits_digits (h : ∀ d ∈ ds, d < 10) (hr : NoDigit rest) :
    takeDigits (utf8 (digitsText ds) ++ rest) = (ds, rest) := by
  rw [utf8_digits h, takeDigits]
  have hall : ∀ b ∈ ds.map fun d => UInt8.ofNat (0x30 + d), isDigitByte b = true := by
    intro b hb
    obtain ⟨d, hd, rfl⟩ := List.mem_map.mp hb
    exact (digit_byte d (h d hd)).1
  have hnil : rest.takeWhile isDigitByte = [] ∧ rest.dropWhile isDigitByte = rest := by
    cases rest with
    | nil => exact ⟨rfl, rfl⟩
    | cons b r => simp [hr b rfl]
  have hval : ∀ d ∈ ds, ((UInt8.toNat · - 0x30) ∘ fun d => .ofNat (0x30 + d)) d = d := fun d hd =>
    (digit_byte d (h d hd)).2
  rw [List.takeWhile_append_of_pos hall, List.dropWhile_append_of_pos hall, hnil.1, hnil.2,
    List.append_nil, List.map_map, List.map_congr_left hval, List.map_id']

theorem needDigits_digits {e : ReadError} (h : Digits ds) (hr : NoDigit rest) :
    needDigits e (utf8 (digitsText ds) ++ rest) = .ok (ds, rest) := by
  unfold needDigits
  rw [takeDigits_digits h.2 hr]
  cases ds with
  | nil => exact absurd rfl h.1
  | cons d ds => rfl

theorem readWhole_other {e : ReadError} {b : UInt8} (hb : b ≠ 0x30) (r : List UInt8) :
    readWhole e (b :: r) = needDigits e (b :: r) := by
  unfold readWhole
  split
  next h => exact absurd (List.cons.inj h).1 hb
  next => rfl

theorem readWhole_text {e : ReadError} {t : List Char} (h : WholeText ds t) (hr : NoDigit rest) :
    readWhole e (utf8 t ++ rest) = .ok (ds, rest) := by
  cases h with
  | zero =>
    cases rest with
    | nil => rfl
    | cons b r =>
      have hb := hr b rfl
      have h0 : readWhole e (0x30 :: b :: r) =
        if isDigitByte b then .error .malformed else .ok ([0], b :: r) := rfl
      exact h0.trans (by simp [hb])
  | more hd h0 =>
    rw [← needDigits_digits (e := e) hd hr, utf8_digits hd.2]
    obtain ⟨hne, hlt⟩ := hd
    cases ds with
    | nil => exact absurd rfl hne
    | cons d ds =>
      have hfirst : ∀ d < 10, d ≠ 0 → UInt8.ofNat (0x30 + d) ≠ 0x30 := by decide
      exact readWhole_other (hfirst d (hlt d List.mem_cons_self) (by simpa using h0)) _

theorem readFraction_none {e : ReadError} (h : ∀ b ∈ rest.head?, b ≠ 0x2E) :
    readFraction e rest = .ok (none, rest) := by
  unfold readFraction
  split
  next => exact absurd rfl (h 0x2E rfl)
  next => rfl

theorem readFraction_text {e : ReadError} {f : Option (List Nat)} {t : List Char} (h : FractionText f t)
    (hr : NoDigit rest) (hp : ∀ b ∈ rest.head?, b ≠ 0x2E) :
    readFraction e (utf8 t ++ rest) = .ok (f, rest) := by
  cases h with
  | none => exact readFraction_none hp
  | some hd =>
    have hpoint (t : List Char) : utf8 ('.' :: t) = 0x2E :: utf8 t := rfl
    rw [hpoint, List.cons_append, readFraction, needDigits_digits hd hr]
    rfl

theorem readSign_text {down : Bool} {s : List Char} (h : SignText down s) {b : UInt8}
    (hb : isDigitByte b = true) (r : List UInt8) :
    readSign (utf8 s ++ b :: r) = (down, b :: r) := by
  cases h with
  | minus => rfl
  | plus => rfl
  | none =>
    rw [utf8_nil, List.nil_append]
    unfold readSign
    split
    next h => cases h; cases hb
    next h => cases h; cases hb
    next => rfl

/-- The letter of an exponent. -/
theorem charBytes_exponent {c : Char} (h : c ∈ ['e', 'E']) :
    ∃ b, charBytes c = [b] ∧ (b == 0x65 || b == 0x45) = true ∧ isDigitByte b = false ∧ b ≠ 0x2E := by
  simp only [List.mem_cons, List.not_mem_nil, or_false] at h
  rcases h with rfl | rfl
  · exact ⟨0x65, by decide⟩
  · exact ⟨0x45, by decide⟩

theorem readExponent_text {e : ReadError} {x : Option (Bool × List Nat)} {t : List Char}
    (h : ExponentText x t) (hr : Stops rest) : readExponent e (utf8 t ++ rest) = .ok (x, rest) := by
  cases h with
  | none =>
    cases rest with
    | nil => rfl
    | cons b r =>
      obtain ⟨-, -, h1, h2⟩ := hr b rfl
      simp [readExponent, h1, h2]
  | @some c down s ds hc hs hd =>
    obtain ⟨b, hcb, hb, -⟩ := charBytes_exponent hc
    have hdigits := needDigits_digits (e := e) hd hr.noDigit
    obtain ⟨d, ds', rfl⟩ := List.exists_cons_of_ne_nil hd.1
    have hd0 := (digit_byte d (hd.2 d List.mem_cons_self)).1
    rw [utf8_digits hd.2, List.map_cons, List.cons_append] at hdigits
    rw [utf8_cons, hcb, utf8_append, utf8_digits hd.2, List.singleton_append, List.cons_append,
      List.append_assoc, List.map_cons, List.cons_append, readExponent, if_pos hb]
    rw [readSign_text hs hd0]
    dsimp only
    rw [hdigits]
    rfl

theorem exponent_follows {x : Option (Bool × List Nat)} {t : List Char} (h : ExponentText x t)
    (hr : Stops rest) : NoDigit (utf8 t ++ rest) ∧ ∀ b ∈ (utf8 t ++ rest).head?, b ≠ 0x2E := by
  cases h with
  | none => exact ⟨hr.noDigit, fun b hb => (hr b hb).2.1⟩
  | some hc =>
    obtain ⟨b, hcb, -, hd, hp⟩ := charBytes_exponent hc
    rw [utf8_cons, hcb]
    exact ⟨fun x hx => Option.some.inj hx ▸ hd, fun x hx => Option.some.inj hx ▸ hp⟩

theorem fraction_follows {f : Option (List Nat)} {t : List Char} (h : FractionText f t)
    (hr : NoDigit rest) : NoDigit (utf8 t ++ rest) := by
  cases h with
  | none => exact hr
  | some =>
    intro b hb
    obtain rfl := Option.some.inj hb
    rfl

def digitBytes : List UInt8 := [0x30, 0x31, 0x32, 0x33, 0x34, 0x35, 0x36, 0x37, 0x38, 0x39]

theorem mem_digitBytes : ∀ d < 10, .ofNat (0x30 + d) ∈ digitBytes := by decide

theorem whole_head {t : List Char} (h : WholeText ds t) : ∃ b r, utf8 t = b :: r ∧ b ∈ digitBytes := by
  cases h with
  | zero => exact ⟨0x30, [], by decide⟩
  | more hd =>
    obtain ⟨d, ds, rfl⟩ := List.exists_cons_of_ne_nil hd.1
    rw [utf8_digits hd.2]
    exact ⟨_, _, rfl, mem_digitBytes d (hd.2 d List.mem_cons_self)⟩

/-- A numeral begins with a minus or with a digit. -/
theorem numeral_head {n : Numeral} {t : List Char} (h : NumeralText n t) :
    ∃ b r, utf8 t = b :: r ∧ b ∈ 0x2D :: digitBytes := by
  obtain @⟨negative, whole, fraction, exponent, w, f, x, hw, -, -⟩ := h
  cases negative with
  | true => exact ⟨0x2D, utf8 (w ++ (f ++ x)), rfl, List.mem_cons_self⟩
  | false =>
    obtain ⟨b, r, hb, hd⟩ := whole_head hw
    exact ⟨b, r ++ utf8 (f ++ x), by simp [hb], List.mem_cons_of_mem _ hd⟩

theorem readNumeral_written {e : ReadError} {n : Numeral} {t : List Char} (h : NumeralText n t)
    (hr : Stops rest) : readNumeral e (utf8 t ++ rest) = .ok (n, rest) := by
  obtain @⟨negative, whole, fraction, exponent, w, f, x, hw, hf, hx⟩ := h
  obtain ⟨hxd, hxp⟩ := exponent_follows hx hr
  have hwhole := readWhole_text (e := e) hw (fraction_follows hf hxd)
  have hfraction := readFraction_text (e := e) hf hxd hxp
  have hexponent := readExponent_text (e := e) hx hr
  cases negative with
  | true =>
    have hminus (t : List Char) : utf8 ('-' :: t) = 0x2D :: utf8 t := rfl
    rw [if_pos rfl, List.singleton_append, hminus]
    simp only [List.cons_append, utf8_append, List.append_assoc, readNumeral, bind, Except.bind,
      hwhole, hfraction, hexponent]
    rfl
  | false =>
    obtain ⟨b, r, hb, hd⟩ := whole_head hw
    rw [hb] at hwhole
    simp only [Bool.false_eq_true, if_false, List.nil_append, utf8_append, List.append_assoc, hb,
      List.cons_append] at hwhole ⊢
    unfold readNumeral
    split
    next hsign =>
      split at hsign
      next heq =>
        obtain rfl := (List.cons.inj heq).1
        exact absurd hd (by decide)
      next =>
        obtain ⟨rfl, rfl⟩ := Prod.mk.inj hsign
        simp only [bind, Except.bind, hwhole, hfraction, hexponent]
        rfl

end LogDesk.Json
