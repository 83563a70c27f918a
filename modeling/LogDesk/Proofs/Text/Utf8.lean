import LogDesk.Text.Utf8
import Mathlib.Tactic

/-! The bytes of a text read back as that text, and no other bytes do: `ofUtf8?_eq_some_iff`. A character
takes one to four bytes by its number, and the reader tells the four apart by the first of them. -/

namespace LogDesk.Text

theorem charBytes_one {c : Char} (h : c.toNat < 0x80) : charBytes c = [.ofNat c.toNat] := by
  have hv : c.val.toNat < 0x80 := h
  rw [charBytes, String.utf8EncodeChar, if_pos (by omega)]
  rfl

theorem charBytes_two {c : Char} (h : 0x80 ≤ c.toNat) (h' : c.toNat < 0x800) :
    charBytes c = [.ofNat (c.toNat / 64 % 32 + 0xC0), .ofNat (c.toNat % 64 + 0x80)] := by
  have hv : 0x80 ≤ c.val.toNat := h
  have hv' : c.val.toNat < 0x800 := h'
  rw [charBytes, String.utf8EncodeChar, if_neg (by omega), if_pos (by omega)]
  rfl

theorem charBytes_three {c : Char} (h : 0x800 ≤ c.toNat) (h' : c.toNat < 0x10000) :
    charBytes c = [.ofNat (c.toNat / 4096 % 16 + 0xE0), .ofNat (c.toNat / 64 % 64 + 0x80),
      .ofNat (c.toNat % 64 + 0x80)] := by
  have hv : 0x800 ≤ c.val.toNat := h
  have hv' : c.val.toNat < 0x10000 := h'
  rw [charBytes, String.utf8EncodeChar, if_neg (by omega), if_neg (by omega), if_pos (by omega)]
  rfl

theorem charBytes_four {c : Char} (h : 0x10000 ≤ c.toNat) :
    charBytes c = [.ofNat (c.toNat / 262144 % 8 + 0xF0), .ofNat (c.toNat / 4096 % 64 + 0x80),
      .ofNat (c.toNat / 64 % 64 + 0x80), .ofNat (c.toNat % 64 + 0x80)] := by
  have hv : 0x10000 ≤ c.val.toNat := h
  rw [charBytes, String.utf8EncodeChar, if_neg (by omega), if_neg (by omega), if_neg (by omega)]
  rfl

/-- No character stands for a surrogate, and none is beyond the last plane. -/
theorem toNat_ranges (c : Char) : c.toNat < 0xD800 ∨ 0xDFFF < c.toNat ∧ c.toNat < 0x110000 :=
  c.valid

theorem lead_one : ∀ n < 0x80, UInt8.ofNat n < 0x80 := by decide

theorem lead_two : ∀ n < 32, 2 ≤ n → ¬ UInt8.ofNat (n + 0xC0) < 0x80 ∧
    (0xC2 ≤ UInt8.ofNat (n + 0xC0) && UInt8.ofNat (n + 0xC0) ≤ 0xDF) = true := by decide

theorem lead_three : ∀ n < 16, ¬ UInt8.ofNat (n + 0xE0) < 0x80 ∧
    ¬ (0xC2 ≤ UInt8.ofNat (n + 0xE0) && UInt8.ofNat (n + 0xE0) ≤ 0xDF) = true ∧
    (0xE0 ≤ UInt8.ofNat (n + 0xE0) && UInt8.ofNat (n + 0xE0) ≤ 0xEF) = true := by decide

theorem lead_four : ∀ n < 5, ¬ UInt8.ofNat (n + 0xF0) < 0x80 ∧
    ¬ (0xC2 ≤ UInt8.ofNat (n + 0xF0) && UInt8.ofNat (n + 0xF0) ≤ 0xDF) = true ∧
    ¬ (0xE0 ≤ UInt8.ofNat (n + 0xF0) && UInt8.ofNat (n + 0xF0) ≤ 0xEF) = true ∧
    (0xF0 ≤ UInt8.ofNat (n + 0xF0) && UInt8.ofNat (n + 0xF0) ≤ 0xF4) = true := by decide

theorem isTail_ofNat : ∀ n < 64, isTail (.ofNat (n + 0x80)) = true := by decide

theorem tailBits_ofNat : ∀ n < 64, tailBits (.ofNat (n + 0x80)) = n := by decide

set_option maxRecDepth 4096 in
/-- The second byte keeps out numbers that fit into two bytes, and surrogates. -/
theorem isSecond_three : ∀ n < 16, ∀ m < 64, (n = 0 → 32 ≤ m) → (n = 13 → m < 32) →
    isSecond (.ofNat (n + 0xE0)) (.ofNat (m + 0x80)) = true := by decide

set_option maxRecDepth 4096 in
/-- The second byte keeps out numbers that fit into three bytes, and those beyond the last plane. -/
theorem isSecond_four : ∀ n < 5, ∀ m < 64, (n = 0 → 16 ≤ m) → (n = 4 → m < 16) →
    isSecond (.ofNat (n + 0xF0)) (.ofNat (m + 0x80)) = true := by decide

/-- A character is read off the front of its bytes, whatever comes after them. -/
theorem readUtf8_charBytes (c : Char) (rest : List UInt8) :
    readUtf8 (charBytes c ++ rest) = some c :: readUtf8 rest := by
  have hr := toNat_ranges c
  have hc := Char.ofNat_toNat c
  have htail (n : Nat) : isTail (.ofNat (n % 64 + 0x80)) = true :=
    isTail_ofNat _ (Nat.mod_lt n (by omega))
  have hbits (n : Nat) : tailBits (.ofNat (n % 64 + 0x80)) = n % 64 :=
    tailBits_ofNat _ (Nat.mod_lt n (by omega))
  rcases Nat.lt_or_ge c.toNat 0x80 with h1 | h1
  · have hn : c.toNat % 2 ^ 8 = c.toNat := by omega
    rw [charBytes_one h1, List.singleton_append, readUtf8.eq_def]
    simp only [lead_one _ h1, if_true, UInt8.toNat_ofNat', hn, hc]
  rcases Nat.lt_or_ge c.toNat 0x800 with h2 | h2
  · obtain ⟨hl, hl₂⟩ := lead_two (c.toNat / 64 % 32) (by omega) (by omega)
    have hn : (c.toNat / 64 % 32 + 0xC0) % 2 ^ 8 % 32 * 64 + c.toNat % 64 = c.toNat := by omega
    rw [charBytes_two h1 h2, List.cons_append, List.singleton_append, readUtf8.eq_def]
    simp only [hl, hl₂, htail, hbits, if_true, if_false, UInt8.toNat_ofNat', hn, hc]
  rcases Nat.lt_or_ge c.toNat 0x10000 with h3 | h3
  · obtain ⟨hl, hl₂, hl₃⟩ := lead_three (c.toNat / 4096 % 16) (by omega)
    have hs := isSecond_three (c.toNat / 4096 % 16) (by omega) (c.toNat / 64 % 64) (by omega)
      (by omega) (by omega)
    have hn : ((c.toNat / 4096 % 16 + 0xE0) % 2 ^ 8 % 16 * 64 + c.toNat / 64 % 64) * 64 +
        c.toNat % 64 = c.toNat := by omega
    rw [charBytes_three h2 h3, List.cons_append, List.cons_append, List.singleton_append,
      readUtf8.eq_def]
    simp only [hl, hl₂, hl₃, hs, htail, hbits, if_true, if_false, Bool.false_eq_true,
      UInt8.toNat_ofNat', hn, hc]
  · obtain ⟨hl, hl₂, hl₃, hl₄⟩ := lead_four (c.toNat / 262144 % 8) (by omega)
    have hs := isSecond_four (c.toNat / 262144 % 8) (by omega) (c.toNat / 4096 % 64) (by omega)
      (by omega) (by omega)
    have hn : (((c.toNat / 262144 % 8 + 0xF0) % 2 ^ 8 % 8 * 64 + c.toNat / 4096 % 64) * 64 +
        c.toNat / 64 % 64) * 64 + c.toNat % 64 = c.toNat := by omega
    rw [charBytes_four h3, List.cons_append, List.cons_append, List.cons_append,
      List.singleton_append, readUtf8.eq_def]
    simp only [hl, hl₂, hl₃, hl₄, hs, htail, hbits, if_true, if_false, Bool.false_eq_true,
      UInt8.toNat_ofNat', hn, hc]

@[simp] theorem utf8_nil : utf8 [] = [] := rfl

@[simp] theorem utf8_cons (c : Char) (cs : List Char) : utf8 (c :: cs) = charBytes c ++ utf8 cs := rfl

@[simp] theorem utf8_append (cs ds : List Char) : utf8 (cs ++ ds) = utf8 cs ++ utf8 ds :=
  List.flatMap_append

theorem readUtf8_utf8 (cs : List Char) : readUtf8 (utf8 cs) = cs.map some := by
  induction cs with
  | nil => rw [utf8_nil, readUtf8.eq_def]; rfl
  | cons c cs ih => rw [utf8_cons, readUtf8_charBytes, ih, List.map_cons]

/-- The bytes of a text spell that text. -/
theorem ofUtf8?_utf8 (cs : List Char) : ofUtf8? (utf8 cs) = some cs := by
  rw [ofUtf8?, readUtf8_utf8]
  induction cs with
  | nil => rfl
  | cons c cs ih => simp [ih]

theorem ofUtf8Lossy_utf8 (cs : List Char) : ofUtf8Lossy (utf8 cs) = cs := by
  rw [ofUtf8Lossy, readUtf8_utf8, List.map_map]
  exact List.map_id cs

/-- Different texts have different bytes. -/
theorem utf8_injective {cs ds : List Char} (h : utf8 cs = utf8 ds) : cs = ds := by
  have ho := congrArg ofUtf8? h
  rw [ofUtf8?_utf8, ofUtf8?_utf8] at ho
  exact Option.some.inj ho

/-- A character that is not ASCII has no byte that is. -/
theorem le_of_mem_charBytes {c : Char} (h : 0x80 ≤ c.toNat) {b : UInt8} (hb : b ∈ charBytes c) :
    0x80 ≤ b.toNat := by
  have hr := toNat_ranges c
  rcases Nat.lt_or_ge c.toNat 0x800 with h2 | h2
  · rw [charBytes_two h h2] at hb
    simp only [List.mem_cons, List.not_mem_nil, or_false] at hb
    rcases hb with rfl | rfl <;> simp only [UInt8.toNat_ofNat'] <;> omega
  rcases Nat.lt_or_ge c.toNat 0x10000 with h3 | h3
  · rw [charBytes_three h2 h3] at hb
    simp only [List.mem_cons, List.not_mem_nil, or_false] at hb
    rcases hb with rfl | rfl | rfl <;> simp only [UInt8.toNat_ofNat'] <;> omega
  · rw [charBytes_four h3] at hb
    simp only [List.mem_cons, List.not_mem_nil, or_false] at hb
    rcases hb with rfl | rfl | rfl | rfl <;> simp only [UInt8.toNat_ofNat'] <;> omega

theorem toNat_ofNat_char {n : Nat} (h : n < 0xD800 ∨ 0xDFFF < n ∧ n < 0x110000) : (Char.ofNat n).toNat = n := by
  rw [Char.ofNat, dif_pos h]
  rfl

theorem toNat_tail {b : UInt8} (h : isTail b = true) : 0x80 ≤ b.toNat ∧ b.toNat ≤ 0xBF := by
  simpa [isTail, UInt8.le_iff_toNat_le] using h

theorem ofNat_toNat_of {b : UInt8} {n : Nat} (h : b.toNat = n) : UInt8.ofNat n = b := by
  rw [← h, UInt8.ofNat_toNat]

theorem charBytes_read_one {a : UInt8} (h : a < 0x80) : charBytes (Char.ofNat a.toNat) = [a] := by
  have ha : a.toNat < 0x80 := UInt8.lt_iff_toNat_lt.mp h
  have hn := toNat_ofNat_char (n := a.toNat) (by omega)
  rw [charBytes_one (by omega), hn, UInt8.ofNat_toNat]

theorem charBytes_read_two {a b : UInt8} (ha : 0xC2 ≤ a ∧ a ≤ 0xDF) (hb : isTail b = true) :
    charBytes (Char.ofNat (a.toNat % 32 * 64 + tailBits b)) = [a, b] := by
  have ha₁ : 0xC2 ≤ a.toNat := UInt8.le_iff_toNat_le.mp ha.1
  have ha₂ : a.toNat ≤ 0xDF := UInt8.le_iff_toNat_le.mp ha.2
  have hb := toNat_tail hb
  unfold tailBits
  generalize hm : a.toNat % 32 * 64 + b.toNat % 64 = n
  have hn := toNat_ofNat_char (n := n) (by omega)
  rw [charBytes_two (by omega) (by omega), hn, ofNat_toNat_of (b := a) (by omega),
    ofNat_toNat_of (b := b) (by omega)]

/-- The second byte keeps a character out that fits into fewer bytes, stands for a surrogate or is beyond the
last plane. -/
theorem toNat_second {a b : UInt8} (h : isSecond a b = true) : (0x80 ≤ b.toNat ∧ b.toNat ≤ 0xBF) ∧
    (a.toNat = 0xE0 → 0xA0 ≤ b.toNat) ∧ (a.toNat = 0xED → b.toNat ≤ 0x9F) ∧
    (a.toNat = 0xF0 → 0x90 ≤ b.toNat) ∧ (a.toNat = 0xF4 → b.toNat ≤ 0x8F) := by
  have hlead (n : UInt8) : a = n ↔ a.toNat = n.toNat := UInt8.toNat_inj.symm
  unfold isSecond secondRange at h
  simp only [beq_iff_eq, hlead, Bool.and_eq_true, decide_eq_true_eq] at h
  split_ifs at h
  all_goals
    simp only [UInt8.le_iff_toNat_le] at h
    simp at *
    omega

theorem charBytes_read_three {a b c : UInt8} (ha : 0xE0 ≤ a ∧ a ≤ 0xEF) (hb : isSecond a b = true)
    (hc : isTail c = true) :
    charBytes (Char.ofNat ((a.toNat % 16 * 64 + tailBits b) * 64 + tailBits c)) = [a, b, c] := by
  have ha₁ : 0xE0 ≤ a.toNat := UInt8.le_iff_toNat_le.mp ha.1
  have ha₂ : a.toNat ≤ 0xEF := UInt8.le_iff_toNat_le.mp ha.2
  obtain ⟨hb, hb₀, hbd, -⟩ := toNat_second hb
  have hc := toNat_tail hc
  unfold tailBits
  generalize hm : (a.toNat % 16 * 64 + b.toNat % 64) * 64 + c.toNat % 64 = n
  have hn := toNat_ofNat_char (n := n) (by omega)
  rw [charBytes_three (by omega) (by omega), hn, ofNat_toNat_of (b := a) (by omega),
    ofNat_toNat_of (b := b) (by omega), ofNat_toNat_of (b := c) (by omega)]

theorem charBytes_read_four {a b c d : UInt8} (ha : 0xF0 ≤ a ∧ a ≤ 0xF4) (hb : isSecond a b = true)
    (hc : isTail c = true) (hd : isTail d = true) :
    charBytes (Char.ofNat (((a.toNat % 8 * 64 + tailBits b) * 64 + tailBits c) * 64 + tailBits d)) =
      [a, b, c, d] := by
  have ha₁ : 0xF0 ≤ a.toNat := UInt8.le_iff_toNat_le.mp ha.1
  have ha₂ : a.toNat ≤ 0xF4 := UInt8.le_iff_toNat_le.mp ha.2
  obtain ⟨hb, -, -, hb₀, hb₄⟩ := toNat_second hb
  have hc := toNat_tail hc
  have hd := toNat_tail hd
  unfold tailBits
  generalize hm : ((a.toNat % 8 * 64 + b.toNat % 64) * 64 + c.toNat % 64) * 64 + d.toNat % 64 = n
  have hn := toNat_ofNat_char (n := n) (by omega)
  rw [charBytes_four (by omega), hn, ofNat_toNat_of (b := a) (by omega), ofNat_toNat_of (b := b) (by omega),
    ofNat_toNat_of (b := c) (by omega), ofNat_toNat_of (b := d) (by omega)]

/-- A character that was read stands first in the text, and its bytes first among the bytes. -/
theorem utf8_of_read {c : Char} {bytes rest : List UInt8} {cs : List Char} (hc : charBytes c = bytes)
    (ih : ∀ {cs : List Char}, readUtf8 rest = cs.map some → rest = utf8 cs)
    (h : some c :: readUtf8 rest = cs.map some) : bytes ++ rest = utf8 cs := by
  cases cs with
  | nil => cases h
  | cons d cs =>
    obtain ⟨hd, hr⟩ := List.cons.inj h
    cases hd
    rw [utf8_cons, hc, ← ih hr]

theorem utf8_of_readUtf8 {bs : List UInt8} {cs : List Char} (h : readUtf8 bs = cs.map some) :
    bs = utf8 cs := by
  have broken {os : List (Option Char)} {cs : List Char} : none :: os ≠ cs.map some := by
    cases cs <;> simp
  fun_induction readUtf8 bs generalizing cs
  case case1 =>
    rw [List.map_eq_nil_iff.mp h.symm]
    rfl
  case case2 ha ih => exact utf8_of_read (charBytes_read_one ha) ih h
  case case3 ha _ _ hb ih => exact utf8_of_read (charBytes_read_two (by simpa using ha) hb) ih h
  case case6 ha _ hb _ _ hc ih =>
    exact utf8_of_read (charBytes_read_three (by simpa using ha) hb hc) ih h
  case case11 ha _ hb _ hc _ _ hd ih =>
    exact utf8_of_read (charBytes_read_four (by simpa using ha) hb hc hd) ih h
  all_goals exact absurd h broken

theorem eq_map_some_of_mapM {os : List (Option Char)} {cs : List Char} (h : os.mapM id = some cs) :
    os = cs.map some := by
  induction os generalizing cs with
  | nil =>
    cases h
    rfl
  | cons o os ih =>
    cases o with
    | none => cases h
    | some c =>
      obtain ⟨ds, hds, hcs⟩ : ∃ ds, os.mapM id = some ds ∧ c :: ds = cs := by
        simpa [Option.bind_eq_some_iff] using h
      rw [← hcs, ih hds, List.map_cons]

def IsUtf8 (bs : List UInt8) : Prop := ∃ cs, bs = utf8 cs

/-- Bytes spell a text where they are the bytes of that text. -/
theorem ofUtf8?_eq_some_iff {bs : List UInt8} {cs : List Char} : ofUtf8? bs = some cs ↔ bs = utf8 cs := by
  constructor
  · intro h
    exact utf8_of_readUtf8 (eq_map_some_of_mapM h)
  · rintro rfl
    exact ofUtf8?_utf8 cs

theorem ofUtf8?_eq_none_iff {bs : List UInt8} : ofUtf8? bs = none ↔ ¬ IsUtf8 bs := by
  rw [Option.eq_none_iff_forall_ne_some, IsUtf8, not_exists]
  exact forall_congr' fun cs => not_congr ofUtf8?_eq_some_iff

/-- A byte of ASCII is a character of its own wherever it stands. -/
theorem charBytes_of_mem {b : UInt8} (hb : b < 0x80) {c : Char} (h : b ∈ charBytes c) :
    c = Char.ofNat b.toNat ∧ charBytes c = [b] := by
  have hc : c.toNat < 0x80 := by
    by_contra hc
    have hle := le_of_mem_charBytes (by omega) h
    have hlt : b.toNat < 0x80 := UInt8.lt_iff_toNat_lt.mp hb
    omega
  rw [charBytes_one hc] at h ⊢
  obtain rfl := List.mem_singleton.mp h
  have hn : c.toNat % 2 ^ 8 = c.toNat := by omega
  refine ⟨?_, rfl⟩
  rw [UInt8.toNat_ofNat', hn, Char.ofNat_toNat]

/-- So it cuts a text in two: what stands before it is a text, and what stands behind it. -/
theorem cut_of_utf8 {b : UInt8} (hb : b < 0x80) {cs : List Char} {front back : List UInt8}
    (h : utf8 cs = front ++ b :: back) :
    ∃ ds es, cs = ds ++ Char.ofNat b.toNat :: es ∧ front = utf8 ds ∧ back = utf8 es := by
  induction cs generalizing front with
  | nil => simp at h
  | cons c cs ih =>
    rw [utf8_cons] at h
    rcases List.append_eq_append_iff.mp h with ⟨t, hf, hr⟩ | ⟨t, hc, hr⟩
    · -- the byte stands behind the first character
      obtain ⟨ds, es, rfl, rfl, rfl⟩ := ih hr
      exact ⟨c :: ds, es, rfl, hf, rfl⟩
    cases t with
    | nil =>
      have hback : utf8 cs = [] ++ b :: back := hr.symm
      obtain ⟨ds, es, rfl, hds, rfl⟩ := ih hback
      refine ⟨c :: ds, es, rfl, ?_, rfl⟩
      rw [utf8_cons, ← hds, hc, List.append_nil, List.append_nil]
    | cons b' t =>
      obtain ⟨rfl, ht⟩ := List.cons.inj hr
      obtain ⟨rfl, hone⟩ := charBytes_of_mem hb (c := c) (by simp [hc])
      rw [hone] at hc
      cases front with
      | nil =>
        obtain ⟨-, rfl⟩ := List.cons.inj hc
        exact ⟨[], cs, rfl, rfl, ht⟩
      | cons => simp at hc

theorem isUtf8_split {b : UInt8} (hb : b < 0x80) {front back : List UInt8} :
    IsUtf8 (front ++ b :: back) ↔ IsUtf8 front ∧ IsUtf8 back := by
  constructor
  · rintro ⟨cs, h⟩
    obtain ⟨ds, es, -, hf, hr⟩ := cut_of_utf8 hb h.symm
    exact ⟨⟨ds, hf⟩, ⟨es, hr⟩⟩
  · rintro ⟨⟨ds, rfl⟩, ⟨es, rfl⟩⟩
    refine ⟨ds ++ Char.ofNat b.toNat :: es, ?_⟩
    rw [utf8_append, utf8_cons, charBytes_read_one hb, List.singleton_append]

theorem ofUtf8?_concat {b : UInt8} (hb : b < 0x80) (bs : List UInt8) :
    ofUtf8? (bs ++ [b]) = (ofUtf8? bs).map (· ++ [Char.ofNat b.toNat]) := by
  by_cases h : IsUtf8 bs
  · obtain ⟨cs, rfl⟩ := h
    rw [ofUtf8?_utf8, Option.map_some, ofUtf8?_eq_some_iff, utf8_append, utf8_cons, charBytes_read_one hb,
      utf8_nil, List.append_nil]
  · have hb' : ¬ IsUtf8 (bs ++ [b]) := fun hs => h ((isUtf8_split hb).mp hs).1
    rw [ofUtf8?_eq_none_iff.mpr h, ofUtf8?_eq_none_iff.mpr hb', Option.map_none]

theorem length_le_utf8 (cs : List Char) : cs.length ≤ (utf8 cs).length := by
  induction cs with
  | nil => simp
  | cons c cs ih =>
    have hc : 0 < (charBytes c).length := by
      rw [charBytes, String.length_utf8EncodeChar]
      exact c.utf8Size_pos
    simp only [utf8_cons, List.length_append, List.length_cons]
    omega

end LogDesk.Text
