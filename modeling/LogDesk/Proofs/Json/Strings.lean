import LogDesk.Json.Printer
import LogDesk.Json.Scan
import LogDesk.Proofs.Json.Grammar
import LogDesk.Proofs.Text.Utf8

/-! Strings, read or skipped off the front of the bytes. A text is read from every way of writing it:
`readString_quoted`. What is printed is one of these ways, so a printed string reads back:
`readString_escaped`. Both hold with whatever comes behind the closing quote. -/

namespace LogDesk.Json

open Text

/-- A byte that stands for itself in a string. -/
def IsPlain (b : UInt8) : Prop := 0x20 ≤ b.toNat ∧ b ≠ 0x22 ∧ b ≠ 0x5C

theorem IsPlain.not_control {b : UInt8} (h : IsPlain b) : ¬ b < 0x20 := by
  rw [UInt8.lt_iff_toNat_lt]
  exact Nat.not_lt.mpr h.1

theorem stringBytes_plain {b : UInt8} (hb : IsPlain b) {r bs t : List UInt8}
    (h : stringBytes r = .ok (bs, t)) : stringBytes (b :: r) = .ok (b :: bs, t) := by
  have hlt := hb.not_control
  obtain ⟨-, h22, h5c⟩ := hb
  rw [stringBytes.eq_def]
  simp [h22, h5c, hlt, h, Except.map]

theorem stringBytes_plains {ps : List UInt8} (hp : ∀ b ∈ ps, IsPlain b) {r bs t : List UInt8}
    (h : stringBytes r = .ok (bs, t)) : stringBytes (ps ++ r) = .ok (ps ++ bs, t) := by
  induction ps with
  | nil => exact h
  | cons p ps ih =>
    exact stringBytes_plain (hp p (by simp)) (ih fun b hb => hp b (by simp [hb]))

theorem skipString_plains {ps : List UInt8} (hp : ∀ b ∈ ps, IsPlain b) (r : List UInt8) :
    skipString (ps ++ r) = skipString r := by
  induction ps with
  | nil => rfl
  | cons p ps ih =>
    have hlt := (hp p (by simp)).not_control
    obtain ⟨-, h22, h5c⟩ := hp p (by simp)
    rw [List.cons_append, skipString.eq_def]
    simp [h22, h5c, hlt, ih fun b hb => hp b (by simp [hb])]

theorem stringBytes_short {e c : UInt8} (he : e ≠ 0x75) (hc : shortEscape? e = some c)
    {r bs t : List UInt8} (h : stringBytes r = .ok (bs, t)) :
    stringBytes (0x5C :: e :: r) = .ok (c :: bs, t) := by
  rw [stringBytes.eq_def]
  simp [he, hc, h, Except.map]

theorem skipString_short {e c : UInt8} (he : e ≠ 0x75) (hc : shortEscape? e = some c) (r : List UInt8) :
    skipString (0x5C :: e :: r) = skipString r := by
  rw [skipString.eq_def]
  simp [he, hc]

/-- A character by its number. -/
theorem stringBytes_code {h₁ h₂ h₃ h₄ : UInt8} {n : Nat} (hn : hexFour? h₁ h₂ h₃ h₄ = some n)
    (hs : n < 0xD800 ∨ 0xDFFF < n) {r bs t : List UInt8} (h : stringBytes r = .ok (bs, t)) :
    stringBytes (0x5C :: 0x75 :: h₁ :: h₂ :: h₃ :: h₄ :: r) =
      .ok (charBytes (Char.ofNat n) ++ bs, t) := by
  have ht : isTrailing n = false := by simp [isTrailing]; omega
  have hl : isLeading n = false := by simp [isLeading]; omega
  rw [stringBytes.eq_def]
  simp [hn, ht, hl, h, Except.map]

/-- A character by a pair of surrogates. -/
theorem stringBytes_pair {h₁ h₂ h₃ h₄ k₁ k₂ k₃ k₄ : UInt8} {n m : Nat}
    (hn : hexFour? h₁ h₂ h₃ h₄ = some n) (hl : 0xD800 ≤ n ∧ n ≤ 0xDBFF)
    (hm : hexFour? k₁ k₂ k₃ k₄ = some m) (ht : 0xDC00 ≤ m ∧ m ≤ 0xDFFF)
    {r bs u : List UInt8} (h : stringBytes r = .ok (bs, u)) :
    stringBytes (0x5C :: 0x75 :: h₁ :: h₂ :: h₃ :: h₄ :: 0x5C :: 0x75 :: k₁ :: k₂ :: k₃ :: k₄ :: r) =
      .ok (charBytes (pairChar n m) ++ bs, u) := by
  have hnt : isTrailing n = false := by simp [isTrailing]; omega
  have hnl : isLeading n = true := by simp [isLeading]; omega
  have hmt : isTrailing m = true := by simp [isTrailing]; omega
  rw [stringBytes.eq_def]
  simp [hn, hnt, hnl, hm, hmt, h, Except.map]

theorem skipString_code {h₁ h₂ h₃ h₄ : UInt8} {n : Nat} (hn : hexFour? h₁ h₂ h₃ h₄ = some n)
    (r : List UInt8) : skipString (0x5C :: 0x75 :: h₁ :: h₂ :: h₃ :: h₄ :: r) = skipString r := by
  rw [skipString.eq_def]
  simp [hn]

theorem isPlain_of_mem_charBytes {c : Char} (h20 : 0x20 ≤ c.toNat) (h22 : c ≠ '"') (h5c : c ≠ '\\')
    {b : UInt8} (hb : b ∈ charBytes c) : IsPlain b := by
  rcases Nat.lt_or_ge c.toNat 0x80 with hc | hc
  · rw [charBytes_one hc, List.mem_singleton] at hb
    have hn : b.toNat = c.toNat := by
      rw [hb, UInt8.toNat_ofNat']
      omega
    refine ⟨by omega, ?_, ?_⟩
    · rintro rfl
      exact h22 (Char.toNat_inj.mp hn.symm)
    · rintro rfl
      exact h5c (Char.toNat_inj.mp hn.symm)
  · have hl := le_of_mem_charBytes hc hb
    refine ⟨by omega, ?_, ?_⟩
    · rintro rfl
      exact absurd hl (by decide)
    · rintro rfl
      exact absurd hl (by decide)

/-- A short escape is two bytes, of which the second says what the escape stands for. -/
theorem shortEscape?_of_mem {e c : Char} (h : (e, c) ∈ shortEscapes) :
    ∃ b d, charBytes e = [b] ∧ b ≠ 0x75 ∧ shortEscape? b = some d ∧ charBytes c = [d] := by
  simp only [shortEscapes, List.mem_cons, Prod.mk.injEq, List.not_mem_nil, or_false] at h
  rcases h with ⟨rfl, rfl⟩ | ⟨rfl, rfl⟩ | ⟨rfl, rfl⟩ | ⟨rfl, rfl⟩ | ⟨rfl, rfl⟩ | ⟨rfl, rfl⟩ | ⟨rfl, rfl⟩ |
    ⟨rfl, rfl⟩ <;> exact ⟨_, _, rfl, by decide, rfl, rfl⟩

theorem hexValue?_ascii : ∀ k < 128, hexValue? (.ofNat k) = Text.hexValue? (Char.ofNat k) := by
  decide

theorem toNat_lt_of_hexValue? {c : Char} {n : Nat} (h : Text.hexValue? c = some n) : c.toNat < 128 := by
  have bound {d : Char} (hd : d.toNat < 128) (hc : c ≤ d) : c.toNat < 128 :=
    Nat.lt_of_le_of_lt (UInt32.le_iff_toNat_le.mp hc) hd
  unfold Text.hexValue? at h
  simp only [Bool.and_eq_true, decide_eq_true_eq] at h
  split_ifs at h with h1 h2 h3
  · exact bound (by decide) h1.2
  · exact bound (by decide) h2.2
  · exact bound (by decide) h3.2

theorem hexValue?_byte {c : Char} {n : Nat} (h : Text.hexValue? c = some n) :
    charBytes c = [.ofNat c.toNat] ∧ hexValue? (.ofNat c.toNat) = some n := by
  have hc := toNat_lt_of_hexValue? h
  rw [hexValue?_ascii _ hc, Char.ofNat_toNat]
  exact ⟨charBytes_one hc, h⟩

theorem hexFour?_code {ds : List Char} {n : Nat} (h : Code ds n) :
    ∃ b₁ b₂ b₃ b₄, utf8 ds = [b₁, b₂, b₃, b₄] ∧ hexFour? b₁ b₂ b₃ b₄ = some n := by
  obtain @⟨h₁, h₂, h₃, h₄, a, b, c, d, v₁, v₂, v₃, v₄⟩ := h
  obtain ⟨e₁, v₁⟩ := hexValue?_byte v₁
  obtain ⟨e₂, v₂⟩ := hexValue?_byte v₂
  obtain ⟨e₃, v₃⟩ := hexValue?_byte v₃
  obtain ⟨e₄, v₄⟩ := hexValue?_byte v₄
  refine ⟨.ofNat h₁.toNat, .ofNat h₂.toNat, .ofNat h₃.toNat, .ofNat h₄.toNat, ?_, ?_⟩
  · rw [utf8_cons, utf8_cons, utf8_cons, utf8_cons, e₁, e₂, e₃, e₄]
    rfl
  · simp [hexFour?, v₁, v₂, v₃, v₄]

theorem stringBytes_quoted {s t : List Char} (h : Quoted s t) (rest : List UInt8) :
    stringBytes (utf8 t ++ 0x22 :: rest) = .ok (utf8 s, rest) := by
  induction h with
  | nil =>
    rw [utf8_nil, List.nil_append, stringBytes.eq_def]
    rfl
  | plain h20 hq hb _ ih =>
    rw [utf8_cons, utf8_cons, List.append_assoc]
    exact stringBytes_plains (fun b => isPlain_of_mem_charBytes h20 hq hb) ih
  | short he _ ih =>
    obtain ⟨b, d, hb, hu, hd, hc⟩ := shortEscape?_of_mem he
    rw [utf8_cons, utf8_cons, utf8_cons, hb, hc]
    exact stringBytes_short hu hd ih
  | code hc hn _ ih =>
    obtain ⟨b₁, b₂, b₃, b₄, hds, hv⟩ := hexFour?_code hc
    rw [utf8_cons, utf8_cons, utf8_append, hds, utf8_cons]
    exact stringBytes_code hv hn ih
  | pair hc hn hn' he hm hm' _ ih =>
    obtain ⟨b₁, b₂, b₃, b₄, hds, hv⟩ := hexFour?_code hc
    obtain ⟨c₁, c₂, c₃, c₄, hes, hw⟩ := hexFour?_code he
    rw [utf8_cons, utf8_cons, utf8_append, hds, utf8_cons, utf8_cons, utf8_append, hes, utf8_cons]
    exact stringBytes_pair hv ⟨hn, hn'⟩ hw ⟨hm, hm'⟩ ih

/-- A text is read from every way of writing it, up to the closing quote. -/
theorem readString_quoted {s : String} {t : List Char} (h : Quoted s.toList t) (rest : List UInt8) :
    readString (utf8 t ++ 0x22 :: rest) = .ok (s, rest) := by
  unfold readString
  rw [stringBytes_quoted h]
  simp only [bind, Except.bind, ofUtf8?_utf8, String.ofList_toList]
  rfl

theorem skipString_quoted {s t : List Char} (h : Quoted s t) (rest : List UInt8) :
    skipString (utf8 t ++ 0x22 :: rest) = .ok rest := by
  induction h with
  | nil =>
    rw [utf8_nil, List.nil_append, skipString.eq_def]
    rfl
  | plain h20 hq hb _ ih =>
    rw [utf8_cons, List.append_assoc, skipString_plains fun b => isPlain_of_mem_charBytes h20 hq hb]
    exact ih
  | short he _ ih =>
    obtain ⟨b, d, hb, hu, hd, -⟩ := shortEscape?_of_mem he
    rw [utf8_cons, utf8_cons, hb]
    exact (skipString_short hu hd _).trans ih
  | code hc _ _ ih =>
    obtain ⟨b₁, b₂, b₃, b₄, hds, hv⟩ := hexFour?_code hc
    rw [utf8_cons, utf8_cons, utf8_append, hds]
    exact (skipString_code hv _).trans ih
  | pair hc _ _ he _ _ _ ih =>
    obtain ⟨b₁, b₂, b₃, b₄, hds, hv⟩ := hexFour?_code hc
    obtain ⟨c₁, c₂, c₃, c₄, hes, hw⟩ := hexFour?_code he
    rw [utf8_cons, utf8_cons, utf8_append, hds, utf8_cons, utf8_cons, utf8_append, hes]
    exact ((skipString_code hv _).trans (skipString_code hw _)).trans ih

theorem hexValue?_digitChar_control : ∀ n < 0x20, Text.hexValue? '0' = some 0 ∧
    Text.hexValue? (Nat.digitChar (n / 16)) = some (n / 16) ∧
    Text.hexValue? (Nat.digitChar (n % 16)) = some (n % 16) := by
  decide

/-- What is printed for a character stands for it. -/
theorem Quoted.escapeChar {s t : List Char} (c : Char) (h : Quoted s t) :
    Quoted (c :: s) (Json.escapeChar c ++ t) := by
  unfold Json.escapeChar
  simp only [beq_iff_eq]
  split_ifs with hq hb hc hn hr ht h8 hf
  · subst hq
    exact .short (e := '"') (by decide) h
  · subst hb
    exact .short (e := '\\') (by decide) h
  · subst hn
    exact .short (e := 'n') (by decide) h
  · subst hr
    exact .short (e := 'r') (by decide) h
  · subst ht
    exact .short (e := 't') (by decide) h
  · have hc' : c = '\x08' := Char.toNat_inj.mp h8
    subst hc'
    exact .short (e := 'b') (by decide) h
  · have hc' : c = '\x0c' := Char.toNat_inj.mp hf
    subst hc'
    exact .short (e := 'f') (by decide) h
  · obtain ⟨h0, h1, h2⟩ := hexValue?_digitChar_control c.toNat hc
    have hcode := Code.mk h0 h0 h1 h2
    have hnum : ((0 * 16 + 0) * 16 + c.toNat / 16) * 16 + c.toNat % 16 = c.toNat := by omega
    rw [hnum] at hcode
    have hq := Quoted.code hcode (.inl (by omega)) h
    rwa [Char.ofNat_toNat] at hq
  · exact .plain (by omega) hq hb h

theorem quoted_escaped (cs : List Char) : Quoted cs (cs.flatMap escapeChar) := by
  induction cs with
  | nil => exact .nil
  | cons c cs ih => exact ih.escapeChar c

/-- A text reads back from its escapes, up to the closing quote. -/
theorem readString_escaped (s : String) (rest : List UInt8) :
    readString (utf8 (s.toList.flatMap escapeChar) ++ 0x22 :: rest) = .ok (s, rest) :=
  readString_quoted (quoted_escaped _) rest

end LogDesk.Json
