import LogDesk.Proofs.Text.Utf8
import LogDesk.Url.Segments

/-! Percent-encoding loses nothing: where the percent sign itself is encoded, the bytes that an encoded
text stands for are those of the text: `decode_encode`. -/

namespace LogDesk.Url

theorem hexValue?_upperHexDigit : ∀ n < 16, Text.hexValue? (Text.upperHexDigit n) = some n := by decide

theorem decode_percentByte (b : UInt8) (rest : List Char) :
    decode (percentByte b ++ rest) = b :: decode rest := by
  have hb : b.toNat < 256 := b.toNat_lt
  have hhigh := hexValue?_upperHexDigit (b.toNat / 16) (by omega)
  have hlow := hexValue?_upperHexDigit (b.toNat % 16) (by omega)
  have hsum : 16 * (b.toNat / 16) + b.toNat % 16 = b.toNat := by omega
  simp [percentByte, decode, hhigh, hlow, hsum]

theorem decode_percentBytes (bs : List UInt8) (rest : List Char) :
    decode (bs.flatMap percentByte ++ rest) = bs ++ decode rest := by
  induction bs with
  | nil => rfl
  | cons b bs ih => rw [List.flatMap_cons, List.append_assoc, decode_percentByte, ih, List.cons_append]

theorem decode_plain {c : Char} (h : c ≠ '%') (rest : List Char) :
    decode (c :: rest) = Text.charBytes c ++ decode rest := by
  rw [decode.eq_def]
  split
  next heq => cases heq
  next heq =>
    cases heq
    exact absurd rfl h
  next heq =>
    cases heq
    rfl

variable {set : Char → Bool}

/-- An encoded text stands for the bytes of the text. -/
theorem decode_encode (h : set '%' = true) (cs : List Char) : decode (encode set cs) = Text.utf8 cs := by
  induction cs with
  | nil => rfl
  | cons c cs ih =>
    change decode (encodeChar set c ++ encode set cs) = _
    rw [Text.utf8_cons, ← ih]
    unfold encodeChar
    split
    · exact decode_percentBytes _ _
    next hc =>
      have hne : c ≠ '%' := by
        rintro rfl
        exact hc h
      exact decode_plain hne _

def percentChars : List Char := "%0123456789ABCDEF".toList

theorem upperHexDigit_mem : ∀ n < 16, Text.upperHexDigit n ∈ percentChars := by decide

theorem mem_percentByte {b : UInt8} {c : Char} (h : c ∈ percentByte b) : c ∈ percentChars := by
  have hb : b.toNat < 256 := b.toNat_lt
  simp only [percentByte, List.mem_cons, List.not_mem_nil, or_false] at h
  rcases h with rfl | rfl | rfl
  · decide
  · exact upperHexDigit_mem _ (by omega)
  · exact upperHexDigit_mem _ (by omega)

/-- What stands in an encoded text may stand there as it is, or has to do with an encoded byte. -/
theorem mem_encode {cs : List Char} {c : Char} (h : c ∈ encode set cs) :
    set c = false ∨ c ∈ percentChars := by
  obtain ⟨d, -, hd⟩ := List.mem_flatMap.mp h
  unfold encodeChar at hd
  split at hd
  · obtain ⟨b, -, hb⟩ := List.mem_flatMap.mp hd
    exact .inr (mem_percentByte hb)
  next hset =>
    rw [List.mem_singleton.mp hd]
    exact .inl (by simpa using hset)

/-- A text that holds nothing of a set is its own encoding. -/
theorem encode_self {cs : List Char} (h : ∀ c ∈ cs, set c = false) : encode set cs = cs := by
  induction cs with
  | nil => rfl
  | cons c cs ih =>
    have hc : encodeChar set c = [c] := by simp [encodeChar, h c List.mem_cons_self]
    change encodeChar set c ++ encode set cs = _
    rw [hc, ih fun d hd => h d (List.mem_cons_of_mem c hd), List.singleton_append]

theorem eq_of_toLower {c d : Char} (h : c.toLower = d) :
    c = d ∨ 65 ≤ c.toNat ∧ c.toNat ≤ 90 ∧ c.toNat + 32 = d.toNat := by
  subst h
  unfold Char.toLower
  split
  next hc =>
    have h1 : 65 ≤ c.val.toNat := UInt32.le_iff_toNat_le.mp hc.1
    have h2 : c.val.toNat ≤ 90 := UInt32.le_iff_toNat_le.mp hc.2
    have hs : (c.val + ('a'.val - 'A'.val)).toNat = c.val.toNat + 32 := by
      have hd : ('a'.val - 'A'.val).toNat = 32 := by decide
      rw [UInt32.toNat_add, hd]
      omega
    exact .inr ⟨h1, h2, hs.symm⟩
  next => exact .inl rfl

/-- A character below the letters is the lower case of no other. -/
theorem eq_of_toLower_low {c d : Char} (hd : d.toNat < 97) (h : c.toLower = d) : c = d := by
  rcases eq_of_toLower h with hc | ⟨h1, -, hs⟩
  · exact hc
  · omega

theorem eq_of_toLower_e {c : Char} (h : c.toLower = 'e') : c = 'e' ∨ c = 'E' := by
  refine (eq_of_toLower h).imp_right fun hc => ?_
  have he : c.toNat = 69 := Nat.add_right_cancel hc.2.2
  rw [← Char.ofNat_toNat c, he]

theorem decode_singleDot {cs : List Char} (h : isSingleDot cs = true) (rest : List Char) :
    decode (cs ++ rest) = 0x2E :: decode rest := by
  have hcs : lowerAscii cs = ['.'] ∨ lowerAscii cs = ['%', '2', 'e'] := by simpa [isSingleDot] using h
  rcases hcs with hcs | hcs
  · obtain ⟨a, cs, rfl, ha, hcs⟩ := List.map_eq_cons_iff.mp hcs
    obtain rfl := List.map_eq_nil_iff.mp hcs
    obtain rfl := eq_of_toLower_low (by decide) ha
    exact decode_plain (by decide) rest
  · obtain ⟨a, cs, rfl, ha, hcs⟩ := List.map_eq_cons_iff.mp hcs
    obtain ⟨b, cs, rfl, hb, hcs⟩ := List.map_eq_cons_iff.mp hcs
    obtain ⟨c, cs, rfl, hc, hcs⟩ := List.map_eq_cons_iff.mp hcs
    obtain rfl := List.map_eq_nil_iff.mp hcs
    obtain rfl := eq_of_toLower_low (by decide) ha
    obtain rfl := eq_of_toLower_low (by decide) hb
    rcases eq_of_toLower_e hc with rfl | rfl <;> rfl

/-- Two dots are one after another, each in its own writing. -/
theorem isDoubleDot_split {cs : List Char} (h : isDoubleDot cs = true) :
    ∃ as bs, cs = as ++ bs ∧ isSingleDot as = true ∧ isSingleDot bs = true := by
  have split {s t : List Char} (hcs : lowerAscii cs = s ++ t)
      (hs : s ∈ [".".toList, "%2e".toList]) (ht : t ∈ [".".toList, "%2e".toList]) :
      ∃ as bs, cs = as ++ bs ∧ isSingleDot as = true ∧ isSingleDot bs = true := by
    obtain ⟨as, bs, rfl, rfl, rfl⟩ := List.map_eq_append_iff.mp hcs
    exact ⟨as, bs, rfl, List.contains_iff_mem.mpr hs, List.contains_iff_mem.mpr ht⟩
  have hcs := List.contains_iff_mem.mp h
  simp only [List.mem_cons, List.not_mem_nil, or_false] at hcs
  rcases hcs with hcs | hcs | hcs | hcs
  · exact split (s := ".".toList) hcs (by decide) (by decide)
  · exact split (s := "%2e".toList) hcs (by decide) (by decide)
  · exact split (s := ".".toList) hcs (by decide) (by decide)
  · exact split (s := "%2e".toList) hcs (by decide) (by decide)

theorem decode_doubleDot {cs : List Char} (h : isDoubleDot cs = true) : decode cs = [0x2E, 0x2E] := by
  obtain ⟨as, bs, rfl, ha, hb⟩ := isDoubleDot_split h
  rw [decode_singleDot ha, ← List.append_nil bs, decode_singleDot hb]
  rfl

end LogDesk.Url
