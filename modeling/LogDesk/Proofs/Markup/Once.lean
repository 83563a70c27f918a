import LogDesk.Proofs.Markup

/-! Each entity once. What shows of a text without tags is what one pass from the left reads in it, the white
space at its end apart. What is written for a text is written for each character by itself, and one pass
reads it back (`entities_once`). -/

namespace LogDesk.Markup

/-- A text, and what one pass from the left reads in it: an entity as its character, and a character at which
no entity begins as it is. -/
inductive Decoded : List Char → List Char → Prop where
  | nil : Decoded [] []
  | entity {e : Entity} {cs text : List Char} (he : e ∈ entities) (rest : Decoded cs text) :
      Decoded (e.text ++ cs) (e.char :: text)
  | plain {c : Char} {cs text : List Char} (hc : ∀ e ∈ entities, ¬e.text <+: c :: cs)
      (rest : Decoded cs text) : Decoded (c :: cs) (c :: text)

theorem entityAt?_eq_none {cs : List Char} :
    entityAt? entities cs = none ↔ ∀ e ∈ entities, ¬e.text <+: cs := by
  simp [entityAt?]

theorem decoded_unescape (cs : List Char) : Decoded cs (unescape cs) := by
  induction cs using decode_induction entities_ne_nil with
  | nil => exact .nil
  | found e rest he ih =>
    have hm := (entityAt?_some he).1
    rw [unescape_entity hm]
    exact .entity hm ih
  | passed c cs hc ih =>
    rw [unescape_passed hc]
    exact .plain (entityAt?_eq_none.mp hc) ih

/-- One pass reads one thing only. -/
theorem Decoded.unescape_eq {cs text : List Char} (h : Decoded cs text) : unescape cs = text := by
  induction h with
  | nil => rfl
  | entity he _ ih => rw [unescape_entity he, ih]
  | plain hc _ ih => rw [unescape_passed (entityAt?_eq_none.mpr hc), ih]

theorem decoded_iff {cs text : List Char} : Decoded cs text ↔ unescape cs = text := by
  constructor
  · exact Decoded.unescape_eq
  · rintro rfl
    exact decoded_unescape cs

theorem plainText_eq {html : String} (h : '<' ∉ html.toList) :
    plainText html = String.ofList (unescape (Text.trimEnd html.toList)) := by
  have hdrop := dropTags_text h []
  rw [List.append_nil, dropTags, List.append_nil] at hdrop
  rw [plainText, plain, hdrop]

theorem plainText_decoded {html : String} (h : '<' ∉ html.toList) (text : List Char) :
    plainText html = String.ofList text ↔ ∃ kept, Text.Trimmed html.toList kept ∧ Decoded kept text := by
  simp only [Text.trimmed_iff, decoded_iff, exists_eq_left', plainText_eq h, String.ofList_inj]

structure EscapedOnce (cs : List Char) : Prop where
  each : escape cs = cs.flatMap escapeChar
  append : ∀ ds, escape (cs ++ ds) = escape cs ++ escape ds
  /-- After some of the replacements the characters of these stand as their entities and all others as they
  are, so that no later one takes up what has been put in. -/
  steps : ∀ done later, escapeOrder = done ++ later →
    encodeAll done cs = cs.flatMap (encodeChar done) ∧ escape cs = encodeAll later (encodeAll done cs)
  reads : Decoded (escape cs) cs

theorem escapedOnce (cs : List Char) : EscapedOnce cs where
  each := escape_eq cs
  append ds := escape_append cs ds
  steps done later h := by
    have horder := escapeOrder_pairwise
    rw [h, List.pairwise_append] at horder
    refine ⟨encodeAll_eq horder.1 cs, ?_⟩
    rw [escape_encodeAll, h]
    exact List.foldl_append
  reads := decoded_iff.mpr (unescape_escape cs)

/-- Each entity is decoded once, in any text without tags, and each character is escaped once. -/
theorem entities_once (html : String) (h : '<' ∉ html.toList) (cs : List Char) :
    (∀ text, plainText html = String.ofList text ↔ ∃ kept, Text.Trimmed html.toList kept ∧ Decoded kept text) ∧
      EscapedOnce cs :=
  ⟨plainText_decoded h, escapedOnce cs⟩

/-- Escaped entities, whole ones and halves. -/
def nested : String := "R&amp;amp;D &amp;lt;b&gt; &#39&#39; &lt;&quot \t"

/-- An escaped entity comes out as an entity, and half of one as it is. -/
theorem entities_once_nested :
    '<' ∉ nested.toList ∧
      (∃ kept, Text.Trimmed nested.toList kept ∧ Decoded kept "R&amp;D &lt;b> &#39' <&quot".toList) ∧
      EscapedOnce nested.toList := by
  have h : '<' ∉ nested.toList := by decide
  obtain ⟨hplain, hescaped⟩ := entities_once nested h nested.toList
  have hp : plainText nested = String.ofList "R&amp;D &lt;b> &#39' <&quot".toList := by decide +kernel
  exact ⟨h, (hplain _).mp hp, hescaped⟩

end LogDesk.Markup
