import LogDesk.Log.Detail
import LogDesk.Proofs.Markup

/-! The detail of a record: its markup lays out as the record on one line (`plainText_detail`), its tags
are those of a fixed frame whatever the fields hold, and details of records that read differently are
different (`detail_kept`). -/

namespace LogDesk

namespace Markup

def frame (texts : List (List Char)) : List Char :=
  "<pre class=\"text-monospace\"><code>".toList ++
    texts.flatMap (fun t => "<span class=\"mx-1\">".toList ++ t ++ "</span>".toList) ++
    "</code></pre>".toList

theorem dropTags_span {t : List Char} (h : '<' ∉ t) (rest : List Char) :
    dropTags none ("<span class=\"mx-1\">".toList ++ t ++ "</span>".toList ++ rest) =
      t ++ ' ' :: dropTags none rest := by
  have htag : "<span class=\"mx-1\">".toList = '<' :: ("span class=\"mx-1\"".toList ++ ['>']) := by decide
  rw [List.append_assoc, List.append_assoc, dropTags_tag htag (by simp) (by simp), dropTags_text h,
    dropTags_close]

/-- Laid out, a frame leaves its texts with a space behind each. -/
theorem dropTags_frame {texts : List (List Char)} (h : ∀ t ∈ texts, '<' ∉ t) :
    dropTags none (frame texts) = texts.flatMap (· ++ [' ']) := by
  have hpre : "<pre class=\"text-monospace\">".toList =
      '<' :: ("pre class=\"text-monospace\"".toList ++ ['>']) := by decide
  have hcode : "<code>".toList = '<' :: ("code".toList ++ ['>']) := by decide
  have hboth : "<pre class=\"text-monospace\"><code>".toList =
      "<pre class=\"text-monospace\">".toList ++ "<code>".toList := by decide
  unfold frame
  rw [hboth, List.append_assoc, List.append_assoc, dropTags_tag hpre (by simp) (by simp),
    dropTags_tag hcode (by simp) (by simp)]
  induction texts with
  | nil => decide
  | cons t texts ih =>
    rw [List.flatMap_cons, List.append_assoc, dropTags_span (h t List.mem_cons_self),
      ih fun x hx => h x (List.mem_cons_of_mem t hx)]
    simp

theorem sound_frame {texts : List (List Char)} (h : ∀ t ∈ texts, Sound t) : Sound (frame texts) := by
  have hspans : Sound (texts.flatMap fun t => "<span class=\"mx-1\">".toList ++ t ++ "</span>".toList) := by
    induction texts with
    | nil => exact sound_plain (by simp)
    | cons t texts ih =>
      rw [List.flatMap_cons]
      refine Sound.append (Sound.append (Sound.append ?_ (h t List.mem_cons_self)) ?_)
        (ih fun x hx => h x (List.mem_cons_of_mem t hx))
      · exact sound_plain (by simp)
      · exact sound_plain (by simp)
  refine Sound.append (Sound.append ?_ hspans) ?_
  · exact sound_plain (by simp)
  · exact sound_plain (by simp)

/-- A text goes up to the first of a character that it does not hold. -/
theorem append_cons_inj {c : Char} {t t' rest rest' : List Char} (h : c ∉ t) (h' : c ∉ t')
    (heq : t ++ c :: rest = t' ++ c :: rest') : t = t' ∧ rest = rest' := by
  rcases List.append_eq_append_iff.mp heq with ⟨gap, ht, hr⟩ | ⟨gap, ht, hr⟩
  · cases gap with
    | nil =>
      rw [List.append_nil] at ht
      exact ⟨ht.symm, (List.cons.inj hr).2⟩
    | cons d gap =>
      obtain ⟨rfl, -⟩ := List.cons.inj hr
      exact absurd (ht ▸ by simp) h'
  · cases gap with
    | nil =>
      rw [List.append_nil] at ht
      exact ⟨ht, (List.cons.inj hr).2.symm⟩
    | cons d gap =>
      obtain ⟨rfl, -⟩ := List.cons.inj hr
      exact absurd (ht ▸ by simp) h

/-- The texts can be read off a frame, where no tag begins in them. -/
theorem frame_injective {texts texts' : List (List Char)} (h : ∀ t ∈ texts, '<' ∉ t)
    (h' : ∀ t ∈ texts', '<' ∉ t) (heq : frame texts = frame texts') : texts = texts' := by
  have hclose : "</span>".toList = '<' :: "/span>".toList := rfl
  unfold frame at heq
  simp only [List.append_assoc, hclose] at heq
  replace heq := List.append_cancel_left heq
  induction texts generalizing texts' with
  | nil =>
    cases texts' with
    | nil => rfl
    | cons t' texts' => simp at heq
  | cons t texts ih =>
    cases texts' with
    | nil => simp at heq
    | cons t' texts' =>
      simp only [List.flatMap_cons, List.append_assoc, List.cons_append] at heq
      -- The first text goes up to the tag that closes its span.
      obtain ⟨rfl, hrest⟩ := append_cons_inj (h t List.mem_cons_self) (h' t' List.mem_cons_self)
        (List.append_cancel_left heq)
      rw [ih (fun x hx => h x (List.mem_cons_of_mem t hx)) (fun x hx => h' x (List.mem_cons_of_mem t hx))
        (List.append_cancel_left hrest)]

end Markup

namespace Record

open Markup (frame)

def line (r : Record) : List Char :=
  r.timestamp.toList ++ ' ' :: Text.padRight levelWidth r.level.toList ++ " [".toList ++
    r.loggerName.toList ++ "] (".toList ++ r.threadName.toList ++ ") ".toList ++ r.message.toList ++
    match r.stackTrace with
    | none | some "" => []
    | some trace => ' ' :: trace.toList

/-- There is a trace just where it is not empty. -/
theorem trace?_eq (r : Record) :
    r.trace? = if r.stackTrace.getD "" = "" then none else some (r.stackTrace.getD "") := by
  unfold trace?
  cases r.stackTrace with
  | none => rfl
  | some trace => by_cases h : trace = "" <;> simp [h]

theorem detailMarkup_eq (r : Record) : r.detailMarkup = frame (r.detailFields.map Markup.escape) := by
  unfold detailMarkup frame
  rw [List.flatMap_map]
  rfl

theorem detail_frame (r : Record) : r.detail.toList = frame (r.detailFields.map Markup.escape) := by
  rw [detail, String.toList_ofList, detailMarkup_eq]

theorem fields_line (r : Record) : r.detailFields.flatMap (· ++ [' ']) = r.line ++ [' '] := by
  unfold detailFields line
  rw [trace?_eq]
  cases r.stackTrace with
  | none => simp
  | some trace => by_cases h : trace = "" <;> simp [h]

theorem no_tag_in_fields (r : Record) : ∀ t ∈ r.detailFields.map Markup.escape, '<' ∉ t ∧ '>' ∉ t := by
  intro t ht
  obtain ⟨field, -, rfl⟩ := List.mem_map.mp ht
  exact ⟨Markup.not_mem_escape (.inl rfl) field, Markup.not_mem_escape (.inr rfl) field⟩

/-- The plain text of a detail is the record on one line, without the white space at its end. -/
theorem plainText_detail (r : Record) :
    Markup.plainText r.detail = String.ofList (Text.trimEnd r.line) := by
  have hfields : (r.detailFields.map Markup.escape).flatMap (· ++ [' ']) =
      Markup.escape (r.line ++ [' ']) := by
    rw [← fields_line]
    induction r.detailFields with
    | nil => rfl
    | cons t ts ih =>
      rw [List.map_cons, List.flatMap_cons, List.flatMap_cons, ih, Markup.escape_append,
        Markup.escape_append]
      rfl
  unfold Markup.plainText Markup.plain
  rw [detail_frame, Markup.dropTags_frame fun t ht => (r.no_tag_in_fields t ht).1,
    hfields, Markup.trimEnd_escape, Markup.unescape_escape, Text.trimEnd_blank_end (by decide)]

structure Alike (r r' : Record) : Prop where
  timestamp : r.timestamp = r'.timestamp
  level : Text.padRight levelWidth r.level.toList = Text.padRight levelWidth r'.level.toList
  loggerName : r.loggerName = r'.loggerName
  threadName : r.threadName = r'.threadName
  message : r.message = r'.message
  /-- No trace is as good as an empty one. -/
  trace : r.stackTrace.getD "" = r'.stackTrace.getD ""

theorem fields_eq_iff {r r' : Record} : r.detailFields = r'.detailFields ↔ r.Alike r' := by
  have htrace : (r.trace?.map String.toList).toList = (r'.trace?.map String.toList).toList ↔
      r.stackTrace.getD "" = r'.stackTrace.getD "" := by
    rw [trace?_eq, trace?_eq]
    generalize r.stackTrace.getD "" = t, r'.stackTrace.getD "" = t'
    by_cases h : t = "" <;> by_cases h' : t' = "" <;> simp [h, h', String.toList_inj, eq_comm]
  have hall : r.detailFields = r'.detailFields ↔ r.timestamp = r'.timestamp ∧
      Text.padRight levelWidth r.level.toList = Text.padRight levelWidth r'.level.toList ∧
      r.loggerName = r'.loggerName ∧ r.threadName = r'.threadName ∧ r.message = r'.message ∧
      r.stackTrace.getD "" = r'.stackTrace.getD "" := by
    rw [← htrace]
    simp [detailFields, String.toList_inj]
  rw [hall]
  constructor
  · rintro ⟨h1, h2, h3, h4, h5, h6⟩
    exact ⟨h1, h2, h3, h4, h5, h6⟩
  · rintro ⟨h1, h2, h3, h4, h5, h6⟩
    exact ⟨h1, h2, h3, h4, h5, h6⟩

theorem detail_eq_iff {r r' : Record} : r.detail = r'.detail ↔ r.Alike r' := by
  rw [← fields_eq_iff]
  constructor
  · intro h
    have hl := congrArg String.toList h
    rw [detail_frame, detail_frame] at hl
    have ht := Markup.frame_injective (fun t ht => (r.no_tag_in_fields t ht).1)
      (fun t ht => (r'.no_tag_in_fields t ht).1) hl
    exact List.map_injective_iff.mpr (fun _ _ => Markup.escape_injective) ht
  · intro h
    apply String.toList_injective
    rw [detail_frame, detail_frame, h]

/-- The tags of a detail are those of a frame with a span for each text, and in the texts every ampersand
begins an entity. -/
structure Framed (r : Record) : Prop where
  tags : ∃ texts, r.detail.toList = frame texts ∧
    texts.length = (if r.stackTrace.getD "" = "" then 5 else 6) ∧ ∀ t ∈ texts, '<' ∉ t ∧ '>' ∉ t
  entities : Markup.Sound r.detail.toList

theorem framed (r : Record) : r.Framed := by
  constructor
  · refine ⟨_, r.detail_frame, ?_, r.no_tag_in_fields⟩
    rw [List.length_map, detailFields, trace?_eq]
    split <;> rfl
  · rw [detail_frame]
    refine Markup.sound_frame fun t ht => ?_
    obtain ⟨field, -, rfl⟩ := List.mem_map.mp ht
    exact Markup.sound_escape field

/-- No field puts markup into a detail, and no two records that read differently have the same. -/
theorem detail_kept (r r' : Record) : r.Framed ∧ (r.detail = r'.detail ↔ r.Alike r') :=
  ⟨r.framed, detail_eq_iff⟩

end Record

end LogDesk
