import LogDesk.Text.Blank
import Mathlib.Tactic

/-! Words hold no blanks, and a text without blanks is its own trim. A text spells the words that stand
in it between blanks: `spells_iff`. -/

namespace LogDesk.Text

def IsWord (w : List Char) : Prop := w ≠ [] ∧ ∀ c ∈ w, isBlank c = false

instance (w : List Char) : Decidable (IsWord w) :=
  decidable_of_iff (w ≠ [] ∧ w.all (!isBlank ·) = true) (by simp [IsWord])

theorem cut_blank {c : Char} (h : isBlank c = true) (cs : List Char) :
    cut (c :: cs) = ([], words cs) := by
  simp [cut, words, h]

theorem cut_solid {c : Char} (h : isBlank c = false) (cs : List Char) :
    cut (c :: cs) = (c :: (cut cs).1, (cut cs).2) := by
  simp [cut, h]

theorem mem_words {cs w : List Char} (h : w ∈ words cs) :
    w ∈ (cut cs).2 ∨ w = (cut cs).1 ∧ (cut cs).1 ≠ [] := by
  unfold words at h
  dsimp only at h
  split at h
  · exact .inl h
  next hne =>
    rcases List.mem_cons.mp h with rfl | h
    · exact .inr ⟨rfl, by simpa using hne⟩
    · exact .inl h

theorem cut_words (cs : List Char) :
    (∀ c ∈ (cut cs).1, isBlank c = false) ∧ ∀ w ∈ (cut cs).2, IsWord w := by
  induction cs with
  | nil => simp [cut]
  | cons c cs ih =>
    obtain ⟨hword, hrest⟩ := ih
    cases hc : isBlank c with
    | true =>
      rw [cut_blank hc]
      refine ⟨by simp, ?_⟩
      intro w hw
      rcases mem_words hw with hw | ⟨rfl, hne⟩
      · exact hrest w hw
      · exact ⟨hne, hword⟩
    | false =>
      rw [cut_solid hc]
      refine ⟨?_, hrest⟩
      intro d hd
      rcases List.mem_cons.mp hd with rfl | hd
      · exact hc
      · exact hword d hd

theorem isWord_of_mem_words {cs w : List Char} (h : w ∈ words cs) : IsWord w := by
  obtain ⟨hword, hrest⟩ := cut_words cs
  rcases mem_words h with hw | ⟨rfl, hne⟩
  · exact hrest w hw
  · exact ⟨hne, hword⟩

theorem trimEnd_solid {cs : List Char} (h : ∀ c ∈ cs, isBlank c = false) : trimEnd cs = cs := by
  induction cs with
  | nil => rfl
  | cons c cs ih =>
    rw [trimEnd, ih fun d hd => h d (List.mem_cons_of_mem _ hd)]
    cases cs with
    | nil => simp [h c List.mem_cons_self]
    | cons d ds => rfl

theorem trim_solid {cs : List Char} (h : ∀ c ∈ cs, isBlank c = false) : trim cs = cs := by
  have hs : trimStart cs = cs := by
    cases cs with
    | nil => rfl
    | cons c cs => simp [trimStart, h c List.mem_cons_self]
  rw [trim, hs, trimEnd_solid h]

/-- A text is made of some words, in order, with blanks between them, and maybe around them. -/
inductive Spells : (text : List Char) → (ws : List (List Char)) → Prop where
  | blank {gap : List Char} (blank : ∀ c ∈ gap, isBlank c = true) : Spells gap []
  | word {gap w rest : List Char} {ws : List (List Char)} (blank : ∀ c ∈ gap, isBlank c = true)
    (word : IsWord w) (apart : ∀ c ∈ rest.head?, isBlank c = true) (spells : Spells rest ws) :
    Spells (gap ++ w ++ rest) (w :: ws)

theorem words_cons_blank {c : Char} (h : isBlank c = true) (cs : List Char) :
    words (c :: cs) = words cs := by
  simp [words, cut_blank h]

theorem words_gap {gap : List Char} (h : ∀ c ∈ gap, isBlank c = true) (cs : List Char) :
    words (gap ++ cs) = words cs := by
  induction gap with
  | nil => rfl
  | cons c gap ih =>
    rw [List.cons_append, words_cons_blank (h c List.mem_cons_self)]
    exact ih fun d hd => h d (List.mem_cons_of_mem c hd)

theorem cut_apart {cs : List Char} (h : ∀ c ∈ cs.head?, isBlank c = true) : cut cs = ([], words cs) := by
  cases cs with
  | nil => rfl
  | cons c cs =>
    have hc : isBlank c = true := h c rfl
    rw [cut_blank hc, words_cons_blank hc]

/-- A word is read whole where no other character follows it at once. -/
theorem words_word {w rest : List Char} (hw : IsWord w) (h : ∀ c ∈ rest.head?, isBlank c = true) :
    words (w ++ rest) = w :: words rest := by
  have hcut (w : List Char) (hw : ∀ c ∈ w, isBlank c = false) : cut (w ++ rest) = (w, words rest) := by
    induction w with
    | nil => exact cut_apart h
    | cons c w ih =>
      rw [List.cons_append, cut_solid (hw c List.mem_cons_self),
        ih fun d hd => hw d (List.mem_cons_of_mem c hd)]
  rw [words, hcut w hw.2]
  simp [hw.1]

theorem words_of_spells {text : List Char} {ws : List (List Char)} (h : Spells text ws) :
    words text = ws := by
  induction h with
  | blank hb =>
    have hw := words_gap hb []
    rw [List.append_nil] at hw
    exact hw
  | word hb hw ha _ ih => rw [List.append_assoc, words_gap hb, words_word hw ha, ih]

theorem Spells.cons {text : List Char} {ws : List (List Char)} (h : Spells text ws) {c : Char}
    (hc : isBlank c = true) : Spells (c :: text) ws := by
  cases h with
  | blank hb => exact .blank (List.forall_mem_cons.mpr ⟨hc, hb⟩)
  | @word gap w rest ws hb hw ha hs =>
    have hgap : ∀ d ∈ c :: gap, isBlank d = true := List.forall_mem_cons.mpr ⟨hc, hb⟩
    have hword := Spells.word hgap hw ha hs
    exact hword

theorem Spells.of_cut {text rest : List Char} (ht : text = (cut text).1 ++ rest)
    (ha : ∀ c ∈ rest.head?, isBlank c = true) (hs : Spells rest (cut text).2) :
    Spells text (words text) := by
  unfold words
  dsimp only
  split
  next he =>
    rw [List.isEmpty_iff.mp he, List.nil_append] at ht
    rw [ht]
    exact ht ▸ hs
  next hne =>
    have hw : IsWord (cut text).1 := ⟨by simpa using hne, (cut_words text).1⟩
    have hgap : ∀ c ∈ ([] : List Char), isBlank c = true := by simp
    have hword := Spells.word hgap hw ha hs
    rwa [List.nil_append, ← ht] at hword

theorem spells_words (text : List Char) : Spells text (words text) := by
  have hcut : ∃ rest, text = (cut text).1 ++ rest ∧ (∀ c ∈ rest.head?, isBlank c = true) ∧
      Spells rest (cut text).2 := by
    induction text with
    | nil => exact ⟨[], rfl, by simp, .blank (by simp)⟩
    | cons c text ih =>
      obtain ⟨rest, ht, ha, hs⟩ := ih
      cases hc : isBlank c with
      | true =>
        rw [cut_blank hc]
        exact ⟨c :: text, rfl, by simp [hc], (Spells.of_cut ht ha hs).cons hc⟩
      | false =>
        rw [cut_solid hc]
        exact ⟨rest, congrArg (c :: ·) ht, ha, hs⟩
  obtain ⟨rest, ht, ha, hs⟩ := hcut
  exact .of_cut ht ha hs

/-- The words of a text are those that it spells. -/
theorem spells_iff {text : List Char} {ws : List (List Char)} : Spells text ws ↔ words text = ws := by
  constructor
  · exact words_of_spells
  · rintro rfl
    exact spells_words text

theorem Spells.concat {text : List Char} {ws : List (List Char)} (h : Spells text ws) {c : Char}
    (hc : isBlank c = true) : Spells (text ++ [c]) ws := by
  induction h with
  | blank hb =>
    apply Spells.blank
    intro d hd
    rcases List.mem_append.mp hd with hd | hd
    · exact hb d hd
    · rwa [List.mem_singleton.mp hd]
  | @word gap w rest ws hb hw ha _ ih =>
    have ha' : ∀ d ∈ (rest ++ [c]).head?, isBlank d = true := by
      cases rest with
      | nil => simp [hc]
      | cons e rest => exact ha
    rw [List.append_assoc]
    exact .word hb hw ha' ih

theorem words_concat_blank {c : Char} (h : isBlank c = true) (cs : List Char) :
    words (cs ++ [c]) = words cs :=
  words_of_spells ((spells_words cs).concat h)

/-- Words that are joined are read as the same words. -/
theorem words_unwords {ws : List (List Char)} (h : ∀ w ∈ ws, IsWord w) : words (unwords ws) = ws := by
  induction ws with
  | nil => rfl
  | cons w ws ih =>
    have hw := h w List.mem_cons_self
    have ih := ih fun v hv => h v (List.mem_cons_of_mem w hv)
    cases ws with
    | nil =>
      have hword : words (w ++ []) = w :: words [] := words_word hw (by simp)
      rwa [List.append_nil] at hword
    | cons v ws =>
      rw [unwords, words_word hw (by simp [isBlank]), words_cons_blank (by decide), ih]
      simp

theorem unwords_append (ws : List (List Char)) {vs : List (List Char)} (h : vs ≠ []) :
    unwords (ws ++ [unwords vs]) = unwords (ws ++ vs) := by
  induction ws with
  | nil => rfl
  | cons w ws ih =>
    have join {us : List (List Char)} (hu : us ≠ []) : unwords (w :: us) = w ++ ' ' :: unwords us := by
      obtain ⟨u, us, rfl⟩ := List.exists_cons_of_ne_nil hu
      rfl
    rw [List.cons_append, List.cons_append, join (by simp), join (by simp [h]), ih]

end LogDesk.Text
