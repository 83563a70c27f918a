import LogDesk.Text.Blank
import Mathlib.Data.List.DropRight
import Mathlib.Tactic

/-! The white space at the end of a text: what stands behind it is gone, and what is put for each
character keeps it where it is. -/

namespace LogDesk.Text

theorem trimEnd_solid_end {c : Char} (h : isBlank c = false) (cs : List Char) :
    trimEnd (cs ++ [c]) = cs ++ [c] := by
  induction cs with
  | nil => simp [trimEnd, h]
  | cons d cs ih =>
    rw [List.cons_append, trimEnd, ih]
    split
    next hn => simp at hn
    next => rfl

theorem trimEnd_blank_end {c : Char} (h : isBlank c = true) (cs : List Char) :
    trimEnd (cs ++ [c]) = trimEnd cs := by
  induction cs with
  | nil => simp [trimEnd, h]
  | cons d cs ih => rw [List.cons_append, trimEnd, trimEnd, ih]

theorem trimEnd_eq (cs : List Char) : trimEnd cs = cs.rdropWhile isBlank := by
  induction cs using List.reverseRecOn with
  | nil => rfl
  | append_singleton cs c ih =>
    cases hc : isBlank c with
    | true => rw [trimEnd_blank_end hc, List.rdropWhile_concat_pos isBlank cs c hc, ih]
    | false => rw [trimEnd_solid_end hc, List.rdropWhile_concat_neg isBlank cs c (by simp [hc])]

/-- What stands in front of a part that is not all blank is kept. -/
theorem trimEnd_append (front : List Char) {back : List Char} (h : trimEnd back ≠ []) :
    trimEnd (front ++ back) = front ++ trimEnd back := by
  induction front with
  | nil => rfl
  | cons c front ih =>
    rw [List.cons_append, trimEnd, ih]
    split
    next hn => exact absurd (List.append_eq_nil_iff.mp hn).2 h
    next => rfl

theorem trimEnd_append_solid (front : List Char) {c : Char} (hc : isBlank c = false) (back : List Char) :
    trimEnd (front ++ c :: back) = front ++ c :: trimEnd back := by
  have hb : trimEnd (c :: back) = c :: trimEnd back := by
    rw [trimEnd]
    split
    next hn => simp [hc, hn]
    next => rfl
  rw [trimEnd_append front (by simp [hb]), hb]

theorem trimEnd_ne_nil {c : Char} {cs : List Char} (hc : isBlank c = false) (h : c ∈ cs) :
    trimEnd cs ≠ [] := by
  rw [trimEnd_eq, Ne, List.rdropWhile_eq_nil_iff]
  intro hall
  have hb := hall c h
  rw [hc] at hb
  cases hb

theorem solid_of_getLast? {c : Char} {cs : List Char} (h : (trimEnd cs).getLast? = some c) :
    isBlank c = false := by
  rw [trimEnd_eq] at h
  obtain ⟨hne, rfl⟩ := List.mem_getLast?_eq_getLast h
  have hlast := List.rdropWhile_last_not isBlank cs hne
  rwa [Bool.not_eq_true] at hlast

/-- A text is what is kept of it, and blanks behind that. -/
theorem exists_gap (cs : List Char) : ∃ gap, (∀ c ∈ gap, isBlank c = true) ∧ trimEnd cs ++ gap = cs := by
  refine ⟨cs.rtakeWhile isBlank, ?_, ?_⟩
  · intro c hc
    exact List.mem_rtakeWhile_imp hc
  · rw [trimEnd_eq, List.rdropWhile_append_rtakeWhile]

def Trimmed (cs kept : List Char) : Prop :=
  ∃ gap, cs = kept ++ gap ∧ (∀ c ∈ gap, isBlank c = true) ∧ ∀ c ∈ kept.getLast?, isBlank c = false

theorem trimEnd_gap {gap : List Char} (h : ∀ c ∈ gap, isBlank c = true) (cs : List Char) :
    trimEnd (cs ++ gap) = trimEnd cs := by
  induction gap using List.reverseRecOn with
  | nil => rw [List.append_nil]
  | append_singleton gap c ih =>
    obtain ⟨hgap, hc⟩ := List.forall_mem_append.mp h
    rw [← List.append_assoc, trimEnd_blank_end (hc c (List.mem_singleton_self c)), ih hgap]

theorem trimmed_iff {cs kept : List Char} : Trimmed cs kept ↔ trimEnd cs = kept := by
  constructor
  · rintro ⟨gap, rfl, hgap, hlast⟩
    rw [trimEnd_gap hgap]
    rcases List.eq_nil_or_concat' kept with rfl | ⟨front, c, rfl⟩
    · rfl
    · exact trimEnd_solid_end (hlast c (by simp)) front
  · rintro rfl
    obtain ⟨gap, hgap, hcut⟩ := exists_gap cs
    exact ⟨gap, hcut.symm, hgap, fun c hc => solid_of_getLast? hc⟩

/-- Blanks that stay as they are, and other characters written as texts that end in no blank. -/
structure KeepsEnd (f : Char → List Char) : Prop where
  blank : ∀ c, isBlank c = true → f c = [c]
  solid : ∀ c, isBlank c = false → ∃ front last, f c = front ++ [last] ∧ isBlank last = false

theorem KeepsEnd.trimEnd_flatMap {f : Char → List Char} (h : KeepsEnd f) (cs : List Char) :
    trimEnd (cs.flatMap f) = (trimEnd cs).flatMap f := by
  induction cs using List.reverseRecOn with
  | nil => rfl
  | append_singleton cs c ih =>
    have hone : [c].flatMap f = f c := List.flatMap_singleton f c
    rw [List.flatMap_append, hone]
    cases hc : isBlank c with
    | true => rw [h.blank c hc, trimEnd_blank_end hc, trimEnd_blank_end hc, ih]
    | false =>
      obtain ⟨front, last, hf, hl⟩ := h.solid c hc
      rw [trimEnd_solid_end hc, List.flatMap_append, hone, hf, ← List.append_assoc, trimEnd_solid_end hl]

end LogDesk.Text
