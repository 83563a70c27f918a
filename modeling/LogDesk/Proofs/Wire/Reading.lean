import LogDesk.Proofs.Json.Found
import LogDesk.Wire

/-! Whole texts, read as one thing or as a list of things: `parseOne_wellFormed`, `parseMany_iff`. -/

namespace LogDesk

open Json Text

variable {α : Type} {read : Nat → List UInt8 → Reading (Piece α)} {f : Tree → Option α} {v : Tree} {t : List Char}

theorem parseOne_wellFormed (hread : ReadsAs read f) (h : WellFormed v t) :
    (parseOne read (utf8 t)).toOption = f v := by
  cases h with
  | @mk w t w' hw hv hw' =>
    refine readAll_blanks hw' ?_
    have hlen := length_le_utf8 (w ++ (t ++ w'))
    simp only [List.length_append, utf8_append] at hlen ⊢
    exact hread hw hv (by omega) _

theorem parseMany_wellFormed (hread : ReadsAs read f) (h : WellFormed v t) :
    (parseMany read (utf8 t)).toOption = v.items?.bind (·.mapM f) := by
  cases h with
  | @mk w t w' hw hv hw' =>
    refine readAll_blanks hw' ?_
    have hlen := length_le_utf8 (w ++ (t ++ w'))
    simp only [List.length_append, utf8_append] at hlen ⊢
    exact readListOf_written hread hw hv (by omega) (by omega)

theorem mapM_eq_some_iff {vs : List Tree} {as : List α} :
    vs.mapM f = some as ↔ List.Forall₂ (fun v a => f v = some a) vs as := by
  induction vs generalizing as with
  | nil => exact ⟨fun h => by cases h; exact .nil, fun h => by cases h; rfl⟩
  | cons v vs ih =>
    rw [List.mapM_cons]
    constructor
    · intro h
      obtain ⟨a, ha, h⟩ := Option.bind_eq_some_iff.mp h
      obtain ⟨bs, hbs, h⟩ := Option.bind_eq_some_iff.mp h
      obtain rfl : a :: bs = as := Option.some.inj h
      exact .cons ha (ih.mp hbs)
    · intro h
      cases h with
      | cons ha has =>
        rw [ha, ih.mpr has]
        rfl

/-- A text is read as a list if it says one and each of its items is read. -/
theorem parseMany_iff (hread : ReadsAs read f) (h : WellFormed v t) (as : List α) :
    parseMany read (utf8 t) = .ok as ↔
      ∃ vs, v = .array vs ∧ List.Forall₂ (fun v a => f v = some a) vs as := by
  rw [ok_iff_toOption, parseMany_wellFormed hread h]
  cases v with
  | array vs =>
    refine mapM_eq_some_iff.trans ⟨fun h => ⟨vs, rfl, h⟩, ?_⟩
    rintro ⟨_, ⟨⟩, h⟩
    exact h
  | _ => exact ⟨nofun, nofun⟩

theorem Record.readsAs : ReadsAs Record.read fun v => (Record.schema.found? v).map Record.ofFound :=
  readsAs_found fun _ _ => rfl

theorem StopOutcome.readsAs :
    ReadsAs StopOutcome.read fun v => (StopOutcome.schema.found? v).map StopOutcome.ofFound :=
  readsAs_found fun _ _ => rfl

theorem StartedJob.readsAs :
    ReadsAs StartedJob.read fun v => (StartedJob.schema.found? v).map fun f => ⟨textOf f "id"⟩ :=
  readsAs_found (g := fun f => StartedJob.mk (textOf f "id")) fun _ _ => rfl

theorem RunningJob.readsAs :
    ReadsAs RunningJob.read fun v => (RunningJob.schema.found? v).map fun f => ⟨textOf f "id"⟩ :=
  readsAs_found (g := fun f => RunningJob.mk (textOf f "id")) fun _ _ => rfl

end LogDesk
