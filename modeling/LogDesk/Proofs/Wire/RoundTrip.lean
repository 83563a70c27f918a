import LogDesk.Proofs.Wire.Listing

/-! Records and jobs read back from what is printed of them: `parse_pretty`. -/

namespace LogDesk

open Json Text

/-- A thing is printed as a text that says it, whatever the layout. -/
def Says {α : Type} (f : Tree → Option α) (toJson : α → Value) : Prop :=
  ∀ a, ∃ j, f j = some a ∧ ∀ l : Layout, l.IsBlank → Prints l j (toJson a)

section

variable {α : Type} {read : Nat → List UInt8 → Reading (Piece α)} {f : Tree → Option α} {toJson : α → Value}
  {l : Layout}

theorem parseOne_print (hread : ReadsAs read f) (h : Says f toJson) (hl : l.IsBlank) (a : α) :
    parseOne read (utf8 ((toJson a).print l 0)) = .ok a := by
  obtain ⟨j, hj, hp⟩ := h a
  rw [ok_iff_toOption, parseOne_wellFormed hread (hp l hl).wellFormed, hj]

theorem parseMany_print (hread : ReadsAs read f) (h : Says f toJson) (hl : l.IsBlank) (as : List α) :
    parseMany read (utf8 ((Value.array (as.map toJson)).print l 0)) = .ok as := by
  obtain ⟨js, hjs, hp⟩ : ∃ js, List.Forall₂ (fun j a => f j = some a) js as ∧
      List.Forall₂ (Prints l) js (as.map toJson) := by
    induction as with
    | nil => exact ⟨[], .nil, .nil⟩
    | cons a as ih =>
      obtain ⟨js, hjs, hp⟩ := ih
      obtain ⟨j, hj, hpj⟩ := h a
      exact ⟨j :: js, .cons hj hjs, .cons (hpj l hl) hp⟩
  exact (parseMany_iff hread (Prints.array hl hp).wellFormed as).mpr ⟨js, rfl, hjs⟩

end

/-- The fields of a record that are written, in order. -/
def Record.texts (r : Record) : List (String × String) :=
  [("timestamp", r.timestamp), ("level", r.level), ("loggerName", r.loggerName), ("threadName", r.threadName),
    ("message", r.message)] ++ (r.stackTrace.map fun t => ("stackTrace", t)).toList

theorem Record.toJson_texts (r : Record) : r.toJson = .object (ofTexts r.texts) := by
  obtain ⟨t, l, n, u, m, k⟩ := r
  cases k <;> rfl

theorem Record.element_texts (r : Record) : Element (.object (textTrees r.texts)) r := by
  obtain ⟨t, l, n, u, m, k⟩ := r
  cases k with
  | none =>
    have honce : ∀ name ∈ fields, fields.dropLast.count name ≤ 1 := by decide
    exact .object honce ⟨.string t, .string l, .string n, .string u, .string m, .absent⟩
  | some k =>
    have honce : ∀ name ∈ fields, fields.count name ≤ 1 := by decide
    exact .object honce ⟨.string t, .string l, .string n, .string u, .string m, .string k⟩

theorem Record.says : Says (fun v => (schema.found? v).map ofFound) toJson := fun r =>
  ⟨_, found?_iff.mpr r.element_texts, fun _ hl => r.toJson_texts ▸ prints_texts hl r.texts⟩

theorem StopOutcome.says : Says (fun v => (schema.found? v).map ofFound) toJson := by
  intro j
  refine ⟨.object [("id", .string j.id), ("cancelled", .bool j.cancelled)], ?_, fun l hl => ?_⟩
  · obtain ⟨id, cancelled⟩ := j
    cases cancelled <;> rfl
  · exact .object hl (.cons (.mk "id" (.string j.id)) (.cons (.mk "cancelled" (.bool j.cancelled)) .nil))

theorem StartedJob.says : Says (fun v => (schema.found? v).map fun f => StartedJob.mk (textOf f "id")) toJson :=
  fun j => ⟨.object (textTrees [("id", j.id)]), rfl, fun _ hl => prints_texts hl [("id", j.id)]⟩

theorem RunningJob.says : Says (fun v => (schema.found? v).map fun f => RunningJob.mk (textOf f "id")) toJson :=
  fun j => ⟨.object (textTrees [("id", j.id)]), rfl, fun _ hl => prints_texts hl [("id", j.id)]⟩

/-- Records and jobs are read back from their text, each part on a line of its own, with every character of their
texts. A record without a trace and one with an empty trace are told apart. -/
theorem parse_pretty :
    (∀ rs : List Record, parseMany Record.read
      (utf8 ((Value.array (rs.map Record.toJson)).pretty "\t").toList) = .ok rs) ∧
    (∀ js : List StopOutcome, parseMany StopOutcome.read
      (utf8 ((Value.array (js.map StopOutcome.toJson)).pretty "\t").toList) = .ok js) ∧
    (∀ js : List RunningJob, parseMany RunningJob.read
      (utf8 ((Value.array (js.map RunningJob.toJson)).pretty "\t").toList) = .ok js) ∧
    ∀ j : StartedJob, parseOne StartedJob.read (utf8 (j.toJson.pretty "\t").toList) = .ok j := by
  simp only [Value.pretty, String.toList_ofList]
  exact ⟨parseMany_print Record.readsAs Record.says tab_blank,
    parseMany_print StopOutcome.readsAs StopOutcome.says tab_blank,
    parseMany_print RunningJob.readsAs RunningJob.says tab_blank,
    parseOne_print StartedJob.readsAs StartedJob.says tab_blank⟩

end LogDesk
