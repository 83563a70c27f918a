import LogDesk.Json.Value
import Mathlib.Tactic

/-! Members that are put into an object one after another: a name stands where it came first,
`names_mergeMembers`, and with the value that came last, `lookup_mergeMembers`. -/

namespace LogDesk.Json

variable {α β : Type} {name : String} {x : α} {m : String × α} {ms acc : List (String × α)}

theorem mem_setMember (h : m ∈ setMember name x acc) : m = (name, x) ∨ m ∈ acc := by
  induction acc with
  | nil => exact .inl (List.mem_singleton.mp h)
  | cons n acc ih =>
    rw [setMember] at h
    split_ifs at h with hn
    · rcases List.mem_cons.mp h with rfl | h
      · exact .inl (by rw [← hn])
      · exact .inr (List.mem_cons_of_mem _ h)
    · rcases List.mem_cons.mp h with rfl | h
      · exact .inr List.mem_cons_self
      · exact (ih h).imp_right (List.mem_cons_of_mem _)

theorem setMember_new (h : name ∉ acc.map (·.1)) : setMember name x acc = acc ++ [(name, x)] := by
  induction acc with
  | nil => rfl
  | cons n acc ih =>
    rw [List.map_cons, List.mem_cons, not_or] at h
    rw [setMember, if_neg (Ne.symm h.1), ih h.2, List.cons_append]

/-- A name that is there keeps its place. -/
theorem names_setMember (h : name ∈ acc.map (·.1)) : (setMember name x acc).map (·.1) = acc.map (·.1) := by
  induction acc with
  | nil => cases h
  | cons n acc ih =>
    rw [setMember]
    split_ifs with hn
    · rfl
    · have hmem : name ∈ acc.map (·.1) := (List.mem_cons.mp h).resolve_left (Ne.symm hn)
      rw [List.map_cons, ih hmem, List.map_cons]

theorem nodup_setMember (h : (acc.map (·.1)).Nodup) : ((setMember name x acc).map (·.1)).Nodup := by
  by_cases hn : name ∈ acc.map (·.1)
  · rwa [names_setMember hn]
  · rw [setMember_new hn, List.map_append, List.map_singleton]
    exact List.nodup_append.mpr ⟨h, List.nodup_singleton _, fun a ha b hb => by
      rw [List.mem_singleton.mp hb]
      rintro rfl
      exact hn ha⟩

theorem lookup_of_ne {n : String} (h : n ≠ name) : ((n, x) :: ms).lookup name = ms.lookup name := by
  rw [List.lookup_cons, beq_false_of_ne (Ne.symm h)]

theorem lookup_setMember_self (name : String) (x : α) (acc : List (String × α)) :
    (setMember name x acc).lookup name = some x := by
  induction acc with
  | nil => exact List.lookup_cons_self
  | cons m acc ih =>
    rw [setMember]
    split_ifs with hm
    · rw [hm, List.lookup_cons_self]
    · rw [lookup_of_ne hm, ih]

theorem lookup_setMember_of_ne {n : String} (h : name ≠ n) : (setMember name x acc).lookup n = acc.lookup n := by
  induction acc with
  | nil => exact lookup_of_ne h
  | cons m acc ih =>
    obtain ⟨k, y⟩ := m
    rw [setMember]
    split_ifs with hk
    · subst hk
      rw [lookup_of_ne h, lookup_of_ne h]
    · rw [List.lookup_cons, ih, List.lookup_cons]

theorem setMember_map (f : α → β) : setMember name (f x) (acc.map fun m => (m.1, f m.2)) =
    (setMember name x acc).map fun m => (m.1, f m.2) := by
  induction acc with
  | nil => rfl
  | cons n acc ih =>
    simp only [List.map_cons, setMember]
    split_ifs with hn
    · rfl
    · rw [ih, List.map_cons]

theorem mergeMembers_concat (ms : List (String × α)) (m : String × α) :
    mergeMembers (ms ++ [m]) = setMember m.1 m.2 (mergeMembers ms) := by
  rw [mergeMembers, List.foldl_append]
  rfl

/-- Merged members stand under their own names, and come from those that were merged. -/
theorem nodup_mergeMembers (ms : List (String × α)) :
    ((mergeMembers ms).map (·.1)).Nodup ∧ ∀ m ∈ mergeMembers ms, m ∈ ms := by
  induction ms using List.reverseRecOn with
  | nil => exact ⟨List.nodup_nil, fun _ hm => hm⟩
  | append_singleton ms n ih =>
    rw [mergeMembers_concat]
    refine ⟨nodup_setMember ih.1, fun m hm => ?_⟩
    rcases mem_setMember hm with rfl | hm
    · simp
    · exact List.mem_append_left _ (ih.2 m hm)

/-- Members under names of their own are what is left when they are merged. -/
theorem mergeMembers_nodup (h : (ms.map (·.1)).Nodup) : mergeMembers ms = ms := by
  induction ms using List.reverseRecOn with
  | nil => rfl
  | append_singleton ms m ih =>
    rw [List.map_append, List.nodup_append] at h
    have hnew : m.1 ∉ ms.map (·.1) := fun hm => h.2.2 _ hm _ List.mem_cons_self rfl
    rw [mergeMembers_concat, ih h.1, setMember_new hnew]

/-- The names stand in the order in which each came first. -/
theorem names_mergeMembers (ms : List (String × α)) :
    (mergeMembers ms).map (·.1) = (ms.map (·.1)).eraseDups := by
  induction ms using List.reverseRecOn with
  | nil => rfl
  | append_singleton ms m ih =>
    have hmem : m.1 ∈ (mergeMembers ms).map (·.1) ↔ m.1 ∈ ms.map (·.1) := by
      rw [ih, List.mem_eraseDups]
    rw [mergeMembers_concat, List.map_append, List.eraseDups_append, ← ih]
    by_cases hm : m.1 ∈ ms.map (·.1)
    · rw [names_setMember (hmem.mpr hm)]
      simp [List.removeAll, hm]
    · rw [setMember_new (mt hmem.mp hm)]
      simp [List.removeAll, hm, List.eraseDups_cons]

/-- Under each name stands the value that came last. -/
theorem lookup_mergeMembers (ms : List (String × α)) (name : String) :
    (mergeMembers ms).lookup name = ms.reverse.lookup name := by
  induction ms using List.reverseRecOn with
  | nil => rfl
  | append_singleton ms m ih =>
    rw [mergeMembers_concat, List.reverse_append, List.reverse_singleton, List.singleton_append]
    by_cases hn : m.1 = name
    · subst hn
      rw [lookup_setMember_self, List.lookup_cons_self]
    · rw [lookup_setMember_of_ne hn, lookup_of_ne hn, ih]

theorem mergeMembers_map (f : α → β) (ms : List (String × α)) :
    mergeMembers (ms.map fun m => (m.1, f m.2)) = (mergeMembers ms).map fun m => (m.1, f m.2) := by
  induction ms using List.reverseRecOn with
  | nil => rfl
  | append_singleton ms m ih =>
    rw [List.map_append, List.map_singleton, mergeMembers_concat, mergeMembers_concat, ih]
    exact setMember_map f

end LogDesk.Json
