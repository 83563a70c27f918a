import LogDesk.Preferences.Store
import Mathlib.Tactic

/-! Entries of a store: a put is told by what is found after it, and entries that stand in order are
what their own list makes of them. -/

namespace LogDesk.Entries

abbrev InOrder (e : Entries) : Prop := e.Pairwise fun a b => a.1 < b.1

theorem get?_cons (n v : String) (e : Entries) (other : String) :
    get? ((n, v) :: e) other = if other = n then some v else e.get? other := by
  by_cases h : other = n
  · simp [get?, h]
  · have hb : (other == n) = false := by simpa using h
    simp [get?, List.lookup_cons, h, hb]

/-- A name finds what was put under it last. -/
theorem get?_put (e : Entries) (name value other : String) :
    (e.put name value).get? other = if other = name then some value else e.get? other := by
  induction e with
  | nil => exact get?_cons name value [] other
  | cons m rest ih =>
    obtain ⟨n, v⟩ := m
    unfold put
    by_cases hn : name = n
    · subst hn
      rw [if_pos rfl, get?_cons, get?_cons]
      split <;> rfl
    · rw [if_neg hn]
      split
      · rw [get?_cons]
      · rw [get?_cons, get?_cons, ih]
        by_cases h : other = n
        · have hne : other ≠ name := fun h' => hn (h'.symm.trans h)
          rw [if_pos h, if_neg hne, if_pos h]
        · rw [if_neg h, if_neg h]

theorem mem_put {e : Entries} {name value : String} {m : String × String}
    (h : m ∈ e.put name value) : m = (name, value) ∨ m ∈ e := by
  induction e with
  | nil => exact .inl (List.mem_singleton.mp h)
  | cons m' rest ih =>
    unfold put at h
    split at h
    · rcases List.mem_cons.mp h with h | h
      · exact .inl h
      · exact .inr (List.mem_cons_of_mem _ h)
    · split at h
      · rcases List.mem_cons.mp h with h | h
        · exact .inl h
        · exact .inr h
      · rcases List.mem_cons.mp h with h | h
        · exact .inr (h ▸ List.mem_cons_self)
        · rcases ih h with h | h
          · exact .inl h
          · exact .inr (List.mem_cons_of_mem _ h)

theorem inOrder_put {e : Entries} (h : e.InOrder) (name value : String) :
    (e.put name value).InOrder := by
  induction e with
  | nil => simp [put, InOrder]
  | cons m rest ih =>
    obtain ⟨n, v⟩ := m
    obtain ⟨hm, hrest⟩ := List.pairwise_cons.mp h
    unfold put
    split
    next hn =>
      subst hn
      exact List.pairwise_cons.mpr ⟨hm, hrest⟩
    next hn =>
      split
      next hlt =>
        refine List.pairwise_cons.mpr ⟨fun k hk => ?_, h⟩
        rcases List.mem_cons.mp hk with rfl | hk
        · exact hlt
        · exact String.lt_trans hlt (hm k hk)
      next hlt =>
        have hgt : n < name := by
          by_contra hngt
          exact hn (String.le_antisymm (String.not_lt.mp hngt) (String.not_lt.mp hlt))
        refine List.pairwise_cons.mpr ⟨fun k hk => ?_, ih hrest⟩
        rcases mem_put hk with rfl | hk
        · exact hgt
        · exact hm k hk

/-- What comes after all others is put at the end. -/
theorem put_last {e : Entries} {name : String} (value : String) (h : ∀ m ∈ e, m.1 < name) :
    e.put name value = e ++ [(name, value)] := by
  induction e with
  | nil => rfl
  | cons m rest ih =>
    obtain ⟨n, v⟩ := m
    have hlt : n < name := h (n, v) List.mem_cons_self
    have hne : ¬ name = n := fun h' => String.lt_irrefl n (h' ▸ hlt)
    have hnlt : ¬ name < n := String.lt_asymm hlt
    rw [put, if_neg hne, if_neg hnlt, ih fun m hm => h m (List.mem_cons_of_mem _ hm)]
    rfl

theorem inOrder_ofList (ms : List (String × String)) : (ofList ms).InOrder := by
  have hacc (acc : Entries) (h : acc.InOrder) :
      (ms.foldl (fun e m => e.put m.1 m.2) acc).InOrder := by
    induction ms generalizing acc with
    | nil => exact h
    | cons m ms ih => exact ih _ (inOrder_put h m.1 m.2)
  exact hacc [] List.Pairwise.nil

/-- Entries in order are put together as they stand. -/
theorem ofList_eq {e : Entries} (h : e.InOrder) : ofList e = e := by
  have hacc (acc rest : Entries) (h : InOrder (acc ++ rest)) :
      rest.foldl (fun e m => e.put m.1 m.2) acc = acc ++ rest := by
    induction rest generalizing acc with
    | nil => simp
    | cons m rest ih =>
      have hlast : ∀ m' ∈ acc, m'.1 < m.1 := fun m' hm' =>
        (List.pairwise_append.mp h).2.2 m' hm' m List.mem_cons_self
      rw [List.foldl_cons, put_last m.2 hlast, ih _ (by simpa using h)]
      simp
  exact hacc [] e h

end LogDesk.Entries
