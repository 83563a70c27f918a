import LogDesk.Proofs.Json.Members
import LogDesk.Proofs.Json.Shapes

/-! What a record of a schema finds, told by the names of its slots. Each name may stand in an object once, and
then its slot holds what stands under it: `gather?_holds`, `gather?_isSome`. In a list the first place is that of
the first name, and so on: `lineUp?_holds`, `lineUp?_isSome`. -/

namespace LogDesk.Json

variable {s : Schema} {found f : Found} {name : String} {slot : Slot} {ms : List (String × Tree)} {vs : List Tree}

/-- What a slot holds, by the value that is there for it if one is. -/
inductive Kind.Holds (k : Kind) : Option Tree → Option Scalar → Prop
  | absent : k.Holds none none
  | present {v x} : k.of? v = some x → k.Holds (some v) (some x)

def occurrences (name : String) (ms : List (String × Tree)) : Nat := (ms.map (·.1)).count name

theorem occurrences_self (v : Tree) : occurrences name ((name, v) :: ms) = occurrences name ms + 1 :=
  List.count_cons_self

theorem occurrences_of_ne {n : String} {v : Tree} (h : n ≠ name) :
    occurrences name ((n, v) :: ms) = occurrences name ms :=
  List.count_cons_of_ne h

def under (name : String) (ms : List (String × Tree)) : List (String × Tree) := ms.filter (·.1 = name)

theorem occurrences_under : occurrences name ms = (under name ms).length := by
  rw [occurrences, List.count_eq_countP, List.countP_map, List.countP_eq_length_filter]
  rfl

theorem lookup_under : ms.lookup name = (under name ms).head?.map (·.2) := by
  induction ms with
  | nil => rfl
  | cons m ms ih =>
    obtain ⟨n, v⟩ := m
    by_cases hn : n = name
    · subst hn
      simp [under]
    · rw [lookup_of_ne hn, ih, under, under, List.filter_cons_of_neg (by simpa using hn)]

theorem lookup_none (h : occurrences name ms = 0) : ms.lookup name = none := by
  rw [occurrences_under, List.length_eq_zero_iff] at h
  rw [lookup_under, h]
  rfl

theorem Schema.name_of_find? (h : s.find? name = some slot) : slot.name = name := by
  simpa using List.find?_some h

theorem Found.get?_self (x : Scalar) : Found.get? ((name, x) :: found) name = some x :=
  List.lookup_cons_self

theorem Found.get?_of_ne {n : String} {x : Scalar} (h : n ≠ name) :
    Found.get? ((n, x) :: found) name = found.get? name := by
  rw [Found.get?, List.lookup_cons, beq_false_of_ne (Ne.symm h)]
  rfl

/-- Why the next member is taken in, if it is. -/
theorem gather?_cons {n : String} {v : Tree} (h : s.gather? found ((n, v) :: ms) = some f) :
    (s.find? n = none ∧ s.gather? found ms = some f) ∨
      ∃ slot x, s.find? n = some slot ∧ found.get? n = none ∧ slot.kind.of? v = some x ∧
        s.gather? ((n, x) :: found) ms = some f := by
  rw [Schema.gather?] at h
  cases hn : s.find? n with
  | none => exact .inl ⟨rfl, by simpa [hn] using h⟩
  | some slot =>
    simp only [hn] at h
    split_ifs at h with hd
    obtain ⟨x, hx, h⟩ := Option.bind_eq_some_iff.mp h
    exact .inr ⟨slot, x, rfl, by simpa using hd, hx, h⟩

/-- What was found stays, and its name does not come again. -/
theorem gather?_found (h : s.gather? found ms = some f) (hs : s.find? name = some slot) {x : Scalar}
    (hx : found.get? name = some x) : f.get? name = some x ∧ occurrences name ms = 0 := by
  induction ms generalizing found with
  | nil =>
    obtain rfl : found = f := Option.some.inj h
    exact ⟨hx, rfl⟩
  | cons m ms ih =>
    obtain ⟨n, v⟩ := m
    have hne : n ≠ name := by
      rintro rfl
      obtain ⟨hn, -⟩ | ⟨-, -, -, hn, -, -⟩ := gather?_cons h
      · simp [hs] at hn
      · simp [hx] at hn
    rw [occurrences_of_ne hne]
    obtain ⟨-, h⟩ | ⟨_, y, -, -, -, h⟩ := gather?_cons h
    · exact ih h hx
    · exact ih h (by rwa [Found.get?_of_ne hne])

theorem gather?_holds (h : s.gather? found ms = some f) (hs : s.find? name = some slot)
    (hx : found.get? name = none) :
    slot.kind.Holds (ms.lookup name) (f.get? name) ∧ occurrences name ms ≤ 1 := by
  induction ms generalizing found with
  | nil =>
    obtain rfl : found = f := Option.some.inj h
    rw [hx]
    exact ⟨.absent, Nat.zero_le _⟩
  | cons m ms ih =>
    obtain ⟨n, v⟩ := m
    by_cases hm : n = name
    · subst hm
      obtain ⟨hn, -⟩ | ⟨slot', x, hs', -, ho, h⟩ := gather?_cons h
      · simp [hs] at hn
      · obtain rfl : slot' = slot := Option.some.inj (hs'.symm.trans hs)
        obtain ⟨hf, hocc⟩ := gather?_found h hs (Found.get?_self x)
        rw [occurrences_self, hocc, List.lookup_cons_self, hf]
        exact ⟨.present ho, le_rfl⟩
    · rw [occurrences_of_ne hm, lookup_of_ne hm]
      obtain ⟨-, h⟩ | ⟨_, y, -, -, -, h⟩ := gather?_cons h
      · exact ih h hx
      · exact ih h (by rwa [Found.get?_of_ne hm])

/-- Members are all taken in if none comes again and each fits. -/
theorem gather?_isSome (hfound : ∀ {name slot}, s.find? name = some slot → (found.get? name).isSome →
      occurrences name ms = 0)
    (honce : ∀ {name slot}, s.find? name = some slot → occurrences name ms ≤ 1)
    (hfit : ∀ {name slot v}, s.find? name = some slot → ms.lookup name = some v → (slot.kind.of? v).isSome) :
    ∃ f, s.gather? found ms = some f := by
  -- Each member taken in joins what was found, and may not come again behind it.
  induction ms generalizing found with
  | nil => exact ⟨found, rfl⟩
  | cons m ms ih =>
    obtain ⟨n, v⟩ := m
    rw [Schema.gather?]
    cases hn : s.find? n with
    | none =>
      have hne {name slot} (hs : s.find? name = some slot) : n ≠ name := by
        rintro rfl
        simp [hs] at hn
      refine ih (fun hs hx => ?_) (fun hs => ?_) (fun hs hv => ?_)
      · simpa only [occurrences_of_ne (hne hs)] using hfound hs hx
      · simpa only [occurrences_of_ne (hne hs)] using honce hs
      · exact hfit hs (by rwa [lookup_of_ne (hne hs)])
    | some slot =>
      have hnew : ¬ (found.get? n).isSome := by
        intro hx
        have h0 := hfound hn hx
        rw [occurrences_self] at h0
        omega
      have h1 := honce hn
      rw [occurrences_self] at h1
      obtain ⟨x, hx⟩ := Option.isSome_iff_exists.mp (hfit hn List.lookup_cons_self)
      simp only [if_neg hnew, hx]
      refine ih (fun {name slot'} hs hf => ?_) (fun {name slot'} hs => ?_) (fun {name slot' w} hs hv => ?_) <;>
        by_cases hne : n = name
      · subst hne
        omega
      · rw [Found.get?_of_ne hne] at hf
        simpa only [occurrences_of_ne hne] using hfound hs hf
      · subst hne
        omega
      · simpa only [occurrences_of_ne hne] using honce hs
      · subst hne
        rw [lookup_none (by omega)] at hv
        cases hv
      · exact hfit hs (by rwa [lookup_of_ne hne])

def Schema.names (s : Schema) : List String := s.map (·.name)

theorem lineUp?_holds (h : s.lineUp? vs = some f) (hs : s.find? name = some slot) :
    slot.kind.Holds ((s.names.zip vs).lookup name) (f.get? name) := by
  induction s generalizing vs f with
  | nil => cases hs
  | cons first s ih =>
    cases vs with
    | nil =>
      obtain rfl : [] = f := Option.some.inj h
      exact .absent
    | cons v vs =>
      obtain ⟨x, hx, h⟩ := Option.bind_eq_some_iff.mp h
      obtain ⟨g, hg, h⟩ := Option.bind_eq_some_iff.mp h
      obtain rfl : (first.name, x) :: g = f := Option.some.inj h
      by_cases hne : first.name = name
      · subst hne
        obtain rfl : first = slot := by simpa [Schema.find?] using hs
        rw [Schema.names, List.map_cons, List.zip_cons_cons, List.lookup_cons_self, Found.get?_self]
        exact .present hx
      · have hs' : Schema.find? s name = some slot := by
          rw [Schema.find?, List.find?_cons_of_neg (by simpa using hne)] at hs
          exact hs
        rw [Schema.names, List.map_cons, List.zip_cons_cons, lookup_of_ne hne, Found.get?_of_ne hne]
        exact ih hg hs'

theorem lineUp?_length (h : s.lineUp? vs = some f) : vs.length ≤ s.length := by
  induction s generalizing vs f with
  | nil =>
    cases vs with
    | nil => exact le_rfl
    | cons => cases h
  | cons slot s ih =>
    cases vs with
    | nil => exact Nat.zero_le _
    | cons v vs =>
      obtain ⟨x, -, h⟩ := Option.bind_eq_some_iff.mp h
      obtain ⟨g, hg, -⟩ := Option.bind_eq_some_iff.mp h
      exact Nat.succ_le_succ (ih hg)

/-- The values of a list are all taken in if they are no more than the slots and each fits. -/
theorem lineUp?_isSome (hn : s.names.Nodup) (hlen : vs.length ≤ s.length)
    (hfit : ∀ slot ∈ s, ∀ v, (s.names.zip vs).lookup slot.name = some v → (slot.kind.of? v).isSome) :
    ∃ f, s.lineUp? vs = some f := by
  induction s generalizing vs with
  | nil =>
    obtain rfl := List.eq_nil_of_length_eq_zero (Nat.le_zero.mp hlen)
    exact ⟨[], rfl⟩
  | cons slot s ih =>
    cases vs with
    | nil => exact ⟨[], rfl⟩
    | cons v vs =>
      obtain ⟨hnot, hn⟩ := List.nodup_cons.mp hn
      obtain ⟨x, hx⟩ := Option.isSome_iff_exists.mp (hfit slot List.mem_cons_self v List.lookup_cons_self)
      obtain ⟨f, hf⟩ := ih hn (Nat.le_of_succ_le_succ hlen) fun other ho w hw => by
        have hne : slot.name ≠ other.name := fun he =>
          hnot (he ▸ List.mem_map_of_mem ho : slot.name ∈ Schema.names s)
        exact hfit other (List.mem_cons_of_mem _ ho) w ((lookup_of_ne hne).trans hw)
      exact ⟨(slot.name, x) :: f, by rw [Schema.lineUp?, hx, hf]; rfl⟩

end LogDesk.Json
