import LogDesk.Proofs.Console.Newest
import LogDesk.Proofs.Expansion

/-! The screen and the desk. All that a view is told leaves its log table as the desk holds it: the
rows of the records, and of the expanded positions those where there is a row, with their details
open. -/

namespace LogDesk

theorem Row.ofRecords_eq (first : Nat) (records : List Record) :
    Row.ofRecords first records = records.mapIdx fun i r => Row.ofRecord (first + i) r := by
  induction records generalizing first with
  | nil => rfl
  | cons r records ih =>
    rw [Row.ofRecords, ih, List.mapIdx_cons]
    simp only [Nat.add_zero, Nat.add_assoc, Nat.add_comm 1]

theorem Desk.opening_some {records : List Record} {pos : Nat} (h : pos < records.length) :
    opening records pos = some (.openDetail pos records[pos].detail) := by
  simp [opening, h]

theorem Desk.opening_none {records : List Record} {pos : Nat} (h : ¬pos < records.length) :
    opening records pos = none := by
  simpa [opening] using h

namespace Screen

theorem display_off (s : Screen) {c : ViewCall} (h : c.onTable = false) : s.display c = s := by
  cases c <;> first | rfl | cases h

theorem foldl_off (s : Screen) {cs : List ViewCall} (h : ∀ c ∈ cs, c.onTable = false) :
    cs.foldl display s = s := by
  induction cs with
  | nil => rfl
  | cons c cs ih =>
    rw [List.foldl_cons, s.display_off (h c List.mem_cons_self)]
    exact ih fun c' hc => h c' (List.mem_cons_of_mem c hc)

/-- Details are opened where there are records. -/
theorem foldl_opening (s : Screen) (records : List Record) (positions : List Nat) :
    ((positions.filterMap (Desk.opening records)).foldl display s).rows = s.rows ∧
      ((positions.filterMap (Desk.opening records)).foldl display s).details =
        (positions.filter (· < records.length)).foldl (fun acc n => insertAscending n acc)
          s.details := by
  induction positions generalizing s with
  | nil => exact ⟨rfl, rfl⟩
  | cons pos positions ih =>
    by_cases hlt : pos < records.length
    · rw [List.filterMap_cons_some (Desk.opening_some hlt), List.filter_cons_of_pos (by simpa using hlt)]
      exact ih _
    · rw [List.filterMap_cons_none (Desk.opening_none hlt),
        List.filter_cons_of_neg (by simpa using hlt)]
      exact ih s

end Screen

structure Table.OnScreen (t : Table) (s : Screen) : Prop where
  rows : s.rows = t.records.mapIdx Row.ofRecord
  lastTotal : t.expansion.lastTotal = t.records.length
  ascends : Ascends t.expansion.positions
  details : s.details = t.expansion.positions.filter (· < t.records.length)

namespace Table

variable {t : Table} {s : Screen}

theorem onScreen_expanded (h : t.OnScreen s) (pos : Nat) :
    (t.take (.expanded pos)).OnScreen ((t.told (.expanded pos)).foldl Screen.display s) := by
  have hs := Expansion.ascends_expand pos h.ascends
  have hd := h.ascends.filter (· < t.records.length)
  by_cases hlt : pos < t.records.length
  · have htold : t.told (.expanded pos) = [.openDetail pos t.records[pos].detail] := by
      simp only [told, Desk.opening_some hlt, Option.toList]
    rw [htold]
    refine ⟨h.rows, h.lastTotal, hs, ?_⟩
    change insertAscending pos s.details =
      (t.expansion.expand pos).positions.filter (· < t.records.length)
    rw [h.details]
    refine (ascends_insertAscending pos hd).eq_of_mem_iff (hs.filter _) fun k => ?_
    simp only [mem_insertAscending, List.mem_filter, Expansion.mem_expand, decide_eq_true_eq]
    constructor
    · rintro (rfl | ⟨hk, hk'⟩)
      · exact ⟨.inl rfl, hlt⟩
      · exact ⟨.inr hk, hk'⟩
    · rintro ⟨rfl | hk, hk'⟩
      · exact .inl rfl
      · exact .inr ⟨hk, hk'⟩
  · -- out of range: the position is kept, and nothing is opened
    have htold : t.told (.expanded pos) = [] := by
      simp only [told, Desk.opening_none hlt, Option.toList]
    rw [htold]
    refine ⟨h.rows, h.lastTotal, hs, ?_⟩
    change s.details = (t.expansion.expand pos).positions.filter (· < t.records.length)
    rw [h.details]
    refine hd.eq_of_mem_iff (hs.filter _) fun k => ?_
    simp only [List.mem_filter, Expansion.mem_expand, decide_eq_true_eq]
    constructor
    · rintro ⟨hk, hk'⟩
      exact ⟨.inr hk, hk'⟩
    · rintro ⟨rfl | hk, hk'⟩
      · exact absurd hk' hlt
      · exact ⟨hk, hk'⟩

theorem onScreen_collapsed (h : t.OnScreen s) (pos : Nat) :
    (t.take (.collapsed pos)).OnScreen ((t.told (.collapsed pos)).foldl Screen.display s) := by
  refine ⟨h.rows, h.lastTotal, Expansion.ascends_collapse pos h.ascends, ?_⟩
  change s.details.filter (· ≠ pos) = _
  rw [h.details]
  simp only [take, Expansion.collapse, List.filter_filter]
  exact List.filter_congr fun k _ => Bool.and_comm _ _

/-- New rows close all details, and those of the positions that are still in range are opened. -/
theorem onScreen_ended (h : t.OnScreen s) (r : Reload) :
    (t.take (.ended r)).OnScreen ((t.told (.ended r)).foldl Screen.display s) := by
  cases hb : t.brought? r with
  | none => simpa [take, told, hb] using h
  | some records =>
    have ha := Expansion.ascends_reindex records.length h.ascends
    obtain ⟨hrows, hdetails⟩ := Screen.foldl_opening ⟨Row.ofRecords 0 records, []⟩ records
      (t.expansion.reindex records.length).positions
    have hs : (t.told (.ended r)).foldl Screen.display s =
        ((t.expansion.reindex records.length).positions.filterMap (Desk.opening records)).foldl
          Screen.display ⟨Row.ofRecords 0 records, []⟩ := by
      simp only [told, hb, Desk.redraw, List.foldl_append]
      rfl
    rw [hs]
    simp only [take, hb]
    refine ⟨?_, rfl, ha, ?_⟩
    · rw [hrows, Row.ofRecords_eq]
      simp only [Nat.zero_add]
    · rw [hdetails]
      exact ascending_eq (ha.filter _)

end Table

namespace Console

variable {ς σ : Type} [LogService ς] [PreferenceStore σ]

theorem onScreen_step {s : State ς σ} (m : Move)
    (h : s.world.table.OnScreen (.ofCalls s.world.shown)) :
    (step s m).world.table.OnScreen (.ofCalls (step s m).world.shown) := by
  obtain ⟨first, last, hc, ho⟩ := calls_eq s m
  have hfirst : ∀ c ∈ first, c.onTable = false := fun c hm => ho c (List.mem_append_left last hm)
  have hlast : ∀ c ∈ last, c.onTable = false := fun c hm => ho c (List.mem_append_right first hm)
  have hs : Screen.ofCalls (step s m).world.shown =
      ((happening s m).elim [] s.world.table.told).foldl Screen.display (.ofCalls s.world.shown) := by
    rw [Screen.ofCalls, step_shown, hc, List.foldl_append, List.foldl_append, List.foldl_append,
      Screen.foldl_off _ hlast, Screen.foldl_off _ hfirst]
    rfl
  rw [hs, step_table]
  cases happening s m with
  | none => exact h
  | some p =>
    cases p with
    | began r => exact ⟨h.rows, h.lastTotal, h.ascends, h.details⟩
    | ended r => exact Table.onScreen_ended h r
    | expanded pos => exact Table.onScreen_expanded h pos
    | collapsed pos => exact Table.onScreen_collapsed h pos

variable {service : ς} {store : σ} {scroll : UInt32} {d : Desk ς σ}

theorem onScreen (hd : openDesk service store scroll = .ok d) (ms : List Move) :
    (after ({ world := d } : State ς σ) ms).world.table.OnScreen
      (.ofCalls (after ({ world := d } : State ς σ) ms).world.shown) := by
  induction ms with
  | nil =>
    obtain ⟨ht, hs, -⟩ := openDesk_eq hd
    change d.table.OnScreen (.ofCalls d.shown)
    rw [ht, hs]
    exact ⟨rfl, rfl, .nil, rfl⟩
  | cons m ms ih => exact onScreen_step m ih

/-- Whatever rows are expanded and collapsed and however refreshes come, the screen is in step. -/
theorem table_onScreen (hd : openDesk service store scroll = .ok d) (ms : List Move) :
    let d' := (after ({ world := d } : State ς σ) ms).world
    d'.table.OnScreen (.ofCalls d'.shown) :=
  onScreen hd ms

/-- Rows are expanded in range and out of range, and one refresh overtakes another. -/
theorem table_onScreen_overtaken :
    let rows (n : Nat) : List Record := List.replicate n {}
    let deck : Deck := ⟨[(.ok (rows 3), 0), (.ok (rows 9), 10), (.ok (rows 5), 0)]⟩
    let ms : List Move := [.turn 4, .wait 10, .turn 6, .ask (.handle (.expandRow 4)), .turn 5, .turn 5,
      .turn 4, .ask (.handle .refresh), .ask (.handle .refresh), .turn 3, .turn 2,
      .ask (.handle (.expandRow 7)), .ask (.handle (.expandRow 1)), .turn 1, .turn 1, .turn 0,
      .ask (.handle .refresh), .ask (.handle (.expandRow 0))]
    let d' := (after ({ world := dealt deck } : State Deck MemoryStore) ms).world
    openDesk deck ({} : MemoryStore) 0 = .ok (dealt deck) ∧
      d'.records.length = 5 ∧ (Screen.ofCalls d'.shown).details = [3, 4] ∧
      d'.table.OnScreen (.ofCalls d'.shown) := by
  intro rows deck ms d'
  have hd : openDesk deck ({} : MemoryStore) 0 = .ok (dealt deck) := rfl
  exact ⟨hd, by decide +kernel, by decide +kernel, table_onScreen hd ms⟩

end Console

end LogDesk
