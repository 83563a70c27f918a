import LogDesk.Expansion
import Mathlib.Data.List.Sort

/-! Expanded positions: they stand in order, each once, and each of the changes is told by which
positions there are after it. Of several refreshes only the last one counts while the table goes one way:
`reindex_passedOver`. -/

namespace LogDesk

abbrev Ascends (ns : List Nat) : Prop := ns.Pairwise (· < ·)

@[simp] theorem mem_insertAscending {k n : Nat} {ms : List Nat} :
    k ∈ insertAscending n ms ↔ k = n ∨ k ∈ ms := by
  induction ms with
  | nil => simp [insertAscending]
  | cons m ms ih =>
    unfold insertAscending
    split
    · simp
    · split
      next heq => simp [heq]
      next =>
        simp only [List.mem_cons, ih]
        exact or_left_comm

theorem ascends_insertAscending {ms : List Nat} (n : Nat) (h : Ascends ms) :
    Ascends (insertAscending n ms) := by
  induction ms with
  | nil => simp [insertAscending, Ascends]
  | cons m ms ih =>
    obtain ⟨hm, hms⟩ := List.pairwise_cons.mp h
    unfold insertAscending
    split
    next hlt =>
      refine List.pairwise_cons.mpr ⟨fun k hk => ?_, h⟩
      rcases List.mem_cons.mp hk with rfl | hk
      · exact hlt
      · have := hm k hk
        omega
    next hlt =>
      split
      · exact h
      · refine List.pairwise_cons.mpr ⟨fun k hk => ?_, ih hms⟩
        rcases mem_insertAscending.mp hk with rfl | hk
        · omega
        · exact hm k hk

theorem mem_ascending {k : Nat} {ns : List Nat} : k ∈ ascending ns ↔ k ∈ ns := by
  have hacc (acc : List Nat) :
      k ∈ ns.foldl (fun acc n => insertAscending n acc) acc ↔ k ∈ acc ∨ k ∈ ns := by
    induction ns generalizing acc with
    | nil => simp
    | cons n ns ih =>
      rw [List.foldl_cons, ih, mem_insertAscending, List.mem_cons, or_assoc]
      exact or_left_comm
  rw [ascending, hacc]
  simp

theorem ascends_ascending (ns : List Nat) : Ascends (ascending ns) := by
  have hacc (acc : List Nat) (h : Ascends acc) :
      Ascends (ns.foldl (fun acc n => insertAscending n acc) acc) := by
    induction ns generalizing acc with
    | nil => exact h
    | cons n ns ih => exact ih _ (ascends_insertAscending n h)
  exact hacc [] .nil

/-- What stands in order stays as it is. -/
theorem ascending_eq {ns : List Nat} (h : Ascends ns) : ascending ns = ns :=
  (ascends_ascending ns).eq_of_mem_iff h fun _ => mem_ascending

namespace Expansion

variable {e : Expansion} {p : Nat}

@[simp] theorem mem_expand {pos : Nat} : p ∈ (e.expand pos).positions ↔ p = pos ∨ p ∈ e.positions :=
  mem_insertAscending

@[simp] theorem mem_collapse {pos : Nat} :
    p ∈ (e.collapse pos).positions ↔ p ∈ e.positions ∧ p ≠ pos := by
  simp [collapse]

/-- The positions after a refresh are those before it, moved back by as much as the table has grown,
as far as they are still in it. -/
theorem mem_reindex {total : Nat} : p ∈ (e.reindex total).positions ↔
    ∃ q ∈ e.positions, q + (total - e.lastTotal) = p ∧ p < total := by
  simp only [reindex, List.mem_filter, List.mem_map, decide_eq_true_eq]
  constructor
  · rintro ⟨⟨q, hq, hp⟩, hlt⟩
    exact ⟨q, hq, hp, hlt⟩
  · rintro ⟨q, hq, hp, hlt⟩
    exact ⟨⟨q, hq, hp⟩, hlt⟩

theorem ascends_expand (pos : Nat) (h : Ascends e.positions) : Ascends (e.expand pos).positions :=
  ascends_insertAscending pos h

theorem ascends_collapse (pos : Nat) (h : Ascends e.positions) :
    Ascends (e.collapse pos).positions :=
  h.filter _

theorem ascends_reindex (total : Nat) (h : Ascends e.positions) :
    Ascends (e.reindex total).positions := by
  refine List.Pairwise.filter _ (List.pairwise_map.mpr (h.imp fun hlt => ?_))
  omega

/-- A refresh gives up the positions where there was no row. -/
theorem reindex_inRange (e : Expansion) (total : Nat) : (e.reindex total).positions =
    ((e.positions.filter (· < e.lastTotal)).map (· + (total - e.lastTotal))).filter (· < total) := by
  simp only [reindex, List.filter_map, List.filter_filter]
  refine congrArg _ (List.filter_congr fun p _ => ?_)
  have himp : p + (total - e.lastTotal) < total → p < e.lastTotal := by omega
  simpa using himp

/-- A refresh keeps the positions where there is a row before it as well as after it, and moves them all alike. -/
theorem reindex_positions (e : Expansion) (total : Nat) : (e.reindex total).positions =
    (e.positions.filter (· < min e.lastTotal total)).map (· + (total - e.lastTotal)) := by
  unfold reindex
  rw [List.filter_map]
  refine congrArg _ (List.filter_congr fun p _ => decide_eq_decide.mpr ?_)
  change p + (total - e.lastTotal) < total ↔ p < min e.lastTotal total
  omega

/-- A table of `t` rows, then of `a`, then of `b` does not shrink after it has grown, or grow after it has
shrunk. -/
def OneWay (t a b : Nat) : Prop := t ≤ a ∧ a ≤ b ∨ b ≤ a ∧ a ≤ t

/-- A refresh that is passed over leaves no trace, as long as the table goes one way. -/
theorem reindex_reindex {a b : Nat} (h : OneWay e.lastTotal a b) : (e.reindex a).reindex b = e.reindex b := by
  have hpositions : ((e.reindex a).reindex b).positions = (e.reindex b).positions := by
    rw [reindex_positions, reindex_positions, reindex_positions, List.filter_map, List.filter_filter, List.map_map]
    -- A position is in range at both refreshes just where it is at the second by itself.
    have hrows : e.positions.filter
        (fun p => decide (p + (a - e.lastTotal) < min a b) && decide (p < min e.lastTotal a)) =
        e.positions.filter (· < min e.lastTotal b) := by
      refine List.filter_congr fun p _ => ?_
      rw [← Bool.decide_and, decide_eq_decide]
      unfold OneWay at h
      omega
    have hmoves : ∀ p, p + (a - e.lastTotal) + (b - a) = p + (b - e.lastTotal) := by
      intro p
      unfold OneWay at h
      omega
    exact congrArg₂ List.map (funext hmoves) hrows
  exact congrArg (Expansion.mk · b) hpositions

/-- Of refreshes one after another only the last one counts, as long as the table goes one way. -/
theorem foldl_reindex {totals : List Nat} {b : Nat}
    (h : (e.lastTotal :: (totals ++ [b])).Pairwise (· ≤ ·) ∨ (e.lastTotal :: (totals ++ [b])).Pairwise (· ≥ ·)) :
    (totals ++ [b]).foldl reindex e = e.reindex b := by
  induction totals generalizing e with
  | nil => rfl
  | cons a totals ih =>
    have hrest : (a :: (totals ++ [b])).Pairwise (· ≤ ·) ∨ (a :: (totals ++ [b])).Pairwise (· ≥ ·) :=
      h.imp List.Pairwise.of_cons List.Pairwise.of_cons
    have hway : OneWay e.lastTotal a b := by
      refine h.imp (fun h => ?_) fun h => ?_
      · simp only [List.cons_append, List.pairwise_cons] at h
        exact ⟨h.1 a (by simp), h.2.1 b (by simp)⟩
      · simp only [List.cons_append, List.pairwise_cons] at h
        exact ⟨h.2.1 b (by simp), h.1 a (by simp)⟩
    rw [List.cons_append, List.foldl_cons, ih hrest, reindex_reindex hway]

/-- What a refresh to `total` rows makes of expanded positions. -/
structure Refreshed (e e' : Expansion) (total : Nat) : Prop where
  rows : e'.lastTotal = total
  ascends : Ascends e'.positions
  inRange : ∀ p ∈ e'.positions, p < total
  /-- A table that has grown gives up what was beyond its last row, and moves the rest by its growth. -/
  grown : e.lastTotal < total → e'.positions =
    (e.positions.filter (· < e.lastTotal)).map (· + (total - e.lastTotal))
  /-- Any other table gives up what is beyond its last row now. -/
  notGrown : total ≤ e.lastTotal → e'.positions = e.positions.filter (· < total)

theorem refreshed (h : Ascends e.positions) (total : Nat) : Refreshed e (e.reindex total) total where
  rows := rfl
  ascends := ascends_reindex total h
  inRange p hp := by
    obtain ⟨q, -, -, hlt⟩ := mem_reindex.mp hp
    exact hlt
  grown hlt := by rw [reindex_positions, min_eq_left hlt.le]
  notGrown hle := by
    have hstay : total - e.lastTotal = 0 := by omega
    rw [reindex_positions, min_eq_right hle, hstay]
    exact List.map_id _

/-- Each refresh tells what becomes of the expanded positions, and it makes no difference to them whether the
refreshes before it were passed over, as long as the table went one way. -/
theorem reindex_passedOver (h : Ascends e.positions) :
    (∀ a b, OneWay e.lastTotal a b → (e.reindex a).reindex b = e.reindex b) ∧
      ∀ total, Refreshed e (e.reindex total) total :=
  ⟨fun _ _ hway => reindex_reindex hway, refreshed h⟩

/-- A position beyond the last row is given up at the first of two refreshes, or else at the second. -/
theorem reindex_passedOver_beyond :
    let e : Expansion := ⟨[1, 3, 12], 10⟩
    Ascends e.positions ∧ OneWay e.lastTotal 12 15 ∧ (e.reindex 12).reindex 15 = e.reindex 15 ∧
      (e.reindex 15).positions = [6, 8] := by
  intro e
  have h : Ascends e.positions := by decide
  have hway : OneWay e.lastTotal 12 15 := .inl (by decide)
  exact ⟨h, hway, (reindex_passedOver h).1 12 15 hway, ((reindex_passedOver h).2 15).grown (by decide)⟩

end Expansion

end LogDesk
