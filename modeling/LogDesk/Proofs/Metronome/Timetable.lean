import LogDesk.Proofs.Metronome.Run

/-! When the ticks of one loop begin. The first one begins with the loop; each later one when it is due,
or, where the tick before takes longer than that, when that tick has ended. -/

namespace LogDesk.Metronome

variable {period start : Nat}

def nextDue (period start : Nat) : List Tick → Nat
  | [] => start
  | x :: earlier => (program period).nextTick x.began (nextDue period start earlier)

def free (start : Nat) (xs : List Tick) : Nat := (xs.head?.map (·.till)).getD start

/-- The ticks of a loop, the latest first, begin as soon as they are due and the loop is free. -/
def OnTime (period start : Nat) : List Tick → Prop
  | [] => True
  | x :: earlier => OnTime period start earlier ∧
      x.began = max (nextDue period start earlier) (free start earlier) ∧ x.began ≤ x.till ∧
      ∀ y ∈ earlier.head?, y.fate = .ended y.till

def beats (period start n : Nat) : List Nat := (List.range n).map (start + · * period)

theorem nextTick_eq (now due : Nat) : (program period).nextTick now due =
    if due + 5 < now then now + period else due + period := rfl

/-- Whatever becomes of the latest tick changes nothing about when it began. -/
theorem onTime_fate {x : Tick} {earlier : List Tick} (fate : Fate) :
    OnTime period start ({ x with fate } :: earlier) ↔ OnTime period start (x :: earlier) := Iff.rfl

/-- The next tick is due less than a period after this one, but not by more than 5 ms. -/
theorem OnTime.nextDue_bounds {x : Tick} {earlier : List Tick} (h : OnTime period start (x :: earlier)) :
    x.began + period ≤ nextDue period start (x :: earlier) + 5 ∧
      nextDue period start (x :: earlier) ≤ x.began + period := by
  obtain ⟨-, hbegan, -, -⟩ := h
  have hdue : nextDue period start earlier ≤ x.began := by rw [hbegan]; exact Nat.le_max_left _ _
  rw [nextDue, nextTick_eq]
  split <;> omega

theorem OnTime.apart {xs : List Tick} (h : OnTime period start xs) :
    xs.IsChain fun y x => x.began + period ≤ y.began + 5 ∧ x.fate = .ended x.till ∧ x.till ≤ y.began := by
  induction xs with
  | nil => exact .nil
  | cons y xs ih =>
    cases xs with
    | nil => exact .singleton y
    | cons x earlier =>
      obtain ⟨hxs, hbegan, -, hended⟩ := h
      refine .cons_cons ⟨?_, hended x rfl, ?_⟩ (ih hxs)
      · have hnext := hxs.nextDue_bounds.1
        omega
      · rw [hbegan]
        exact Nat.le_max_right _ _

/-- The first tick begins with the loop. -/
theorem OnTime.first {xs : List Tick} (h : OnTime period start xs) {x : Tick} (hx : xs.getLast? = some x) :
    x.began = start := by
  induction xs with
  | nil => cases hx
  | cons y earlier ih =>
    cases earlier with
    | nil =>
      obtain rfl : y = x := by simpa using hx
      simpa [nextDue, free] using h.2.1
    | cons z earlier => exact ih h.1 (by simpa using hx)

/-- With no tick longer than a period, none is ever late. -/
theorem OnTime.punctual {xs : List Tick} (h : OnTime period start xs)
    (hshort : ∀ x ∈ xs, x.till ≤ x.began + period) :
    nextDue period start xs = start + xs.length * period ∧ free start xs ≤ nextDue period start xs ∧
      xs.map (·.began) = (beats period start xs.length).reverse := by
  induction xs with
  | nil => simp [nextDue, free, beats]
  | cons x earlier ih =>
    obtain ⟨hdue, hfree, hbeats⟩ := ih h.1 fun y hy => hshort y (List.mem_cons_of_mem x hy)
    have hbegan : x.began = start + earlier.length * period := by
      rw [h.2.1, Nat.max_eq_left hfree, hdue]
    have hnext : nextDue period start (x :: earlier) = start + (x :: earlier).length * period := by
      rw [nextDue, nextTick_eq, hdue, hbegan, if_neg (by omega), List.length_cons, Nat.succ_mul, Nat.add_assoc]
    refine ⟨hnext, ?_, ?_⟩
    · have hx := hshort x List.mem_cons_self
      rw [hnext, List.length_cons, Nat.succ_mul]
      simp only [free, List.head?_cons, Option.map_some, Option.getD_some]
      omega
    · rw [List.map_cons, hbeats, hbegan, beats, beats, List.length_cons, List.range_succ, List.map_append,
        List.reverse_append]
      rfl

end LogDesk.Metronome
