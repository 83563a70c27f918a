import LogDesk.Proofs.Metronome.Timetable
import LogDesk.Proofs.Metronome.Turns

/-! One loop after another. What is known of all ticks at a time, with the loops by number and with the
time of their start, and how each turn of the loop keeps it. -/

namespace LogDesk.Metronome

def Apart (y x : Tick) : Prop := ∃ t, x.fate.time? = some t ∧ t ≤ y.began

/-- How far a loop has got, by the ticks that it is done with and the one under way. -/
def Course (period now start l : Nat) (own : List Tick) (current : Option Tick) : Phase → Prop
  | .fresh => current = none ∧ own = [] ∧ now = start
  | .idle due => current = none ∧ due = nextDue period start own ∧ free start own ≤ now ∧
      now ≤ max due (free start own) ∧ ∀ y ∈ own.head?, y.fate = .ended y.till
  | .ticking next till _ => ∃ x, current = some x ∧ x.loop = l ∧ x.till = till ∧
      next = nextDue period start (x :: own)
  | .over => False

/-- All loops that have been started are `opened`, each with the time of its start. The one that has not
ended has the tick under way, if there is one. -/
structure Loops (period now : Nat) (opened : List (Nat × Nat)) (loop : Option Loop) (current : Option Tick)
    (past : List Tick) : Prop where
  owned : ∀ x ∈ current.toList ++ past, ∃ start, (x.loop, start) ∈ opened
  onTime : ∀ o ∈ opened, OnTime period o.2 (ofLoop o.1 (current.toList ++ past))
  apart : (current.toList ++ past).Pairwise Apart
  closed : ∀ x ∈ past, ∃ t, x.fate.time? = some t ∧ t ≤ now
  ended : ∀ x ∈ past, ∀ t, x.fate = .ended t → t = x.till
  underway : ∀ x ∈ current, x.fate = .underway ∧ now ≤ x.till
  started : ∀ L ∈ loop, ∃ start, (L.task, start) ∈ opened
  course : ∀ L ∈ loop, ∀ start, (L.task, start) ∈ opened →
    Course period now start L.task (ofLoop L.task past) current L.phase
  idle : loop = none → current = none
  begun : ∀ o ∈ opened, (∀ L ∈ loop, L.task ≠ o.1) → ofLoop o.1 (current.toList ++ past) ≠ []

section
variable {period now : Nat} {opened : List (Nat × Nat)} {loop : Option Loop} {current : Option Tick}
  {past : List Tick} {l : Nat} {label : String} {told : Bool}

theorem ofLoop_cons (l : Nat) (x : Tick) (xs : List Tick) :
    ofLoop l (x :: xs) = if x.loop = l then x :: ofLoop l xs else ofLoop l xs := by
  simp [ofLoop, List.filter_cons]

/-- What has become of a tick has nothing to do with when those of a loop began. -/
theorem onTime_ofLoop {start : Nat} {x : Tick} {xs : List Tick} (fate : Fate)
    (h : OnTime period start (ofLoop l (x :: xs))) : OnTime period start (ofLoop l ({ x with fate } :: xs)) := by
  rw [ofLoop_cons] at h ⊢
  split at h
  next hl =>
    rw [if_pos hl]
    exact (onTime_fate fate).mpr h
  next hl =>
    rw [if_neg hl]
    exact h

theorem ofLoop_fate {x : Tick} {xs : List Tick} (fate : Fate) (h : ofLoop l (x :: xs) ≠ []) :
    ofLoop l ({ x with fate } :: xs) ≠ [] := by
  rw [ofLoop_cons] at h ⊢
  split at h
  next hl =>
    rw [if_pos hl]
    exact List.cons_ne_nil _ _
  next hl =>
    rw [if_neg hl]
    exact h

/-- A tick that is over joins those before it. -/
theorem Loops.close {x : Tick} (fate : Fate) (h : Loops period now opened loop (some x) past)
    (hf : fate.time? = some now) (he : fate = .ended now → now = x.till) :
    (∀ y ∈ { x with fate } :: past, ∃ start, (y.loop, start) ∈ opened) ∧
      (∀ o ∈ opened, OnTime period o.2 (ofLoop o.1 ({ x with fate } :: past))) ∧
      ({ x with fate } :: past).Pairwise Apart ∧
      (∀ y ∈ { x with fate } :: past, ∃ t, y.fate.time? = some t ∧ t ≤ now) ∧
      ∀ y ∈ { x with fate } :: past, ∀ t, y.fate = .ended t → t = y.till := by
  refine ⟨?_, fun o ho => onTime_ofLoop fate (h.onTime o ho), ?_, ?_, ?_⟩
  · exact List.forall_mem_cons.mpr (List.forall_mem_cons.mp h.owned)
  · obtain ⟨hx, hpast⟩ := List.pairwise_cons.mp h.apart
    exact List.pairwise_cons.mpr ⟨hx, hpast⟩
  · exact List.forall_mem_cons.mpr ⟨⟨now, hf, Nat.le_refl _⟩, h.closed⟩
  · refine List.forall_mem_cons.mpr ⟨fun t ht => ?_, h.ended⟩
    obtain rfl : fate = .ended t := ht
    obtain rfl : t = now := by simpa [Fate.time?] using hf
    exact he rfl

theorem Loops.open {l : Nat} (h : Loops period now opened none current past) (hl : ∀ o ∈ opened, o.1 ≠ l)
    (label : String) : Loops period now ((l, now) :: opened) (some (.fresh l label)) current past := by
  obtain rfl := h.idle rfl
  have hnew : ∀ xs : List Tick, (∀ x ∈ xs, ∃ start, (x.loop, start) ∈ opened) → ofLoop l xs = [] := by
    intro xs hxs
    refine List.filter_eq_nil_iff.mpr fun x hx => ?_
    obtain ⟨start, ho⟩ := hxs x hx
    simpa using hl _ ho
  refine ⟨?_, ?_, h.apart, h.closed, h.ended, h.underway, ?_, ?_, by simp, ?_⟩
  · intro x hx
    obtain ⟨start, ho⟩ := h.owned x hx
    exact ⟨start, List.mem_cons_of_mem _ ho⟩
  · refine List.forall_mem_cons.mpr ⟨?_, h.onTime⟩
    rw [hnew _ h.owned]
    trivial
  · rintro L ⟨⟩
    exact ⟨now, List.mem_cons_self⟩
  · rintro L ⟨⟩ start ho
    refine ⟨rfl, hnew past h.owned, ?_⟩
    rcases List.mem_cons.mp ho with ho | ho
    · cases ho
      rfl
    · exact absurd rfl (hl _ ho)
  · refine List.forall_mem_cons.mpr ⟨fun hno => absurd rfl (hno _ rfl), fun o ho _ => ?_⟩
    exact h.begun o ho (by simp)

/-- The loop goes on with another phase, and has no tick more and none less. -/
theorem Loops.turn {L : Loop} {told : Bool} {phase : Phase} (h : Loops period now opened (some L) current past)
    (hcourse : ∀ start, (L.task, start) ∈ opened →
      Course period now start L.task (ofLoop L.task past) current phase) :
    Loops period now opened (some { L with told, phase }) current past := by
  refine { h with started := ?_, course := ?_, idle := by simp, begun := fun o ho hno => ?_ }
  · rintro L' ⟨⟩
    exact h.started L rfl
  · rintro L' ⟨⟩
    exact hcourse
  · have hne := hno _ rfl
    refine h.begun o ho ?_
    rintro L' ⟨⟩
    exact hne

/-- Time passes while the loop has nothing to do. -/
theorem Loops.wait {ms : Nat} (h : Loops period now opened loop current past)
    (hcalm : ∀ L ∈ loop, L.phase ≠ .fresh ∧ (∀ due, L.phase = .idle due → now + ms ≤ due) ∧
      ∀ next till work, L.phase = .ticking next till work → now + ms ≤ till) :
    Loops period (now + ms) opened loop current past := by
  refine { h with closed := ?_, underway := ?_, course := ?_ }
  · intro x hx
    obtain ⟨t, ht, hle⟩ := h.closed x hx
    exact ⟨t, ht, Nat.le_add_right_of_le hle⟩
  · intro x hx
    refine ⟨(h.underway x hx).1, ?_⟩
    cases loop with
    | none =>
      rw [h.idle rfl] at hx
      cases hx
    | some L =>
      obtain ⟨start, ho⟩ := h.started L rfl
      have hcourse := h.course L rfl start ho
      obtain ⟨-, -, hticking⟩ := hcalm L rfl
      cases hphase : L.phase with
      | fresh | idle =>
        rw [hphase] at hcourse
        rw [hcourse.1] at hx
        cases hx
      | ticking next till work =>
        rw [hphase] at hcourse
        obtain ⟨x', hx', -, rfl, -⟩ := hcourse
        cases hx'.symm.trans hx
        exact hticking _ _ _ hphase
      | «over» =>
        rw [hphase] at hcourse
        exact hcourse.elim
  · intro L hL start ho
    have hcourse := h.course L hL start ho
    obtain ⟨hfresh, hidle, -⟩ := hcalm L hL
    cases hphase : L.phase with
    | fresh => exact absurd hphase hfresh
    | idle due =>
      rw [hphase] at hcourse
      obtain ⟨hnone, hdue, hfree, hnow, hended⟩ := hcourse
      have hle := hidle due hphase
      exact ⟨hnone, hdue, by omega, by omega, hended⟩
    | ticking | «over» =>
      rw [hphase] at hcourse
      exact hcourse

theorem Loops.settle (h : Loops period now opened (some ⟨l, label, told, .fresh⟩) current past) :
    Loops period now opened (some ⟨l, label, told, .idle now⟩) current past := by
  refine h.turn fun start ho => ?_
  obtain ⟨hnone, hown, hnow⟩ : _ ∧ _ ∧ _ := h.course _ rfl start ho
  dsimp only at hown ⊢
  rw [hown]
  exact ⟨hnone, hnow, by simp [free, hnow], Nat.le_max_left _ _, by simp⟩

/-- Between its ticks a loop has none under way. -/
theorem Loops.none_of_idle {due : Nat} (h : Loops period now opened (some ⟨l, label, told, .idle due⟩) current past) :
    current = none := by
  obtain ⟨start, ho⟩ := h.started _ rfl
  exact (h.course _ rfl start ho).1

/-- A tick begins as soon as it is due and the one before has ended. -/
theorem Loops.tick {due till : Nat} {work : String × Nat} (hd : due ≤ now) (ht : now ≤ till)
    (h : Loops period now opened (some ⟨l, label, told, .idle due⟩) current past) :
    Loops period now opened
      (some ⟨l, label, told, .ticking ((program period).nextTick now due) till work⟩)
      (some ⟨l, now, till, .underway⟩) past := by
  obtain rfl := h.none_of_idle
  have hcourse (start : Nat) (ho : (l, start) ∈ opened) :
      Course period now start l (ofLoop l past) none (.idle due) := h.course _ rfl start ho
  obtain ⟨start₀, ho₀⟩ : ∃ start, (l, start) ∈ opened := h.started _ rfl
  refine ⟨?_, ?_, ?_, h.closed, h.ended, ?_, ?_, ?_, by simp, ?_⟩
  · exact List.forall_mem_cons.mpr ⟨⟨start₀, ho₀⟩, h.owned⟩
  · rintro ⟨l', start⟩ ho
    have honTime := h.onTime _ ho
    change OnTime period start (ofLoop l' (_ :: past))
    rw [ofLoop_cons]
    split
    next hl =>
      obtain rfl : l = l' := hl
      obtain ⟨-, hdue, hfree, hnow, hended⟩ := hcourse start ho
      exact ⟨honTime, by dsimp only; omega, ht, hended⟩
    next => exact honTime
  · exact List.pairwise_cons.mpr ⟨fun x hx => h.closed x hx, h.apart⟩
  · rintro x ⟨⟩
    exact ⟨rfl, ht⟩
  · rintro L ⟨⟩
    exact ⟨start₀, ho₀⟩
  · rintro L ⟨⟩ start ho
    obtain ⟨-, hdue, -⟩ := hcourse start ho
    exact ⟨_, rfl, rfl, rfl, by rw [nextDue, ← hdue]⟩
  · intro o ho hno
    have hne := hno _ rfl
    have hbegun := h.begun o ho (by rintro L ⟨⟩; exact hne)
    change ofLoop o.1 (_ :: past) ≠ []
    rw [ofLoop_cons]
    split
    · exact List.cons_ne_nil _ _
    · exact hbegun

/-- A tick ends on time, and the loop waits until the next one is due. -/
theorem Loops.tock {next till : Nat} {work : String × Nat} (ht : till ≤ now)
    (h : Loops period now opened (some ⟨l, label, told, .ticking next till work⟩) current past) :
    ∃ x, current = some x ∧ x.loop = l ∧ x.till = now ∧
      Loops period now opened (some ⟨l, label, told, .idle next⟩) none
        ({ x with fate := .ended now } :: past) := by
  obtain ⟨start₀, ho₀⟩ : ∃ start, (l, start) ∈ opened := h.started _ rfl
  obtain ⟨x, rfl, rfl, rfl, -⟩ := h.course _ rfl start₀ ho₀
  have hnow : now = x.till := Nat.le_antisymm (h.underway x rfl).2 ht
  obtain ⟨howned, honTime, hapart, hclosed, hended⟩ := h.close (.ended now) rfl fun _ => hnow
  refine ⟨x, rfl, rfl, hnow.symm, howned, honTime, hapart, hclosed, hended, by simp, ?_, ?_, by simp, ?_⟩
  · rintro L ⟨⟩
    exact ⟨start₀, ho₀⟩
  · rintro L ⟨⟩ start ho
    obtain ⟨x', hx', -, -, hnext⟩ := h.course _ rfl start ho
    cases hx'
    dsimp only at hnext ⊢
    rw [ofLoop_cons, if_pos rfl]
    refine ⟨rfl, hnext, ht, hnow.trans_le (Nat.le_max_right _ _), ?_⟩
    rintro y ⟨⟩
    exact congrArg Fate.ended hnow
  · intro o ho hno
    have hne := hno _ rfl
    exact ofLoop_fate _ (h.begun o ho (by rintro L ⟨⟩; exact hne))

/-- A tick under way is one of the loop. -/
theorem Loops.ticking {x : Tick} (h : Loops period now opened loop (some x) past) :
    ∃ L next work, loop = some L ∧ x.loop = L.task ∧ L.phase = .ticking next x.till work := by
  cases loop with
  | none => cases h.idle rfl
  | some L =>
    obtain ⟨start, ho⟩ := h.started L rfl
    have hcourse := h.course L rfl start ho
    cases hphase : L.phase with
    | fresh | idle =>
      rw [hphase] at hcourse
      cases hcourse.1
    | ticking next till work =>
      rw [hphase] at hcourse
      obtain ⟨_, hx, hl, rfl, -⟩ := hcourse
      cases hx
      exact ⟨L, next, work, rfl, hl, hphase⟩
    | «over» =>
      rw [hphase] at hcourse
      exact hcourse.elim

/-- The loop ends between two ticks. -/
theorem Loops.quit {L : Loop} (h : Loops period now opened (some L) none past)
    (hbegun : ofLoop L.task past ≠ []) : Loops period now opened none none past := by
  refine { h with started := by simp, course := by simp, idle := fun _ => rfl, begun := fun o ho _ => ?_ }
  by_cases hl : L.task = o.1
  · rw [← hl]
    exact hbegun
  · exact h.begun o ho (by rintro L' ⟨⟩; exact hl)

/-- The loop is broken off in a tick. -/
theorem Loops.abort {L : Loop} {x : Tick} (h : Loops period now opened (some L) (some x) past)
    (hbegun : ofLoop L.task (x :: past) ≠ []) :
    Loops period now opened none none ({ x with fate := .aborted now } :: past) := by
  obtain ⟨howned, honTime, hapart, hclosed, hended⟩ := h.close (.aborted now) rfl (by simp)
  refine ⟨howned, honTime, hapart, hclosed, hended, by simp, by simp, by simp, fun _ => rfl, fun o ho _ => ?_⟩
  refine ofLoop_fate _ ?_
  by_cases hl : L.task = o.1
  · rw [← hl]
    exact hbegun
  · exact h.begun o ho (by rintro L' ⟨⟩; exact hl)

end

end LogDesk.Metronome
