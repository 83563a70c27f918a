import LogDesk.Proofs.Metronome.Loops

/-! One call after another. When each of them returns, what has become of the tick that it found under way,
and how each turn keeps this. -/

namespace LogDesk.Metronome

open Tasks (haltTimeout)

/-- What has become of the tick that a call found under way: it ended in time, or it was broken off. -/
def Spent (c : Call) (past : List Tick) : Prop :=
  ∀ x, c.busy = some x →
    (x.till ≤ c.asked + haltTimeout ∧ { x with fate := .ended x.till } ∈ past) ∨
      (c.asked + haltTimeout ≤ x.till ∧ { x with fate := .aborted (c.asked + haltTimeout) } ∈ past)

structure Done (c : Call) (past : List Tick) : Prop where
  started : c.loop.isSome = c.errand.isStart
  spent : Spent c past

/-- A call that has not got the timer yet, and the tick that it waits for. -/
structure Awaits (now : Nat) (loop : Option Loop) (current : Option Tick) (past : List Tick) (c : Call) :
    Prop where
  opened : c.loop = none
  early : now ≤ c.due
  busy : ∀ x ∈ current, c.busy = some x
  calm : current = none → now = c.due ∧
    ∀ x, c.busy = some x → x.till ≤ c.asked + haltTimeout ∧ { x with fate := .ended x.till } ∈ past
  begun : ∀ L ∈ loop, ofLoop L.task (current.toList ++ past) ≠ []

def Stands (now : Nat) (loop : Option Loop) (current : Option Tick) (past : List Tick) (c : Call) : Stand → Prop
  | .asked e | .queued e => c.errand = e ∧ now = c.asked ∧ (∀ L ∈ loop, wavers now L.entry = false) ∧
      Awaits now loop current past c
  | .halting e _ deadline => c.errand = e ∧ deadline = c.asked + haltTimeout ∧ Awaits now loop current past c
  | .leaving _ => now = c.due ∧ Done c past ∧ (c.errand = .stop → loop = none)

/-- All calls have returned but the latest one, which stands where it stands. After a stop there is no
loop. -/
def Pends (now : Nat) (loop : Option Loop) (current : Option Tick) (past : List Tick) :
    Option (Nat × Stand) → List Call → Prop
  | none, cs => (∀ c ∈ cs, c.returned.isSome = true) ∧ ∀ c ∈ cs.head?, c.errand = .stop → loop = none
  | some (i, stand), cs => ∃ c rest, cs = c :: rest ∧ c.task = i ∧ c.returned = none ∧
      (∀ c' ∈ rest, c'.returned.isSome = true) ∧ Stands now loop current past c stand

structure Answers (now : Nat) (call : Option (Nat × Stand)) (loop : Option Loop) (current : Option Tick)
    (past : List Tick) (cs : List Call) : Prop where
  returned : ∀ c ∈ cs, ∀ t, c.returned = some t → t = c.due ∧ Done c past
  /-- A tick is broken off by a call that has waited for it for so long. -/
  aborted : ∀ x ∈ past, ∀ t, x.fate = .aborted t →
    ∃ c ∈ cs, c.busy = some { x with fate := .underway } ∧ t = c.asked + haltTimeout ∧ t ≤ x.till
  pends : Pends now loop current past call cs

def opened (cs : List Call) : List (Nat × Nat) := cs.filterMap fun c => c.loop.map (·, c.due)

section
variable {now i l deadline : Nat} {call : Option (Nat × Stand)} {loop : Option Loop} {current : Option Tick}
  {past : List Tick} {cs rest : List Call} {c : Call} {e : Errand} {L : Loop} {label : String} {told : Bool}

/-- What a call has come to stays so. -/
theorem Done.mono (h : Done c past) {past' : List Tick} (hkeep : past ⊆ past') : Done c past' :=
  ⟨h.started, fun x hx => (h.spent x hx).imp (And.imp_right (hkeep ·)) (And.imp_right (hkeep ·))⟩

theorem Call.due_le (c : Call) : c.due ≤ c.asked + haltTimeout := by
  unfold due
  split
  · exact Nat.le_add_right _ _
  · exact Nat.min_le_right _ _

theorem Call.due_busy {x : Tick} (h : c.busy = some x) : c.due = min x.till (c.asked + haltTimeout) := by
  rw [due, h]

/-- What is done to a loop leaves its call where it stands. -/
theorem Stands.imp {loop' : Option Loop} {current' : Option Tick} {past' : List Tick} {stand : Stand}
    (h : Stands now loop current past c stand)
    (hcalm : (∀ L ∈ loop, wavers now L.entry = false) → ∀ L ∈ loop', wavers now L.entry = false)
    (hwaits : Awaits now loop current past c → Awaits now loop' current' past' c) (hkeep : past ⊆ past')
    (hnone : loop = none → loop' = none) : Stands now loop' current' past' c stand := by
  cases stand with
  | asked e | queued e => exact ⟨h.1, h.2.1, hcalm h.2.2.1, hwaits h.2.2.2⟩
  | halting e l deadline => exact ⟨h.1, h.2.1, hwaits h.2.2⟩
  | leaving answer => exact ⟨h.1, h.2.1.mono hkeep, fun he => hnone (h.2.2 he)⟩

theorem Pends.imp {now' : Nat} {loop' : Option Loop} {current' : Option Tick} {past' : List Tick}
    (h : Pends now loop current past call cs) (hnone : loop = none → loop' = none)
    (hs : ∀ i stand c, call = some (i, stand) → Stands now loop current past c stand →
      Stands now' loop' current' past' c stand) : Pends now' loop' current' past' call cs := by
  match call, h with
  | none, h => exact ⟨h.1, fun c hc he => hnone (h.2 c hc he)⟩
  | some (i, stand), ⟨c, rest, hcs, hi, hret, hrest, h⟩ =>
    exact ⟨c, rest, hcs, hi, hret, hrest, hs i stand c rfl h⟩

/-- A call need not wait any longer, and no tick but the one that it waits for has been broken off. -/
structure Ends (now : Nat) (past past' : List Tick) (c : Call) : Prop where
  time : now = c.due
  spent : Spent c past'
  kept : past ⊆ past'
  aborted : ∀ x ∈ past', ∀ t, x.fate = .aborted t →
    x ∈ past ∨ c.busy = some { x with fate := .underway } ∧ t = c.asked + haltTimeout ∧ t ≤ x.till

/-- A call goes on when the tick that it found under way has ended. -/
theorem Awaits.ends (h : Awaits now loop none past c) : Ends now past past c where
  time := (h.calm rfl).1
  spent x hx := .inl ((h.calm rfl).2 x hx)
  kept := List.Subset.refl _
  aborted _ hx _ _ := .inl hx

/-- A call goes on when it has waited for long enough. -/
theorem Awaits.breaks {x : Tick} (h : Awaits now loop (some x) past c) (hx : x.fate = .underway)
    (hnow : now ≤ x.till) (hd : c.asked + haltTimeout ≤ now) :
    Ends now past ({ x with fate := .aborted now } :: past) c := by
  have hbusy := h.busy x rfl
  have hdue := Call.due_busy hbusy
  have hearly := h.early
  have hle := c.due_le
  have he : now = c.asked + haltTimeout := by omega
  refine ⟨by omega, fun y hy => .inr ?_, List.subset_cons_self _ _, fun y hy t ht => ?_⟩
  · obtain rfl : x = y := Option.some.inj (hbusy.symm.trans hy)
    rw [← he]
    exact ⟨hnow, List.mem_cons_self⟩
  · rcases List.mem_cons.mp hy with rfl | hy
    · refine .inr ⟨?_, ?_, ?_⟩
      · rw [hbusy, ← hx]
      · cases ht
        exact he
      · cases ht
        exact hnow
    · exact .inl hy

/-- A call that is made when no loop has a choice. -/
theorem Answers.ask {period : Nat} {os : List (Nat × Nat)} (h : Answers now none loop current past cs)
    (hloops : Loops period now os loop current past) (hcalm : ∀ L ∈ loop, wavers now L.entry = false) (i : Nat)
    (e : Errand) : Answers now (some (i, .asked e)) loop current past
      ({ task := i, errand := e, asked := now, busy := current } :: cs) := by
  refine ⟨?_, ?_, _, cs, rfl, rfl, rfl, h.pends.1, rfl, rfl, hcalm, rfl, ?_, ?_, ?_, ?_⟩
  · refine List.forall_mem_cons.mpr ⟨?_, h.returned⟩
    rintro t ⟨⟩
  · intro x hx t ht
    obtain ⟨c, hc, h⟩ := h.aborted x hx t ht
    exact ⟨c, List.mem_cons_of_mem _ hc, h⟩
  · cases current with
    | none => exact Nat.le_refl _
    | some x => exact Nat.le_min.mpr ⟨(hloops.underway x rfl).2, Nat.le_add_right _ _⟩
  · intro x hx
    exact hx
  · rintro rfl
    exact ⟨rfl, by simp⟩
  · intro L hL hnone
    obtain ⟨start, ho⟩ := hloops.started L hL
    have hcourse := hloops.course L hL start ho
    have hw := hcalm L hL
    obtain ⟨-, hpast⟩ : ofLoop L.task current.toList = [] ∧ ofLoop L.task past = [] := by
      simpa [ofLoop, List.filter_append] using hnone
    unfold Loop.entry wavers at hw
    cases hphase : L.phase with
    | fresh =>
      rw [hphase] at hw
      cases hw
    | idle due =>
      rw [hphase] at hw hcourse
      obtain ⟨-, hdue, hfree, hnow, -⟩ := hcourse
      rw [hpast] at hdue hfree hnow
      simp only [nextDue, free, List.head?_nil, Option.map_none, Option.getD_none] at hdue hfree hnow
      have hw' : ¬due ≤ now := by simpa using hw
      omega
    | ticking next till work =>
      rw [hphase] at hcourse
      obtain ⟨x, rfl, hx, -⟩ := hcourse
      change ofLoop L.task (x :: past) = [] at hnone
      rw [ofLoop_cons, if_pos hx] at hnone
      cases hnone
    | «over» =>
      rw [hphase] at hcourse
      exact hcourse

/-- A call takes the loop out of the slot and waits. -/
theorem Answers.halt (h : Answers now (some (i, .queued e)) (some L) current past cs) :
    Answers now (some (i, .halting e L.task (now + haltTimeout))) (some { L with told := true }) current past
      cs := by
  obtain ⟨c, rest, hcs, hi, hret, hrest, he, hnow, -, hw⟩ := h.pends
  refine ⟨h.returned, h.aborted, c, rest, hcs, hi, hret, hrest, he, by rw [← hnow], { hw with begun := ?_ }⟩
  rintro L' ⟨⟩
  exact hw.begun L rfl

theorem Answers.leave {past' : List Tick} {loop' : Option Loop} {started : Option Nat} {answer : Bool}
    (h : Answers now call loop current past (c :: rest)) (hret : c.returned = none)
    (hrest : ∀ c' ∈ rest, c'.returned.isSome = true) (he : Ends now past past' c)
    (hs : started.isSome = c.errand.isStart) (hnone : c.errand = .stop → loop' = none) :
    Answers now (some (c.task, .leaving answer)) loop' none past' ({ c with loop := started } :: rest) := by
  obtain ⟨-, hreturned⟩ := List.forall_mem_cons.mp h.returned
  refine ⟨?_, ?_, _, rest, rfl, rfl, hret, hrest, he.time, ⟨hs, he.spent⟩, hnone⟩
  · refine List.forall_mem_cons.mpr ⟨fun t ht => ?_, fun c' hc' t ht => ?_⟩
    · cases hret.symm.trans ht
    · exact (hreturned c' hc' t ht).imp_right (·.mono he.kept)
  · intro x hx t ht
    rcases he.aborted x hx t ht with hx | hx
    · obtain ⟨c', hc', hfor⟩ := h.aborted x hx t ht
      rcases List.mem_cons.mp hc' with rfl | hc'
      · exact ⟨_, List.mem_cons_self, hfor⟩
      · exact ⟨c', List.mem_cons_of_mem _ hc', hfor⟩
    · exact ⟨_, List.mem_cons_self, hx⟩

theorem Answers.finish {answer : Bool} (h : Answers now (some (i, .leaving answer)) loop current past (c :: rest)) :
    Answers now none loop current past ({ c with returned := some now } :: rest) := by
  obtain ⟨_, _, hcs, -, -, hrest, hnow, hdone, hnone⟩ := h.pends
  cases hcs
  obtain ⟨-, hreturned⟩ := List.forall_mem_cons.mp h.returned
  refine ⟨?_, ?_, List.forall_mem_cons.mpr ⟨rfl, hrest⟩, by rintro _ ⟨⟩; exact hnone⟩
  · refine List.forall_mem_cons.mpr ⟨?_, hreturned⟩
    rintro t ⟨⟩
    exact ⟨hnow, hdone.started, hdone.spent⟩
  · intro x hx t ht
    obtain ⟨c', hc', hfor⟩ := h.aborted x hx t ht
    rcases List.mem_cons.mp hc' with rfl | hc'
    · exact ⟨_, List.mem_cons_self, hfor⟩
    · exact ⟨c', List.mem_cons_of_mem _ hc', hfor⟩

/-- The loop goes on with another phase, and no tick begins or is over. -/
theorem Answers.turn {phase : Phase} (h : Answers now call (some L) current past cs)
    (hcalm : wavers now L.entry = false → wavers now { L with phase }.entry = false) :
    Answers now call (some { L with phase }) current past cs := by
  refine ⟨h.returned, h.aborted, h.pends.imp (by simp) fun i stand c _ hc =>
    hc.imp ?_ ?_ (List.Subset.refl _) (by simp)⟩
  · rintro hl L' ⟨⟩
    exact hcalm (hl L rfl)
  · intro hw
    refine { hw with begun := ?_ }
    rintro L' ⟨⟩
    exact hw.begun L rfl

/-- The loop ends between two ticks. -/
theorem Answers.quit (h : Answers now call (some L) none past cs) : Answers now call none none past cs :=
  ⟨h.returned, h.aborted, h.pends.imp (fun _ => rfl) fun _ _ _ _ hc =>
    hc.imp (by simp) (fun hw => { hw with begun := by simp }) (List.Subset.refl _) fun _ => rfl⟩

/-- A tick begins while no call waits. -/
theorem Answers.tick {due : Nat} {phase : Phase} {x : Tick} (hd : due ≤ now)
    (hno : call.any (·.2.isHalting) = false)
    (h : Answers now call (some ⟨l, label, told, .idle due⟩) none past cs) :
    Answers now call (some ⟨l, label, told, phase⟩) (some x) past cs := by
  refine ⟨h.returned, h.aborted, h.pends.imp (by simp) fun i stand c hcall hc => ?_⟩
  cases stand with
  | asked e | queued e =>
    have hwaver : decide (due ≤ now) = false := hc.2.2.1 _ rfl
    exact absurd hd (of_decide_eq_false hwaver)
  | halting e l d =>
    subst hcall
    cases hno
  | leaving answer => exact ⟨hc.1, hc.2.1, fun he => by cases hc.2.2 he⟩

/-- The tick ends, for which a call may wait. -/
theorem Answers.tock {next till : Nat} {work : String × Nat} {x : Tick} (ht : till ≤ now) (hx : x.till = now)
    (h : Answers now call (some ⟨l, label, told, .ticking next till work⟩) (some x) past cs) :
    Answers now call (some ⟨l, label, told, .idle next⟩) none ({ x with fate := .ended now } :: past) cs := by
  have hkeep : past ⊆ { x with fate := .ended now } :: past := List.subset_cons_self _ _
  refine ⟨fun c hc t hret => (h.returned c hc t hret).imp_right (·.mono hkeep), fun y hy t hfate => ?_,
    h.pends.imp (by simp) fun i stand c _ hc => hc.imp ?_ ?_ hkeep (by simp)⟩
  · rcases List.mem_cons.mp hy with rfl | hy
    · cases hfate
    · exact h.aborted y hy t hfate
  · intro hl
    have hwaver : (decide (next ≤ now) && decide (till ≤ now)) = false := hl _ rfl
    rintro L ⟨⟩
    change decide (next ≤ now) = false
    simpa [ht] using hwaver
  · intro hw
    have hbusy := hw.busy x rfl
    have hdue := Call.due_busy hbusy
    have hearly := hw.early
    have hbegun := hw.begun _ rfl
    refine ⟨hw.opened, hearly, by simp, fun _ => ⟨by omega, fun y hy => ?_⟩, ?_⟩
    · obtain rfl : x = y := Option.some.inj (hbusy.symm.trans hy)
      rw [hx]
      exact ⟨by omega, List.mem_cons_self⟩
    · rintro L ⟨⟩
      exact ofLoop_fate _ hbegun

/-- Time passes while a call waits, and not beyond what it waits for. -/
theorem Answers.wait {ms : Nat} (h : Answers now call loop current past cs)
    (hcalm : ∀ i stand, call = some (i, stand) → ∃ e l deadline, stand = .halting e l deadline ∧
      now + ms ≤ deadline ∧ ∃ x, current = some x ∧ now + ms ≤ x.till) :
    Answers (now + ms) call loop current past cs := by
  refine ⟨h.returned, h.aborted, h.pends.imp id fun i stand c hcall hc => ?_⟩
  obtain ⟨e, l, deadline, rfl, hdeadline, x, rfl, htill⟩ := hcalm i stand hcall
  obtain ⟨he, hd, hw⟩ := hc
  have hdue := Call.due_busy (hw.busy x rfl)
  exact ⟨he, hd, { hw with early := by omega, calm := by simp }⟩

end

end LogDesk.Metronome
