import LogDesk.Proofs.Tasks.Running

/-! One handler that has the timer to itself, because no other has to do with it. Its request goes
through by turns of its own: `Engaged.turn` says what becomes of the timer. -/

namespace LogDesk.Tasks

variable {ω β τ σ : Type}

def Task.calm : Task β τ σ → Bool
  | .handler _ (.queued _) | .handler _ (.halting ..) => false
  | _ => true

def Wish.request? : Wish β σ → Option (Request β σ)
  | .start beat next => some (.start beat next)
  | .stop a b => some (.stop a b)
  | .inspect a b => some (.inspect a b)
  | _ => none

theorem Wish.status_calm {w : Wish β σ} (h : w.request? = none) (holds : Bool) :
    (Task.handler holds w.status : Task β τ σ).calm = true := by
  cases w <;> first | rfl | cases h

namespace State

theorem oblige_slot (s : State ω β τ σ) (i : Nat) (holds : Bool) (w : Wish β σ) :
    (s.oblige i holds w).slot = s.slot ∧
      (s.oblige i holds w).lock = s.lock ++ (w.request?.map fun _ => i).toList := by
  cases w <;> simp [oblige, Wish.request?, setTask]

theorem cancel_slot (s : State ω β τ σ) (l : Nat) :
    (s.cancel l).slot = s.slot ∧ (s.cancel l).lock = s.lock := by
  unfold cancel
  split <;> exact ⟨rfl, rfl⟩

theorem abort_slot (s : State ω β τ σ) (l : Nat) :
    (s.abort l).slot = s.slot ∧ (s.abort l).lock = s.lock := by
  unfold abort
  split <;> exact ⟨rfl, rfl⟩

end State

namespace Program

variable (p : Program ω β τ σ) {s : State ω β τ σ}

theorem perform_slot (s : State ω β τ σ) (i : Nat) {holds : Bool} (stage : σ)
    (h : (!holds && !s.alive) = false) : (p.perform s i holds stage).slot = s.slot ∧
      (p.perform s i holds stage).lock =
        s.lock ++ ((p.act s.now i stage s.world).wish.request?.map fun _ => i).toList := by
  rw [perform, if_neg (by simp [h])]
  dsimp only
  rw [State.foldl_spawn]
  exact State.oblige_slot { s with world := (p.act s.now i stage s.world).world } i holds _

theorem act_turn {i : Nat} {stage : σ} (hd : s.deed? i = some (.act stage)) :
    ∃ holds, (p.resume s i).tasks[i]? =
        some (.handler holds (p.act s.now i stage s.world).wish.status) ∧
      (∃ status, s.tasks[i]? = some (.handler holds status) ∧ status.stages = [stage]) ∧
      (p.resume s i).slot = s.slot ∧ (p.resume s i).lock =
        s.lock ++ ((p.act s.now i stage s.world).wish.request?.map fun _ => i).toList := by
  obtain ⟨holds, status, ht, hs, hr, ha⟩ := p.resume_act hd
  have ho := State.oblige_get_self { s with world := (p.act s.now i stage s.world).world } holds
    (p.act s.now i stage s.world).wish ht
  obtain ⟨hi, -⟩ := List.getElem?_eq_some_iff.mp ho
  obtain ⟨hslot, hlock⟩ := p.perform_slot s i stage ha
  refine ⟨holds, ?_, ⟨status, ht, hs⟩, by rw [hr, hslot], by rw [hr, hlock]⟩
  rw [hr, p.perform_tasks s i holds stage ha, List.getElem?_append_left hi, ho]

/-- The whole state after the act of a handler that asks nothing of the timer. -/
theorem act_resume {i : Nat} {stage : σ} (hd : s.deed? i = some (.act stage))
    (hw : (p.act s.now i stage s.world).wish.request? = none) :
    ∃ holds, (∃ status, s.tasks[i]? = some (.handler holds status) ∧ status.stages = [stage]) ∧
      p.resume s i = { s with
        world := (p.act s.now i stage s.world).world
        tasks := s.tasks.set i (.handler holds (p.act s.now i stage s.world).wish.status) ++
          (p.act s.now i stage s.world).spawned.map fun x => .handler x.holds (.ready x.stage) } := by
  obtain ⟨holds, status, ht, hs, hr, ha⟩ := p.resume_act hd
  refine ⟨holds, ⟨status, ht, hs⟩, ?_⟩
  rw [hr, perform, if_neg (by simp [ha])]
  dsimp only
  rw [State.foldl_spawn]
  cases hwish : (p.act s.now i stage s.world).wish with
  | finish answer => rfl
  | sleep till next => rfl
  | start | stop | inspect => simp [hwish, Wish.request?] at hw

theorem handler_deed {i : Nat} {holds : Bool} {status : Status β σ}
    (h : s.tasks[i]? = some (.handler holds status)) {deed : Deed β τ σ} (hd : s.deed? i = some deed) :
    ∃ stage, deed = .act stage ∧ status.stages = [stage] := by
  unfold State.deed? at hd
  rw [h] at hd
  split at hd
  · cases hd
  · cases status with
    | ready stage | sleeping till stage =>
      dsimp only at hd
      split at hd
      · cases hd
      · cases hd
        exact ⟨stage, rfl, rfl⟩
    | queued | halting | finished => cases hd

theorem loop_deed {i : Nat} {beat : β} {c : Bool} {phase : Phase τ}
    (h : s.tasks[i]? = some (.loop beat c phase)) (stage : σ) : s.deed? i ≠ some (.act stage) := by
  intro hd
  unfold State.deed? at hd
  rw [h] at hd
  split at hd
  · cases hd
  · split at hd
    next heq => cases heq
    next heq => cases heq
    next => split at hd <;> cases hd
    next => cases hd
    next => cases hd

theorem sleeping_deed {i till : Nat} {stage : σ}
    (h : s.tasks[i]? = some (.handler true (.sleeping till stage))) :
    s.deed? i = if till ≤ s.now then some (.act stage) else none := by
  by_cases hn : till ≤ s.now <;> simp [State.deed?, State.enabled, h, hn]

theorem sleeping_turn {i till : Nat} {holds : Bool} {stage : σ}
    (h : s.tasks[i]? = some (.handler holds (.sleeping till stage))) (hn : ¬till ≤ s.now) :
    p.resume s i = s := by
  simp [resume, State.enabled, h, hn]

theorem queued_turn {i : Nat} {holds : Bool} {r : Request β σ}
    (h : s.tasks[i]? = some (.handler holds (.queued r))) :
    p.resume s i = if s.lock.head? = some i then s.grant i holds r else s := by
  by_cases hl : s.lock.head? = some i <;> simp [resume, State.enabled, h, hl]

theorem halting_turn {i l deadline : Nat} {holds : Bool} {r : Request β σ}
    (h : s.tasks[i]? = some (.handler holds (.halting l deadline r))) :
    p.resume s i =
      if s.isOver l = true ∨ deadline ≤ s.now then (s.abort l).proceed i holds r else s := by
  have he : s.enabled i = true ↔ s.isOver l = true ∨ deadline ≤ s.now := by simp [State.enabled, h]
  by_cases hl : s.isOver l = true ∨ deadline ≤ s.now
  · rw [if_pos hl]
    simp [resume, he.mpr hl, h]
  · rw [if_neg hl]
    simp [resume, Bool.eq_false_iff.mpr (mt he.mp hl)]

theorem finished_turn {i : Nat} {holds answer : Bool}
    (h : s.tasks[i]? = some (.handler holds (.finished answer))) : p.resume s i = s := by
  simp [resume, State.enabled, h]

theorem grant_holds {s : State ω β τ σ} {i : Nat} {holds : Bool} {r : Request β σ}
    (h : s.tasks[i]? = some (.handler holds (.queued r))) :
    ∃ status, (s.grant i holds r).tasks[i]? = some (.handler holds status) := by
  unfold State.grant
  split
  · exact ⟨_, State.setTask_get_self _ _ (State.cancel_get_handler { s with slot := none } _ h)⟩
  · exact ⟨_, State.setTask_get_self _ _ (State.startLoop_get_some s _ h)⟩
  · exact ⟨_, State.setTask_get_self _ _ (State.cancel_get_handler { s.release with slot := none } _ h)⟩
  · exact ⟨_, State.setTask_get_self _ _ h⟩
  · exact ⟨_, State.setTask_get_self _ _ h⟩

theorem proceed_holds {s : State ω β τ σ} {i l deadline : Nat} {holds : Bool} {r : Request β σ}
    (h : s.tasks[i]? = some (.handler holds (.halting l deadline r))) :
    ∃ status, ((s.abort l).proceed i holds r).tasks[i]? = some (.handler holds status) := by
  have ha := s.abort_get_handler l h
  cases r with
  | start beat next => exact ⟨_, State.setTask_get_self _ _ (State.startLoop_get_some _ beat ha)⟩
  | stop a b => exact ⟨_, State.setTask_get_self _ _ ha⟩
  | inspect a b => exact ⟨_, State.setTask_get_self _ _ ha⟩

theorem handler_turn {s : State ω β τ σ} {i : Nat} {holds : Bool} {status : Status β σ}
    (h : s.tasks[i]? = some (.handler holds status)) :
    ∃ status', (p.resume s i).tasks[i]? = some (.handler holds status') := by
  cases hd : s.deed? i with
  | some deed =>
    obtain ⟨stage, rfl, -⟩ := handler_deed h hd
    obtain ⟨holds₀, after, ⟨status₀, before, -⟩, -⟩ := p.act_turn hd
    rw [h] at before
    cases before
    exact ⟨_, after⟩
  | none =>
    have hi := p.resume_idled hd
    generalize p.resume s i = s' at hi ⊢
    cases hi with
    | still => exact ⟨status, h⟩
    | orphaned _ _ before =>
      rw [h] at before
      cases before
      exact ⟨_, s.setTask_get_self _ h⟩
    | granted _ r before =>
      rw [h] at before
      cases before
      exact grant_holds h
    | proceeded _ l deadline r before =>
      rw [h] at before
      cases before
      exact proceed_holds h
    | begun _ _ before | ended _ _ before | missed _ _ before =>
      rw [h] at before
      cases before

/-- A loop stays a loop. -/
theorem loop_turn {s : State ω β τ σ} {i : Nat} {beat : β} {c : Bool} {phase : Phase τ}
    (h : s.tasks[i]? = some (.loop beat c phase)) :
    ∃ c' phase', (p.resume s i).tasks[i]? = some (.loop beat c' phase') := by
  cases hd : s.deed? i with
  | some deed =>
    cases deed with
    | act stage => exact absurd hd (loop_deed h stage)
    | beginTick _ =>
      obtain ⟨due, before, turn, alive⟩ := p.resume_beginTick hd
      rw [h] at before
      cases before
      simp only [turn, Program.turn, alive, Bool.not_true, Bool.false_eq_true, if_false]
      exact ⟨_, _, State.setTask_get_self { s with world := _ } _ h⟩
    | endTick work =>
      obtain ⟨_, _, next, till, before, turn⟩ := p.resume_endTick hd
      rw [h] at before
      cases before
      rw [turn]
      exact ⟨_, _, State.setTask_get_self { s with world := _ } _ h⟩
  | none =>
    have hi := p.resume_idled hd
    generalize p.resume s i = s' at hi ⊢
    cases hi with
    | still => exact ⟨c, phase, h⟩
    | orphaned _ _ before | granted _ _ before | proceeded _ _ _ _ before =>
      rw [h] at before
      cases before
    | begun _ _ before | ended _ _ before | missed _ _ before =>
      rw [h] at before
      cases before
      exact ⟨_, _, s.setTask_get_self _ h⟩

theorem resume_some {s : State ω β τ σ} {i k : Nat} {t : Task β τ σ} (h : s.tasks[i]? = some t) :
    ∃ t', (p.resume s k).tasks[i]? = some t' := by
  by_cases hi : i = k
  · subst hi
    cases t with
    | handler holds status =>
      obtain ⟨status', h'⟩ := p.handler_turn h
      exact ⟨_, h'⟩
    | loop beat c phase =>
      obtain ⟨c', phase', h'⟩ := p.loop_turn h
      exact ⟨_, h'⟩
  · have hs := p.resume_other s hi
    rw [h] at hs
    generalize (p.resume s k).tasks[i]? = t' at hs ⊢
    cases hs <;> exact ⟨_, rfl⟩

theorem resume_holds {s : State ω β τ σ} {i : Nat} {holds : Bool} {status' : Status β σ}
    (h : (p.resume s i).tasks[i]? = some (.handler holds status')) :
    ∃ status, s.tasks[i]? = some (.handler holds status) := by
  cases ht : s.tasks[i]? with
  | none =>
    have same : p.resume s i = s := by simp [resume, State.enabled, ht]
    rw [same, ht] at h
    cases h
  | some t =>
    cases t with
    | handler holds₀ status =>
      obtain ⟨status', h'⟩ := p.handler_turn ht
      rw [h] at h'
      cases h'
      exact ⟨status, rfl⟩
    | loop beat c phase =>
      obtain ⟨c', phase', h'⟩ := p.loop_turn ht
      rw [h] at h'
      cases h'

theorem calm_self {i : Nat} (ht : ∀ t, s.tasks[i]? = some t → t.calm = true)
    (hw : ∀ stage, s.deed? i = some (.act stage) →
      (p.act s.now i stage s.world).wish.request? = none) :
    (p.resume s i).slot = s.slot ∧ (p.resume s i).lock = s.lock ∧
      ∀ t, (p.resume s i).tasks[i]? = some t → t.calm = true := by
  have hset {s : State ω β τ σ} {t₀ t : Task β τ σ} (h₀ : s.tasks[i]? = some t₀)
      (hc : t.calm = true) : (s.setTask i t).slot = s.slot ∧ (s.setTask i t).lock = s.lock ∧
        ∀ t', (s.setTask i t).tasks[i]? = some t' → t'.calm = true := by
    refine ⟨rfl, rfl, fun t' h => ?_⟩
    rw [s.setTask_get_self t h₀] at h
    cases h
    exact hc
  cases hd : s.deed? i with
  | some deed =>
    cases deed with
    | act stage =>
      obtain ⟨holds, htask, -, hslot, hlock⟩ := p.act_turn hd
      have hc := hw stage hd
      refine ⟨hslot, by rw [hlock, hc]; simp, fun t h => ?_⟩
      rw [htask] at h
      cases h
      exact Wish.status_calm hc holds
    | beginTick beat =>
      obtain ⟨due, htask, hr, ha⟩ := p.resume_beginTick hd
      simp only [hr, turn, ha, Bool.not_true, Bool.false_eq_true, if_false]
      exact hset htask rfl
    | endTick work =>
      obtain ⟨beat, c, next, till, htask, hr⟩ := p.resume_endTick hd
      rw [hr, turn]
      exact hset htask rfl
  | none =>
    have hi := p.resume_idled hd
    generalize p.resume s i = s' at hi ⊢
    cases hi with
    | still => exact ⟨rfl, rfl, ht⟩
    | orphaned holds status h => exact hset h rfl
    | granted holds r h => cases ht _ h
    | proceeded holds l deadline r h => cases ht _ h
    | begun beat c h => exact hset h rfl
    | ended beat due h => exact hset h rfl
    | missed beat due h => exact hset h rfl

/-- The others stay away from it, and those that are begun do as well. -/
theorem calm_other (s : State ω β τ σ) {i j : Nat} (h : j ≠ i)
    (hj : ∀ t, s.tasks[j]? = some t → t.calm = true) :
    ∀ t, (p.resume s i).tasks[j]? = some t → t.calm = true := by
  have hs := p.resume_other s h
  generalize s.tasks[j]? = t₀, (p.resume s i).tasks[j]? = t' at hs hj ⊢
  intro t ht
  subst ht
  cases hs with
  | same => exact hj t rfl
  | _ => rfl

end Program

def Request.isStart : Request β σ → Bool
  | .start .. => true
  | _ => false

/-- Handler `i` has the timer and waits for the loop to end that was in the slot. -/
structure Halted (s : State ω β τ σ) (i : Nat) (r : Request β σ) : Prop where
  task : ∃ l deadline, s.tasks[i]? = some (.handler true (.halting l deadline r)) ∧
    deadline ≤ s.now + haltTimeout
  lock : s.lock = if r.isStart then [i] else []
  slot : s.slot = none

/-- Handler `i` has asked for the timer to be started or stopped, and no other has asked anything. -/
inductive Engaged (s : State ω β τ σ) (i : Nat) (r : Request β σ) : Prop where
  | queued (task : s.tasks[i]? = some (.handler true (.queued r))) (lock : s.lock = [i])
  | halted (h : Halted s i r)

/-- What the request has come to: the handler goes on, and the timer is free and as it was asked to
be. -/
structure Settled (s : State ω β τ σ) (i : Nat) (r : Request β σ) : Prop where
  task : ∃ next ∈ r.stages, s.tasks[i]? = some (.handler true (.ready next))
  lock : s.lock = []
  slot : s.slot.isSome = r.isStart

inductive Poised (s : State ω β τ σ) (i : Nat) (stage : σ) : Prop where
  | ready (task : s.tasks[i]? = some (.handler true (.ready stage)))
  | rested (till : Nat) (task : s.tasks[i]? = some (.handler true (.sleeping till stage)))
    (due : till ≤ s.now)

section
variable (p : Program ω β τ σ) {s s' : State ω β τ σ} {i : Nat} {r : Request β σ} {stage : σ}

theorem Poised.deed (h : Poised s i stage) : s.deed? i = some (.act stage) := by
  cases h with
  | ready task => simp [State.deed?, State.enabled, task]
  | rested till task due => simp [State.deed?, State.enabled, task, due]

theorem Poised.keep (h : Poised s i stage) (ht : s'.tasks[i]? = s.tasks[i]?) (hn : s.now ≤ s'.now) :
    Poised s' i stage := by
  cases h with
  | ready task => exact .ready (ht.trans task)
  | rested till task due => exact .rested till (ht.trans task) (due.trans hn)

theorem Poised.stagesAt (h : Poised s i stage) : s.stagesAt i = [stage] := by
  cases h <;> simp [State.stagesAt, Task.stages, Status.stages, *]

/-- What a handler at a stage asks for is what its turn leaves it with. -/
theorem Poised.turn (h : Poised s i stage) : (p.resume s i).tasks[i]? =
    some (.handler true (p.act s.now i stage s.world).wish.status) := by
  obtain ⟨holds, after, ⟨status, before, -⟩, -⟩ := p.act_turn h.deed
  cases h with
  | ready task =>
    rw [task] at before
    cases before
    exact after
  | rested till task due =>
    rw [task] at before
    cases before
    exact after

theorem Engaged.deed (h : Engaged s i r) : s.deed? i = none := by
  cases h with
  | queued task => simp [State.deed?, task]
  | halted h =>
    obtain ⟨l, deadline, task, -⟩ := h.task
    simp [State.deed?, task]

theorem Engaged.stagesAt (h : Engaged s i r) : s.stagesAt i = r.stages := by
  cases h with
  | queued task => simp [State.stagesAt, Task.stages, Status.stages, task]
  | halted h =>
    obtain ⟨l, deadline, task, -⟩ := h.task
    simp [State.stagesAt, Task.stages, Status.stages, task]

/-- Nothing but its own turns has to do with it. -/
theorem Engaged.keep (h : Engaged s i r) (ht : s'.tasks[i]? = s.tasks[i]?) (hs : s'.slot = s.slot)
    (hl : s'.lock = s.lock) (hn : s.now ≤ s'.now) : Engaged s' i r := by
  cases h with
  | queued task lock => exact .queued (ht.trans task) (hl.trans lock)
  | halted h =>
    obtain ⟨l, deadline, task, soon⟩ := h.task
    exact .halted ⟨⟨l, deadline, ht.trans task, by omega⟩, hl.trans h.lock, hs.trans h.slot⟩

/-- A loop that was in the slot is waited for. -/
theorem Halted.begin (s : State ω β τ σ) (task : s.tasks[i]? = some (.handler true (.queued r)))
    (lock : s.lock = if r.isStart then [i] else []) (l : Nat) :
    Halted ((({ s with slot := none }).cancel l).setTask i
      (.handler true (.halting l (s.now + haltTimeout) r))) i r := by
  obtain ⟨hs, hl⟩ := State.cancel_slot { s with slot := none } l
  have hn := State.cancel_now { s with slot := none } l
  have ht := State.cancel_get_handler { s with slot := none } l task
  refine ⟨⟨l, _, State.setTask_get_self _ _ ht, ?_⟩, hl.trans lock, hs⟩
  change s.now + haltTimeout ≤ (({ s with slot := none }).cancel l).now + haltTimeout
  rw [hn]

theorem Halted.proceed (h : Halted s i r) (hr : ∀ a b, r ≠ .inspect a b) {l deadline : Nat}
    (task : s.tasks[i]? = some (.handler true (.halting l deadline r))) :
    Settled ((s.abort l).proceed i true r) i r := by
  obtain ⟨hs, hl⟩ := s.abort_slot l
  have ha := s.abort_get_handler l task
  cases r with
  | start beat next =>
    refine ⟨⟨next, by simp [Request.stages], State.setTask_get_self _ _
      (State.startLoop_get_some _ beat ha)⟩, ?_, rfl⟩
    change (s.abort l).lock.drop 1 = []
    rw [hl, h.lock]
    rfl
  | stop a b =>
    refine ⟨⟨a, by simp [Request.stages], State.setTask_get_self _ _ ha⟩, hl.trans h.lock, ?_⟩
    change (s.abort l).slot.isSome = false
    rw [hs, h.slot]
    rfl
  | inspect a b => exact absurd rfl (hr a b)

/-- The first in the queue starts or stops the timer at once, or has a loop to wait for. -/
theorem Engaged.grant (task : s.tasks[i]? = some (.handler true (.queued r))) (lock : s.lock = [i])
    (hr : ∀ a b, r ≠ .inspect a b) :
    Halted (p.resume s i) i r ∨ Settled (p.resume s i) i r := by
  have free : s.release.lock = [] := by
    rw [State.release, lock]
    rfl
  rw [p.queued_turn task, if_pos (by simp [lock])]
  unfold State.grant
  split
  next beat next l hs => exact .inl (Halted.begin s task lock l)
  next beat next hs =>
    exact .inr ⟨⟨next, by simp [Request.stages], State.setTask_get_self _ _
      (State.startLoop_get_some s beat task)⟩, free, rfl⟩
  next a b l hs => exact .inl (Halted.begin s.release task free l)
  next a b hs =>
    refine .inr ⟨⟨b, by simp [Request.stages], State.setTask_get_self _ _ task⟩, free, ?_⟩
    change s.slot.isSome = false
    rw [hs]
    rfl
  next _ a b => exact absurd rfl (hr a b)

theorem Halted.turn (h : Halted s i r) (hr : ∀ a b, r ≠ .inspect a b) :
    Halted (p.resume s i) i r ∨ Settled (p.resume s i) i r := by
  obtain ⟨l, deadline, task, soon⟩ := h.task
  rw [p.halting_turn task]
  split
  · exact .inr (h.proceed hr task)
  · exact .inl h

/-- A loop that does not end by itself is broken off. -/
theorem Halted.wait (h : Halted s i r) (hr : ∀ a b, r ≠ .inspect a b) :
    Settled (p.resume { s with now := s.now + haltTimeout } i) i r := by
  obtain ⟨l, deadline, task, soon⟩ := h.task
  have h' : Halted { s with now := s.now + haltTimeout } i r :=
    ⟨⟨l, deadline, task, Nat.le_add_right_of_le soon⟩, h.lock, h.slot⟩
  rw [p.halting_turn (s := { s with now := s.now + haltTimeout }) task, if_pos (.inr soon)]
  exact h'.proceed hr task

theorem Engaged.turn (h : Engaged s i r) (hr : ∀ a b, r ≠ .inspect a b) :
    Halted (p.resume s i) i r ∨ Settled (p.resume s i) i r := by
  cases h with
  | queued task lock => exact Engaged.grant p task lock hr
  | halted h => exact h.turn p hr

end

end LogDesk.Tasks
