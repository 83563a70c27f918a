import LogDesk.Proofs.Tasks.Single

/-! The timer runs just where a loop is in its slot: a loop ends only after it has been taken out. -/

namespace LogDesk.Tasks

variable {ω β τ σ : Type}

namespace State

variable {s s' : State ω β τ σ}

/-- The loop in the slot has not been told to end, and has not ended. -/
def Unbroken (s : State ω β τ σ) : Prop :=
  ∀ l, s.slot = some l → ∃ beat phase, s.tasks[l]? = some (.loop beat false phase) ∧ phase ≠ .over

theorem Unbroken.running (h : s.Unbroken) : s.running = s.slot.isSome := by
  unfold State.running
  cases hs : s.slot with
  | none => rfl
  | some l =>
    obtain ⟨beat, phase, hl, ho⟩ := h l hs
    have hover : (Task.loop beat false phase : Task β τ σ).isOver = false := by
      cases phase <;> first | rfl | exact absurd rfl ho
    simp [isOver, hl, hover]

theorem unbroken_of_none (h : s.slot = none) : s.Unbroken := by
  intro l hl
  rw [h] at hl
  cases hl

/-- The slot is let alone, and so is the loop in it. -/
theorem Unbroken.keep (h : s.Unbroken) (hs : s'.slot = s.slot)
    (ht : ∀ l beat phase, s.slot = some l → s.tasks[l]? = some (.loop beat false phase) →
      phase ≠ .over → ∃ phase', s'.tasks[l]? = some (.loop beat false phase') ∧ phase' ≠ .over) :
    s'.Unbroken := by
  intro l hl
  rw [hs] at hl
  obtain ⟨beat, phase, htask, ho⟩ := h l hl
  obtain ⟨phase', htask', ho'⟩ := ht l beat phase hl htask ho
  exact ⟨beat, phase', htask', ho'⟩

/-- A handler's status has nothing to do with it. -/
theorem Unbroken.setHandler (h : s.Unbroken) {i : Nat} {holds : Bool} {status status' : Status β σ}
    (hi : s.tasks[i]? = some (.handler holds status)) :
    (s.setTask i (.handler holds status')).Unbroken :=
  h.keep rfl fun _ _ phase _ ht ho => ⟨phase, (setTask_loop hi).mpr ht, ho⟩

theorem Unbroken.setLoop (h : s.Unbroken) {i : Nat} {beat : β} {c : Bool} {phase phase' : Phase τ}
    (hi : s.tasks[i]? = some (.loop beat c phase)) (hp : c = false → phase ≠ .over → phase' ≠ .over) :
    (s.setTask i (.loop beat c phase')).Unbroken := by
  refine h.keep rfl fun l beat' phase₀ _ hl ho => ?_
  by_cases hli : l = i
  · subst hli
    rw [hi] at hl
    cases hl
    exact ⟨phase', s.setTask_get_self _ hi, hp rfl ho⟩
  · exact ⟨phase₀, by rwa [s.setTask_get_ne _ hli], ho⟩

theorem Unbroken.startLoop (s : State ω β τ σ) (beat : β) : (s.startLoop beat).Unbroken := by
  intro l hl
  cases hl
  exact ⟨beat, .fresh, List.getElem?_concat_length, by simp⟩

/-- Who is waited for has been told to end, and is not in the slot. -/
theorem Unbroken.abort (h : s.Unbroken) {l : Nat} (hl : s.Told l) : (s.abort l).Unbroken := by
  obtain ⟨beat, phase, ht⟩ := hl
  have ha : s.abort l = s.setTask l (.loop beat true .over) := by rw [State.abort, ht]
  rw [ha]
  exact h.setLoop ht (by simp)

theorem Unbroken.grant (h : s.Unbroken) {i : Nat} {holds : Bool} {r : Request β σ}
    (hi : s.tasks[i]? = some (.handler holds (.queued r))) : (s.grant i holds r).Unbroken := by
  unfold State.grant
  split
  · refine unbroken_of_none ?_
    change (({ s with slot := none }).cancel _).slot = none
    unfold cancel
    split <;> rfl
  next beat next _ =>
    exact (Unbroken.startLoop s beat).setHandler (startLoop_get_some s beat hi)
  · refine unbroken_of_none ?_
    change (({ s.release with slot := none }).cancel _).slot = none
    unfold cancel
    split <;> rfl
  · exact h.setHandler hi
  · exact h.setHandler hi

theorem Unbroken.proceed (h : s.Unbroken) {i l d : Nat} {holds : Bool} {r : Request β σ}
    (hi : s.tasks[i]? = some (.handler holds (.halting l d r))) (hl : s.Told l) :
    ((s.abort l).proceed i holds r).Unbroken := by
  have hia := s.abort_get_handler l hi
  cases r with
  | start beat next =>
    exact (Unbroken.startLoop (s.abort l) beat).setHandler (startLoop_get_some _ beat hia)
  | stop a b => exact (h.abort hl).setHandler hia
  | inspect a b => exact (h.abort hl).setHandler hia

theorem Unbroken.oblige (h : s.Unbroken) {i : Nat} {holds : Bool} {status : Status β σ}
    (hi : s.tasks[i]? = some (.handler holds status)) (w : Wish β σ) :
    (s.oblige i holds w).Unbroken := by
  cases w <;> exact h.setHandler hi

theorem Unbroken.spawns (h : s.Unbroken) (xs : List (Spawn σ)) : (xs.foldl spawn s).Unbroken := by
  induction xs generalizing s with
  | nil => exact h
  | cons x xs ih =>
    exact ih (h.keep rfl fun l beat phase _ hl ho => ⟨phase, (s.addTask_get _).mpr (.inl hl), ho⟩)

end State

namespace Program

open State

variable (p : Program ω β τ σ) {s : State ω β τ σ}

theorem perform_unbroken (h : s.Unbroken) {i : Nat} {holds : Bool} {status : Status β σ}
    (hi : s.tasks[i]? = some (.handler holds status)) (stage : σ) :
    (p.perform s i holds stage).Unbroken := by
  unfold perform
  split
  · exact h.setHandler hi
  · have hw : ({ s with world := (p.act s.now i stage s.world).world }).Unbroken := h
    exact (hw.oblige hi _).spawns _

theorem turn_unbroken (hp : 0 < p.period) (h : s.Unbroken) {i : Nat} {beat : β} {c : Bool}
    {phase : Phase τ} (hi : s.tasks[i]? = some (.loop beat c phase)) :
    (p.turn s i beat c phase).Unbroken := by
  cases phase with
  | fresh =>
    unfold turn
    dsimp only
    rw [if_neg (Nat.ne_of_gt hp)]
    exact h.setLoop hi (by simp)
  | idle due =>
    unfold turn
    dsimp only
    split
    next hc =>
      subst hc
      exact h.setLoop hi (by simp)
    next hc =>
      obtain rfl : c = false := by simpa using hc
      split
      · exact h.setLoop hi (by simp)
      · have hw : ({ s with world := (p.beginTick s.now i beat s.world).1 }).Unbroken := h
        exact hw.setLoop hi (by simp)
  | ticking next till work =>
    have hw : ({ s with world := p.endTick s.now i work s.world }).Unbroken := h
    exact hw.setLoop hi (by simp)
  | «over» => exact h

theorem resume_unbroken (hp : 0 < p.period) (hs : s.Single) (h : s.Unbroken) (i : Nat) :
    (p.resume s i).Unbroken := by
  unfold resume
  split
  · exact h
  · split
    next holds stage hi => exact p.perform_unbroken h hi stage
    next holds till stage hi => exact p.perform_unbroken h hi stage
    next holds r hi => exact h.grant hi
    next holds l deadline r hi => exact h.proceed hi (hs.told i l deadline r ⟨holds, hi⟩)
    next beat c phase hi => exact p.turn_unbroken hp h hi
    next => exact h

end Program

end LogDesk.Tasks
