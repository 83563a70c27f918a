import LogDesk.Tasks.Basic
import Mathlib.Tactic

/-! What one turn of a task does: `resume_world` for the world, `resume_other` for the tasks whose turn
it is not, and the lemmas from `resume_act` on for the task itself. Proofs about a program start from
these and do not open `resume` again. -/

namespace LogDesk.Tasks

variable {ω β τ σ : Type}

inductive Deed (β τ σ : Type) where
  | act (stage : σ)
  | beginTick (beat : β)
  | endTick (work : τ)

namespace State

/-- What task `i` does to the world if it has its turn now. -/
def deed? (s : State ω β τ σ) (i : Nat) : Option (Deed β τ σ) :=
  if !s.enabled i then none
  else match s.tasks[i]? with
    | some (.handler holds (.ready stage)) =>
      if !holds && !s.alive then none else some (.act stage)
    | some (.handler holds (.sleeping _ stage)) =>
      if !holds && !s.alive then none else some (.act stage)
    | some (.loop beat false (.idle _)) => if s.alive then some (.beginTick beat) else none
    | some (.loop _ _ (.ticking _ _ work)) => some (.endTick work)
    | _ => none

@[simp] theorem setTask_world (s : State ω β τ σ) (i : Nat) (t : Task β τ σ) :
    (s.setTask i t).world = s.world := rfl

@[simp] theorem addTask_world (s : State ω β τ σ) (t : Task β τ σ) :
    (s.addTask t).world = s.world := rfl

@[simp] theorem spawn_world (s : State ω β τ σ) (x : Spawn σ) : (s.spawn x).world = s.world := rfl

@[simp] theorem release_world (s : State ω β τ σ) : s.release.world = s.world := rfl

@[simp] theorem startLoop_world (s : State ω β τ σ) (beat : β) :
    (s.startLoop beat).world = s.world := rfl

@[simp] theorem cancel_world (s : State ω β τ σ) (l : Nat) : (s.cancel l).world = s.world := by
  unfold cancel
  split <;> rfl

@[simp] theorem abort_world (s : State ω β τ σ) (l : Nat) : (s.abort l).world = s.world := by
  unfold abort
  split <;> rfl

@[simp] theorem oblige_world (s : State ω β τ σ) (i : Nat) (holds : Bool) (w : Wish β σ) :
    (s.oblige i holds w).world = s.world := by
  cases w <;> rfl

@[simp] theorem grant_world (s : State ω β τ σ) (i : Nat) (holds : Bool) (r : Request β σ) :
    (s.grant i holds r).world = s.world := by
  unfold grant
  split <;> simp

@[simp] theorem proceed_world (s : State ω β τ σ) (i : Nat) (holds : Bool) (r : Request β σ) :
    (s.proceed i holds r).world = s.world := by
  cases r <;> simp [proceed]

/-- Tasks that are begun come after all others, and nothing else changes. -/
theorem foldl_spawn (xs : List (Spawn σ)) (s : State ω β τ σ) : xs.foldl spawn s =
    { s with tasks := s.tasks ++ xs.map fun x => .handler x.holds (.ready x.stage) } := by
  induction xs generalizing s with
  | nil => simp
  | cons x xs ih => simp [ih, spawn, addTask]

@[simp] theorem foldl_spawn_world (xs : List (Spawn σ)) (s : State ω β τ σ) :
    (xs.foldl spawn s).world = s.world := by
  rw [foldl_spawn]

end State

namespace Program

variable (p : Program ω β τ σ)

def worldAfter (s : State ω β τ σ) (i : Nat) : Deed β τ σ → ω
  | .act stage => (p.act s.now i stage s.world).world
  | .beginTick beat => (p.beginTick s.now i beat s.world).1
  | .endTick work => p.endTick s.now i work s.world

theorem perform_world (s : State ω β τ σ) (i : Nat) (holds : Bool) (stage : σ) :
    (p.perform s i holds stage).world =
      if !holds && !s.alive then s.world else (p.act s.now i stage s.world).world := by
  unfold perform
  split <;> simp

/-- A turn changes the world by its deed, if it has one, and by nothing else. -/
theorem resume_world (s : State ω β τ σ) (i : Nat) :
    (p.resume s i).world = ((s.deed? i).map (p.worldAfter s i)).getD s.world := by
  unfold resume State.deed?
  cases he : s.enabled i with
  | false => rfl
  | true =>
    simp only [Bool.not_true, Bool.false_eq_true, if_false]
    rcases s.tasks[i]? with _ | ⟨holds, status⟩ | ⟨beat, cancelled, phase⟩
    · rfl
    · cases status with
      | ready stage => simp only [perform_world]; split <;> rfl
      | sleeping till stage => simp only [perform_world]; split <;> rfl
      | queued r => simp
      | halting l deadline r => simp
      | finished answer => rfl
    · cases phase with
      | fresh => cases cancelled <;> rfl
      | idle due =>
        cases cancelled with
        | true => simp [turn]
        | false =>
          simp only [turn, Bool.false_eq_true, if_false]
          cases s.alive <;> rfl
      | ticking next till work => cases cancelled <;> rfl
      | «over» => cases cancelled <;> rfl

end Program

def Request.stages : Request β σ → List σ
  | .start _ next => [next]
  | .stop a b | .inspect a b => [a, b]

def Wish.status : Wish β σ → Status β σ
  | .finish answer => .finished answer
  | .sleep till next => .sleeping till next
  | .start beat next => .queued (.start beat next)
  | .stop a b => .queued (.stop a b)
  | .inspect a b => .queued (.inspect a b)

def Status.stages : Status β σ → List σ
  | .ready next | .sleeping _ next => [next]
  | .queued r | .halting _ _ r => r.stages
  | .finished _ => []

def Task.stages : Task β τ σ → List σ
  | .handler _ status => status.stages
  | .loop .. => []

def Task.work? : Task β τ σ → Option τ
  | .loop _ _ (.ticking _ _ work) => some work
  | _ => none

namespace State

def stagesAt (s : State ω β τ σ) (i : Nat) : List σ := (s.tasks[i]?.map Task.stages).getD []

def workAt (s : State ω β τ σ) (i : Nat) : Option τ := s.tasks[i]?.bind Task.work?

end State

/-- What the turns of others may make of a task: nothing, unless it is a loop, which may be told to
end or be broken off. A place that is not taken may be taken by a new task. -/
inductive Spared (xs : List (Spawn σ)) : Option (Task β τ σ) → Option (Task β τ σ) → Prop where
  | same (t : Option (Task β τ σ)) : Spared xs t t
  | cancelled (beat : β) (c : Bool) (phase : Phase τ) :
    Spared xs (some (.loop beat c phase)) (some (.loop beat true phase))
  | aborted (beat : β) (c : Bool) (phase : Phase τ) :
    Spared xs (some (.loop beat c phase)) (some (.loop beat c .over))
  | looped (beat : β) : Spared xs none (some (.loop beat false .fresh))
  | spawned (x : Spawn σ) (h : x ∈ xs) :
    Spared xs none (some (.handler x.holds (.ready x.stage)))

/-- A handler is spared altogether. -/
theorem Spared.handler {xs : List (Spawn σ)} {holds : Bool} {status : Status β σ}
    {t : Option (Task β τ σ)} (h : Spared xs (some (.handler holds status)) t) :
    t = some (.handler holds status) := by
  cases h
  rfl

namespace State

theorem setTask_get_ne (s : State ω β τ σ) {i j : Nat} (t : Task β τ σ) (h : j ≠ i) :
    (s.setTask i t).tasks[j]? = s.tasks[j]? :=
  List.getElem?_set_ne h.symm

theorem setTask_get_self (s : State ω β τ σ) {i : Nat} {t₀ : Task β τ σ} (t : Task β τ σ)
    (h : s.tasks[i]? = some t₀) : (s.setTask i t).tasks[i]? = some t := by
  obtain ⟨hi, -⟩ := List.getElem?_eq_some_iff.mp h
  simp [setTask, hi]

theorem setTask_spared (s : State ω β τ σ) {l : Nat} {t₀ t : Task β τ σ} (xs : List (Spawn σ))
    (h : s.tasks[l]? = some t₀) (ht : Spared xs (some t₀) (some t)) (j : Nat) :
    Spared xs s.tasks[j]? (s.setTask l t).tasks[j]? := by
  by_cases hj : j = l
  · subst hj
    rwa [setTask_get_self s t h, h]
  · rw [setTask_get_ne s t hj]
    exact .same _

theorem cancel_spared (s : State ω β τ σ) (xs : List (Spawn σ)) (l j : Nat) :
    Spared xs s.tasks[j]? (s.cancel l).tasks[j]? := by
  unfold cancel
  split
  next beat c phase h => exact setTask_spared s xs h (.cancelled beat c phase) j
  next => exact .same _

theorem abort_spared (s : State ω β τ σ) (xs : List (Spawn σ)) (l j : Nat) :
    Spared xs s.tasks[j]? (s.abort l).tasks[j]? := by
  unfold abort
  split
  next beat c phase h => exact setTask_spared s xs h (.aborted beat c phase) j
  next => exact .same _

theorem cancel_get_handler (s : State ω β τ σ) (l : Nat) {i : Nat} {holds : Bool}
    {status : Status β σ} (h : s.tasks[i]? = some (.handler holds status)) :
    (s.cancel l).tasks[i]? = some (.handler holds status) :=
  (h ▸ s.cancel_spared [] l i).handler

theorem abort_get_handler (s : State ω β τ σ) (l : Nat) {i : Nat} {holds : Bool}
    {status : Status β σ} (h : s.tasks[i]? = some (.handler holds status)) :
    (s.abort l).tasks[i]? = some (.handler holds status) :=
  (h ▸ s.abort_spared [] l i).handler

/-- New tasks come after all others. -/
theorem getElem?_append_spared (ts : List (Task β τ σ)) (xs : List (Spawn σ)) (j : Nat) :
    Spared xs ts[j]? (ts ++ xs.map fun x => .handler x.holds (.ready x.stage))[j]? := by
  by_cases hj : j < ts.length
  · rw [List.getElem?_append_left hj]
    exact .same _
  · rw [List.getElem?_append_right (Nat.le_of_not_lt hj), List.getElem?_eq_none (by omega),
      List.getElem?_map]
    cases hx : xs[j - ts.length]? with
    | none => exact .same _
    | some x => exact .spawned x (List.mem_of_getElem? hx)

theorem startLoop_spared (s : State ω β τ σ) (beat : β) {t : Option (Task β τ σ)} {j : Nat}
    (xs : List (Spawn σ)) (h : Spared xs t s.tasks[j]?) :
    Spared xs t (s.startLoop beat).tasks[j]? := by
  by_cases hj : j < s.tasks.length
  · rwa [startLoop, addTask, List.getElem?_append_left hj]
  · have hs : s.tasks[j]? = none := List.getElem?_eq_none (by omega)
    have hn : t = none := by
      rw [hs] at h
      cases h
      rfl
    subst hn
    rw [startLoop, addTask, List.getElem?_append_right (Nat.le_of_not_lt hj)]
    cases j - s.tasks.length with
    | zero => exact .looped beat
    | succ n => exact .same _

theorem grant_spared (s : State ω β τ σ) {i j : Nat} (h : j ≠ i) (holds : Bool) (r : Request β σ)
    (xs : List (Spawn σ)) : Spared xs s.tasks[j]? (s.grant i holds r).tasks[j]? := by
  unfold grant
  split
  · rw [setTask_get_ne _ _ h]
    exact cancel_spared { s with slot := none } xs _ j
  · rw [setTask_get_ne _ _ h]
    exact startLoop_spared s _ xs (.same _)
  · rw [setTask_get_ne _ _ h]
    exact cancel_spared { s.release with slot := none } xs _ j
  · rw [setTask_get_ne _ _ h]
    exact .same _
  · rw [setTask_get_ne _ _ h]
    exact .same _

theorem proceed_spared (s : State ω β τ σ) {i j : Nat} (h : j ≠ i) (holds : Bool) (r : Request β σ)
    {xs : List (Spawn σ)} {t : Option (Task β τ σ)} (ht : Spared xs t s.tasks[j]?) :
    Spared xs t (s.proceed i holds r).tasks[j]? := by
  cases r with
  | start beat next =>
    rw [proceed, setTask_get_ne _ _ h]
    exact startLoop_spared s beat xs ht
  | stop a b => rwa [proceed, setTask_get_ne _ _ h]
  | inspect a b => rwa [proceed, setTask_get_ne _ _ h]

/-- A new task is the last, and the others keep their places. -/
theorem addTask_get (s : State ω β τ σ) (t : Task β τ σ) {i : Nat} {t' : Task β τ σ} :
    (s.addTask t).tasks[i]? = some t' ↔ s.tasks[i]? = some t' ∨ i = s.tasks.length ∧ t' = t := by
  rw [addTask, List.getElem?_append]
  split
  next hi => exact ⟨.inl, fun h => h.resolve_right fun hn => Nat.ne_of_lt hi hn.1⟩
  next hi =>
    rw [List.getElem?_eq_none (Nat.le_of_not_lt hi), List.getElem?_singleton]
    by_cases he : i = s.tasks.length
    · simp [he, eq_comm]
    · have hsub : i - s.tasks.length ≠ 0 := by omega
      simp [he, hsub]

theorem startLoop_get_some (s : State ω β τ σ) (beat : β) {i : Nat} {t : Task β τ σ}
    (h : s.tasks[i]? = some t) : (s.startLoop beat).tasks[i]? = some t :=
  (s.addTask_get _).mpr (.inl h)

/-- A handler that changes its status keeps to the stages it had before it. -/
theorem handler_self {s s' : State ω β τ σ} {i : Nat} {holds : Bool} {status status' : Status β σ}
    (h : s.tasks[i]? = some (.handler holds status))
    (h' : s'.tasks[i]? = some (.handler holds status'))
    (hs : ∀ stage ∈ status'.stages, stage ∈ status.stages) :
    (∀ stage ∈ s'.stagesAt i, stage ∈ s.stagesAt i) ∧ s'.workAt i = s.workAt i := by
  simpa [stagesAt, workAt, h, h', Task.stages, Task.work?] using hs

theorem grant_self (s : State ω β τ σ) {i : Nat} (holds : Bool) (r : Request β σ)
    (h : s.tasks[i]? = some (.handler holds (.queued r))) :
    (∀ stage ∈ (s.grant i holds r).stagesAt i, stage ∈ s.stagesAt i) ∧
      (s.grant i holds r).workAt i = s.workAt i := by
  unfold grant
  split
  · exact handler_self h (setTask_get_self _ _ (cancel_get_handler { s with slot := none } _ h))
      (fun _ hs => hs)
  · exact handler_self h (setTask_get_self _ _ (startLoop_get_some s _ h)) (fun _ hs => hs)
  · exact handler_self h
      (setTask_get_self _ _ (cancel_get_handler { s.release with slot := none } _ h))
      (fun _ hs => hs)
  · exact handler_self h (setTask_get_self _ _ h) (by simp [Status.stages, Request.stages])
  · refine handler_self h (setTask_get_self _ _ h) ?_
    split <;> simp [Status.stages, Request.stages]

theorem proceed_self (s : State ω β τ σ) {i : Nat} (l : Nat) (holds : Bool) (deadline : Nat)
    (r : Request β σ) (h : s.tasks[i]? = some (.handler holds (.halting l deadline r))) :
    (∀ stage ∈ ((s.abort l).proceed i holds r).stagesAt i, stage ∈ s.stagesAt i) ∧
      ((s.abort l).proceed i holds r).workAt i = s.workAt i := by
  have ha := s.abort_get_handler l h
  cases r with
  | start beat next =>
    exact handler_self h (setTask_get_self _ _ (startLoop_get_some _ beat ha)) (fun _ hs => hs)
  | stop a b =>
    exact handler_self h (setTask_get_self _ _ ha) (by simp [Status.stages, Request.stages])
  | inspect a b =>
    exact handler_self h (setTask_get_self _ _ ha) (by simp [Status.stages, Request.stages])

theorem oblige_get_ne (s : State ω β τ σ) {i j : Nat} (h : j ≠ i) (holds : Bool) (w : Wish β σ) :
    (s.oblige i holds w).tasks[j]? = s.tasks[j]? := by
  cases w <;> exact setTask_get_ne _ _ h

theorem oblige_get_self (s : State ω β τ σ) {i : Nat} {t₀ : Task β τ σ} (holds : Bool)
    (w : Wish β σ) (h : s.tasks[i]? = some t₀) :
    (s.oblige i holds w).tasks[i]? = some (.handler holds w.status) := by
  cases w <;> exact setTask_get_self _ _ h

end State

namespace Program

variable (p : Program ω β τ σ)

def spawned (s : State ω β τ σ) (i : Nat) : List (Spawn σ) :=
  match s.deed? i with
  | some (.act stage) => (p.act s.now i stage s.world).spawned
  | _ => []

theorem perform_tasks (s : State ω β τ σ) (i : Nat) (holds : Bool) (stage : σ)
    (h : (!holds && !s.alive) = false) :
    (p.perform s i holds stage).tasks =
      (({ s with world := (p.act s.now i stage s.world).world }).oblige i holds
        (p.act s.now i stage s.world).wish).tasks ++
        (p.act s.now i stage s.world).spawned.map fun x => .handler x.holds (.ready x.stage) := by
  rw [perform, if_neg (by simp [h]), State.foldl_spawn]

/-- What a deed was done from: the task, and what the turn makes of it. -/
theorem resume_act {s : State ω β τ σ} {i : Nat} {stage : σ} (h : s.deed? i = some (.act stage)) :
    ∃ holds status, s.tasks[i]? = some (.handler holds status) ∧ status.stages = [stage] ∧
      p.resume s i = p.perform s i holds stage ∧ (!holds && !s.alive) = false := by
  unfold State.deed? at h
  unfold resume
  cases he : s.enabled i with
  | false => simp [he] at h
  | true =>
    simp only [he, Bool.not_true, Bool.false_eq_true, if_false] at h ⊢
    split at h
    · next holds next ht =>
      split at h
      · cases h
      · next ha => cases h; exact ⟨holds, _, ht, rfl, by rw [ht], by simpa using ha⟩
    · next holds till next ht =>
      split at h
      · cases h
      · next ha => cases h; exact ⟨holds, _, ht, rfl, by rw [ht], by simpa using ha⟩
    · split at h <;> cases h
    · cases h
    · cases h

theorem resume_beginTick {s : State ω β τ σ} {i : Nat} {beat : β}
    (h : s.deed? i = some (.beginTick beat)) :
    ∃ due, s.tasks[i]? = some (.loop beat false (.idle due)) ∧
      p.resume s i = p.turn s i beat false (.idle due) ∧ s.alive = true := by
  unfold State.deed? at h
  unfold resume
  cases he : s.enabled i with
  | false => simp [he] at h
  | true =>
    simp only [he, Bool.not_true, Bool.false_eq_true, if_false] at h ⊢
    split at h
    · split at h <;> cases h
    · split at h <;> cases h
    · next due ht =>
      split at h
      · next ha => cases h; exact ⟨due, ht, by rw [ht], ha⟩
      · cases h
    · cases h
    · cases h

theorem resume_endTick {s : State ω β τ σ} {i : Nat} {work : τ}
    (h : s.deed? i = some (.endTick work)) :
    ∃ beat cancelled next till, s.tasks[i]? = some (.loop beat cancelled (.ticking next till work)) ∧
      p.resume s i = p.turn s i beat cancelled (.ticking next till work) := by
  unfold State.deed? at h
  unfold resume
  cases he : s.enabled i with
  | false => simp [he] at h
  | true =>
    simp only [he, Bool.not_true, Bool.false_eq_true, if_false] at h ⊢
    split at h
    · split at h <;> cases h
    · split at h <;> cases h
    · split at h <;> cases h
    · next beat cancelled next till w ht => cases h; exact ⟨beat, cancelled, next, till, ht, by rw [ht]⟩
    · cases h

inductive Idled (s : State ω β τ σ) (i : Nat) : State ω β τ σ → Prop where
  | still : Idled s i s
  /-- No one holds the world any more. -/
  | orphaned (holds : Bool) (status : Status β σ) (h : s.tasks[i]? = some (.handler holds status)) :
    Idled s i (s.setTask i (.handler holds (.finished false)))
  | granted (holds : Bool) (r : Request β σ) (h : s.tasks[i]? = some (.handler holds (.queued r)))
    (hl : s.lock.head? = some i) : Idled s i (s.grant i holds r)
  | proceeded (holds : Bool) (l deadline : Nat) (r : Request β σ)
    (h : s.tasks[i]? = some (.handler holds (.halting l deadline r)))
    (hd : s.isOver l = true ∨ deadline ≤ s.now) : Idled s i ((s.abort l).proceed i holds r)
  | begun (beat : β) (c : Bool) (h : s.tasks[i]? = some (.loop beat c .fresh)) :
    Idled s i (s.setTask i (.loop beat c (if p.period = 0 then .over else .idle s.now)))
  | ended (beat : β) (due : Nat) (h : s.tasks[i]? = some (.loop beat true (.idle due))) :
    Idled s i (s.setTask i (.loop beat true .over))
  | missed (beat : β) (due : Nat) (h : s.tasks[i]? = some (.loop beat false (.idle due)))
    (ha : s.alive = false) :
    Idled s i (s.setTask i (.loop beat false (.idle (p.nextTick s.now due))))

theorem resume_idled {s : State ω β τ σ} {i : Nat} (h : s.deed? i = none) :
    p.Idled s i (p.resume s i) := by
  unfold State.deed? at h
  unfold resume
  cases he : s.enabled i with
  | false => exact .still
  | true =>
    simp only [he, Bool.not_true, Bool.false_eq_true, if_false] at h ⊢
    cases ht : s.tasks[i]? with
    | none => exact .still
    | some t =>
      rw [ht] at h
      rcases t with ⟨holds, status⟩ | ⟨beat, cancelled, phase⟩
      · cases status with
        | ready stage =>
          have hp : (!holds && !s.alive) = true := by simpa using h
          simp only [perform, hp, if_true]
          exact .orphaned holds _ ht
        | sleeping till stage =>
          have hp : (!holds && !s.alive) = true := by simpa using h
          simp only [perform, hp, if_true]
          exact .orphaned holds _ ht
        | queued r => exact .granted holds r ht (by simpa [State.enabled, ht] using he)
        | halting l deadline r =>
          exact .proceeded holds l deadline r ht (by simpa [State.enabled, ht] using he)
        | finished answer => exact .still
      · cases phase with
        | fresh => exact .begun beat cancelled ht
        | idle due =>
          cases cancelled with
          | true => exact .ended beat due ht
          | false =>
            have ha : s.alive = false := by simpa using h
            simp only [turn, ha, Bool.not_false, Bool.false_eq_true, if_false, if_true]
            exact .missed beat due ht ha
        | ticking next till work => cases cancelled <;> simp at h
        | «over» => exact .still

/-- A turn without a deed leaves a task with nothing that it could not go on with before. -/
theorem resume_none {s : State ω β τ σ} {i : Nat} (h : s.deed? i = none) :
    (∀ stage ∈ (p.resume s i).stagesAt i, stage ∈ s.stagesAt i) ∧
      (p.resume s i).workAt i = s.workAt i := by
  have hi := p.resume_idled h
  generalize p.resume s i = s' at hi ⊢
  cases hi with
  | still => exact ⟨fun _ hs => hs, rfl⟩
  | orphaned holds status ht =>
    exact State.handler_self ht (State.setTask_get_self s _ ht) (by simp [Status.stages])
  | granted holds r ht => exact s.grant_self holds r ht
  | proceeded holds l deadline r ht => exact s.proceed_self l holds deadline r ht
  | begun beat c ht =>
    by_cases hp : p.period = 0 <;>
      simp [hp, State.stagesAt, State.workAt, s.setTask_get_self _ ht, ht, Task.stages, Task.work?]
  | ended beat due ht =>
    simp [State.stagesAt, State.workAt, s.setTask_get_self _ ht, ht, Task.stages, Task.work?]
  | missed beat due ht =>
    simp [State.stagesAt, State.workAt, s.setTask_get_self _ ht, ht, Task.stages, Task.work?]

/-- In an act all other tasks stay as they are, and those that it begins come after them. -/
theorem act_get {s : State ω β τ σ} {i j : Nat} {stage : σ} (hd : s.deed? i = some (.act stage))
    (h : j ≠ i) : (p.resume s i).tasks[j]? =
      (s.tasks ++ (p.spawned s i).map fun x => .handler x.holds (.ready x.stage))[j]? := by
  obtain ⟨holds, status, -, -, hr, ha⟩ := p.resume_act hd
  have ho := State.oblige_get_ne { s with world := (p.act s.now i stage s.world).world } h holds
    (p.act s.now i stage s.world).wish
  have hl : (({ s with world := (p.act s.now i stage s.world).world }).oblige i holds
      (p.act s.now i stage s.world).wish).tasks.length = s.tasks.length := by
    cases (p.act s.now i stage s.world).wish <;> simp [State.oblige, State.setTask]
  rw [hr, p.perform_tasks s i holds stage ha, spawned, hd]
  rw [List.getElem?_append, List.getElem?_append, hl, ho]

/-- The ticks of a loop concern that loop only. -/
theorem tick_get {s : State ω β τ σ} {i j : Nat} {deed : Deed β τ σ} (hd : s.deed? i = some deed)
    (ht : ∀ stage, deed ≠ .act stage) (h : j ≠ i) : (p.resume s i).tasks[j]? = s.tasks[j]? := by
  cases deed with
  | act stage => exact absurd rfl (ht stage)
  | beginTick beat =>
    obtain ⟨due, -, hr, ha⟩ := p.resume_beginTick hd
    simp only [hr, turn, ha, Bool.not_true, Bool.false_eq_true, if_false]
    exact State.setTask_get_ne _ _ h
  | endTick work =>
    obtain ⟨beat, cancelled, next, till, -, hr⟩ := p.resume_endTick hd
    rw [hr, turn]
    exact State.setTask_get_ne _ _ h

/-- A deed leaves the other tasks as they are. -/
theorem deed_get {s : State ω β τ σ} {i j : Nat} {deed : Deed β τ σ} (hd : s.deed? i = some deed)
    (h : j ≠ i) (hj : j < s.tasks.length) : (p.resume s i).tasks[j]? = s.tasks[j]? := by
  cases deed with
  | act stage => rw [p.act_get hd h, List.getElem?_append_left hj]
  | beginTick | endTick => exact p.tick_get hd (by simp) h

theorem resume_other (s : State ω β τ σ) {i j : Nat} (h : j ≠ i) :
    Spared (p.spawned s i) s.tasks[j]? (p.resume s i).tasks[j]? := by
  cases hd : s.deed? i with
  | some deed =>
    cases deed with
    | act stage =>
      rw [p.act_get hd h]
      exact State.getElem?_append_spared _ _ j
    | beginTick | endTick =>
      rw [p.tick_get hd (by simp) h]
      exact .same _
  | none =>
    rw [spawned, hd]
    have hi := p.resume_idled hd
    generalize p.resume s i = s' at hi ⊢
    cases hi with
    | still => exact .same _
    | granted holds r => exact s.grant_spared h holds r _
    | proceeded holds l deadline r =>
      exact (s.abort l).proceed_spared h holds r (s.abort_spared _ l j)
    | orphaned | begun | ended | missed =>
      rw [State.setTask_get_ne _ _ h]
      exact .same _

theorem act_stagesAt {s : State ω β τ σ} {i : Nat} {stage : σ} (h : s.deed? i = some (.act stage)) :
    s.stagesAt i = [stage] ∧ s.workAt i = none ∧
      (p.resume s i).stagesAt i = (p.act s.now i stage s.world).wish.status.stages ∧
      (p.resume s i).workAt i = none := by
  obtain ⟨holds, status, ht, hs, hr, ha⟩ := p.resume_act h
  have ho := State.oblige_get_self { s with world := (p.act s.now i stage s.world).world } holds
    (p.act s.now i stage s.world).wish ht
  obtain ⟨hi, -⟩ := List.getElem?_eq_some_iff.mp ho
  have hp : (p.resume s i).tasks[i]? =
      some (.handler holds (p.act s.now i stage s.world).wish.status) := by
    rw [hr, p.perform_tasks s i holds stage ha, List.getElem?_append_left hi, ho]
  simp [State.stagesAt, State.workAt, ht, hp, Task.stages, Task.work?, hs]

theorem beginTick_workAt {s : State ω β τ σ} {i : Nat} {beat : β}
    (h : s.deed? i = some (.beginTick beat)) :
    s.stagesAt i = [] ∧ s.workAt i = none ∧ (p.resume s i).stagesAt i = [] ∧
      (p.resume s i).workAt i = some (p.beginTick s.now i beat s.world).2.1 := by
  obtain ⟨due, ht, hr, ha⟩ := p.resume_beginTick h
  have hp : (p.resume s i).tasks[i]? = some (.loop beat false (.ticking (p.nextTick s.now due)
      (p.beginTick s.now i beat s.world).2.2 (p.beginTick s.now i beat s.world).2.1)) := by
    simp only [hr, turn, ha, Bool.not_true, Bool.false_eq_true, if_false]
    exact State.setTask_get_self { s with world := _ } _ ht
  simp [State.stagesAt, State.workAt, ht, hp, Task.stages, Task.work?]

theorem endTick_workAt {s : State ω β τ σ} {i : Nat} {work : τ}
    (h : s.deed? i = some (.endTick work)) :
    s.stagesAt i = [] ∧ s.workAt i = some work ∧ (p.resume s i).stagesAt i = [] ∧
      (p.resume s i).workAt i = none := by
  obtain ⟨beat, cancelled, next, till, ht, hr⟩ := p.resume_endTick h
  have hp : (p.resume s i).tasks[i]? = some (.loop beat cancelled (.idle next)) := by
    rw [hr, turn]
    exact State.setTask_get_self { s with world := _ } _ ht
  simp [State.stagesAt, State.workAt, ht, hp, Task.stages, Task.work?]

theorem other_stagesAt (s : State ω β τ σ) {i j : Nat} (h : j ≠ i) :
    (p.resume s i).stagesAt j = s.stagesAt j ∨
      ∃ x ∈ p.spawned s i, s.stagesAt j = [] ∧ (p.resume s i).stagesAt j = [x.stage] := by
  have hs := p.resume_other s h
  unfold State.stagesAt
  generalize s.tasks[j]? = t, (p.resume s i).tasks[j]? = t' at hs ⊢
  cases hs with
  | spawned x hx => exact .inr ⟨x, hx, rfl, rfl⟩
  | _ => exact .inl rfl

theorem other_workAt (s : State ω β τ σ) {i j : Nat} (h : j ≠ i) :
    (p.resume s i).workAt j = s.workAt j ∨ (p.resume s i).workAt j = none := by
  have hs := p.resume_other s h
  unfold State.workAt
  generalize s.tasks[j]? = t, (p.resume s i).tasks[j]? = t' at hs ⊢
  cases hs with
  | aborted beat c phase => exact .inr rfl
  | cancelled beat c phase => cases phase <;> exact .inl rfl
  | _ => exact .inl rfl

end Program

end LogDesk.Tasks
