import LogDesk.Proofs.Tasks.Turn

/-! Edits of what tasks know. An edit changes the world, what ticks have under way and what stages
hold, but not when a task has its turn. Where a program's deeds respect an edit, a turn of the edited
state is the edited turn: `resume_edit`. -/

namespace LogDesk.Tasks

variable {ω β τ σ : Type}

structure Edit (ω τ σ : Type) where
  world : ω → ω
  work : τ → τ
  stage : σ → σ

variable (v : Edit ω τ σ)

def Request.edit : Request β σ → Request β σ
  | .start beat next => .start beat (v.stage next)
  | .stop a b => .stop (v.stage a) (v.stage b)
  | .inspect a b => .inspect (v.stage a) (v.stage b)

def Wish.edit : Wish β σ → Wish β σ
  | .finish answer => .finish answer
  | .sleep till next => .sleep till (v.stage next)
  | .start beat next => .start beat (v.stage next)
  | .stop a b => .stop (v.stage a) (v.stage b)
  | .inspect a b => .inspect (v.stage a) (v.stage b)

def Status.edit : Status β σ → Status β σ
  | .ready next => .ready (v.stage next)
  | .sleeping till next => .sleeping till (v.stage next)
  | .queued r => .queued (r.edit v)
  | .halting loop deadline r => .halting loop deadline (r.edit v)
  | .finished answer => .finished answer

def Phase.edit : Phase τ → Phase τ
  | .ticking next till work => .ticking next till (v.work work)
  | phase => phase

def Task.edit : Task β τ σ → Task β τ σ
  | .handler holds status => .handler holds (status.edit v)
  | .loop beat cancelled phase => .loop beat cancelled (phase.edit v)

/-- An edit that changes none of a request's stages. -/
theorem Request.edit_self {r : Request β σ} (h : ∀ stage ∈ r.stages, v.stage stage = stage) :
    r.edit v = r := by
  cases r <;> simpa [Request.edit, Request.stages] using h

theorem Status.edit_self {status : Status β σ} (h : ∀ stage ∈ status.stages, v.stage stage = stage) :
    status.edit v = status := by
  cases status with
  | ready next => exact congrArg Status.ready (h next (by simp [stages]))
  | sleeping till next => exact congrArg (Status.sleeping till) (h next (by simp [stages]))
  | queued r => exact congrArg Status.queued (Request.edit_self v h)
  | halting l deadline r => exact congrArg (Status.halting l deadline) (Request.edit_self v h)
  | finished answer => rfl

/-- A task is left alone where its stages and what it has under way are. -/
theorem Task.edit_self {t : Task β τ σ} (hs : ∀ stage ∈ t.stages, v.stage stage = stage)
    (hw : ∀ work, t.work? = some work → v.work work = work) : t.edit v = t := by
  rcases t with ⟨holds, status⟩ | ⟨beat, cancelled, phase⟩
  · exact congrArg (Task.handler holds) (Status.edit_self v hs)
  · cases phase with
    | ticking next till work =>
      exact congrArg (fun work => Task.loop beat cancelled (.ticking next till work)) (hw work rfl)
    | _ => rfl

def Spawn.edit (x : Spawn σ) : Spawn σ := ⟨x.holds, v.stage x.stage⟩

def Effect.edit (e : Effect ω β σ) : Effect ω β σ where
  world := v.world e.world
  wish := e.wish.edit v
  spawned := e.spawned.map (·.edit v)

def State.edit (s : State ω β τ σ) : State ω β τ σ where
  now := s.now
  world := v.world s.world
  tasks := s.tasks.map (·.edit v)
  slot := s.slot
  lock := s.lock
  held := s.held

@[simp] theorem Task.edit_isOver (t : Task β τ σ) : (t.edit v).isOver = t.isOver := by
  rcases t with ⟨holds, status⟩ | ⟨beat, cancelled, phase⟩
  · cases status <;> rfl
  · cases phase <;> rfl

@[simp] theorem Task.edit_holdsWorld (t : Task β τ σ) : (t.edit v).holdsWorld = t.holdsWorld := by
  rcases t with ⟨holds, status⟩ | ⟨beat, cancelled, phase⟩
  · cases status <;> rfl
  · cases phase <;> rfl

namespace State

variable (s : State ω β τ σ)

@[simp] theorem edit_get (i : Nat) : (s.edit v).tasks[i]? = s.tasks[i]?.map (·.edit v) :=
  List.getElem?_map

@[simp] theorem edit_isOver (i : Nat) : (s.edit v).isOver i = s.isOver i := by
  unfold isOver
  rw [edit_get]
  cases s.tasks[i]? <;> simp

@[simp] theorem edit_alive : (s.edit v).alive = s.alive := by
  simp [alive, edit, List.any_map, Function.comp_def]

@[simp] theorem edit_enabled (i : Nat) : (s.edit v).enabled i = s.enabled i := by
  unfold enabled
  rw [edit_get]
  rcases s.tasks[i]? with _ | ⟨holds, status⟩ | ⟨beat, cancelled, phase⟩
  · rfl
  · cases status with
    | halting l deadline r =>
      change ((s.edit v).isOver l || _) = _
      rw [edit_isOver]
      rfl
    | _ => rfl
  · cases phase <;> rfl

@[simp] theorem edit_running : (s.edit v).running = s.running := by
  simp only [running, edit_isOver]
  rfl

theorem edit_setTask (i : Nat) (t : Task β τ σ) :
    (s.setTask i t).edit v = (s.edit v).setTask i (t.edit v) := by
  simp [edit, setTask, List.map_set]

theorem edit_addTask (t : Task β τ σ) : (s.addTask t).edit v = (s.edit v).addTask (t.edit v) := by
  simp [edit, addTask]

theorem edit_spawn (x : Spawn σ) : (s.spawn x).edit v = (s.edit v).spawn (x.edit v) :=
  s.edit_addTask v _

theorem edit_spawns (xs : List (Spawn σ)) :
    (xs.foldl spawn s).edit v = (xs.map (·.edit v)).foldl spawn (s.edit v) := by
  induction xs generalizing s with
  | nil => rfl
  | cons x xs ih => rw [List.foldl_cons, ih, edit_spawn, List.map_cons, List.foldl_cons]

theorem edit_cancel (l : Nat) : (s.cancel l).edit v = (s.edit v).cancel l := by
  unfold cancel
  rw [edit_get]
  rcases s.tasks[l]? with _ | ⟨holds, status⟩ | ⟨beat, cancelled, phase⟩
  · rfl
  · rfl
  · exact s.edit_setTask v l _

theorem edit_abort (l : Nat) : (s.abort l).edit v = (s.edit v).abort l := by
  unfold abort
  rw [edit_get]
  rcases s.tasks[l]? with _ | ⟨holds, status⟩ | ⟨beat, cancelled, phase⟩
  · rfl
  · rfl
  · exact s.edit_setTask v l _

theorem edit_startLoop (beat : β) : (s.startLoop beat).edit v = (s.edit v).startLoop beat := by
  simp [edit, startLoop, addTask, Task.edit, Phase.edit]

theorem edit_proceed (i : Nat) (holds : Bool) (r : Request β σ) :
    (s.proceed i holds r).edit v = (s.edit v).proceed i holds (r.edit v) := by
  cases r with
  | start beat next =>
    refine (edit_setTask v _ i _).trans ?_
    change ((s.startLoop beat).edit v).release.setTask i _ = _
    rw [edit_startLoop]
    rfl
  | stop a b | inspect a b => exact s.edit_setTask v i _

theorem edit_grant (i : Nat) (holds : Bool) (r : Request β σ) :
    (s.grant i holds r).edit v = (s.edit v).grant i holds (r.edit v) := by
  have go (s : State ω β τ σ) (next : σ) : (s.setTask i (.handler holds (.ready next))).edit v =
      (s.edit v).setTask i (.handler holds (.ready (v.stage next))) := s.edit_setTask v i _
  have halt (s : State ω β τ σ) (l : Nat) :
      ((({ s with slot := none }).cancel l).setTask i
        (.handler holds (.halting l (s.now + haltTimeout) r))).edit v =
      (({ s.edit v with slot := none }).cancel l).setTask i
        (.handler holds (.halting l (s.now + haltTimeout) (r.edit v))) := by
    rw [edit_setTask, edit_cancel]
    rfl
  cases hs : s.slot with
  | none =>
    have hs' : (s.edit v).slot = none := hs
    cases r with
    | start beat next =>
      simp only [grant, Request.edit, hs, hs']
      rw [go]
      change ((s.startLoop beat).edit v).release.setTask i _ = _
      rw [edit_startLoop]
    | stop a b =>
      simp only [grant, Request.edit, hs, hs']
      exact go s.release b
    | inspect a b =>
      simp only [grant, Request.edit, edit_running]
      rw [go]
      split <;> rfl
  | some l =>
    have hs' : (s.edit v).slot = some l := hs
    cases r with
    | start beat next =>
      simp only [grant, Request.edit, hs, hs']
      exact halt s l
    | stop a b =>
      simp only [grant, Request.edit, hs, hs']
      exact halt s.release l
    | inspect a b =>
      simp only [grant, Request.edit, edit_running]
      rw [go]
      split <;> rfl

theorem edit_oblige (i : Nat) (holds : Bool) (w : Wish β σ) :
    (s.oblige i holds w).edit v = (s.edit v).oblige i holds (w.edit v) := by
  cases w <;> simp [oblige, edit, setTask, List.map_set, Task.edit, Status.edit, Wish.edit, Request.edit]

end State

namespace Program

variable (p : Program ω β τ σ) {v} {s : State ω β τ σ} {i : Nat}

/-- What task `i` does in its turn is done to the edited world as well. -/
structure Respects (v : Edit ω τ σ) (s : State ω β τ σ) (i : Nat) : Prop where
  act : ∀ stage, s.deed? i = some (.act stage) →
    p.act s.now i (v.stage stage) (v.world s.world) = (p.act s.now i stage s.world).edit v
  beginTick : ∀ beat, s.deed? i = some (.beginTick beat) →
    p.beginTick s.now i beat (v.world s.world) =
      (v.world (p.beginTick s.now i beat s.world).1, v.work (p.beginTick s.now i beat s.world).2.1,
        (p.beginTick s.now i beat s.world).2.2)
  endTick : ∀ work, s.deed? i = some (.endTick work) →
    p.endTick s.now i (v.work work) (v.world s.world) = v.world (p.endTick s.now i work s.world)

theorem perform_edit {holds : Bool} {stage : σ} (h : (!holds && !s.alive) = false →
      p.act s.now i (v.stage stage) (v.world s.world) = (p.act s.now i stage s.world).edit v) :
    p.perform (s.edit v) i holds (v.stage stage) = (p.perform s i holds stage).edit v := by
  unfold perform
  rw [State.edit_alive]
  cases ha : !holds && !s.alive with
  | true =>
    simp only [if_true]
    rw [State.edit_setTask]
    rfl
  | false =>
    simp only [Bool.false_eq_true, if_false]
    rw [State.edit_spawns, State.edit_oblige]
    change ((p.act s.now i (v.stage stage) (v.world s.world)).spawned.foldl State.spawn
      (({ s.edit v with world := (p.act s.now i (v.stage stage) (v.world s.world)).world }).oblige i
        holds (p.act s.now i (v.stage stage) (v.world s.world)).wish)) = _
    rw [h ha]
    rfl

theorem turn_edit {beat : β} {cancelled : Bool} {phase : Phase τ}
    (ht : s.tasks[i]? = some (.loop beat cancelled phase)) (he : s.enabled i = true)
    (h : p.Respects v s i) :
    p.turn (s.edit v) i beat cancelled (phase.edit v) = (p.turn s i beat cancelled phase).edit v := by
  cases phase with
  | fresh =>
    simp only [turn, Phase.edit]
    rw [State.edit_setTask]
    split <;> rfl
  | idle due =>
    cases cancelled with
    | true =>
      simp only [turn, Phase.edit, if_true]
      rw [State.edit_setTask]
      rfl
    | false =>
      simp only [turn, Phase.edit, Bool.false_eq_true, if_false, State.edit_alive]
      cases ha : s.alive with
      | false =>
        simp only [Bool.not_false, if_true]
        rw [State.edit_setTask]
        rfl
      | true =>
        have hb := h.beginTick beat (by simp [State.deed?, he, ht, ha])
        simp only [Bool.not_true, Bool.false_eq_true, if_false]
        rw [State.edit_setTask]
        change ({ s.edit v with world := (p.beginTick s.now i beat (v.world s.world)).1 }).setTask i
          (.loop beat false (.ticking _ (p.beginTick s.now i beat (v.world s.world)).2.2
            (p.beginTick s.now i beat (v.world s.world)).2.1)) = _
        rw [hb]
        rfl
  | ticking next till work =>
    have hw := h.endTick work (by cases cancelled <;> simp [State.deed?, he, ht])
    refine Eq.trans ?_ (State.edit_setTask v _ i _).symm
    change ({ s.edit v with world := p.endTick s.now i (v.work work) (v.world s.world) }).setTask i _ = _
    rw [hw]
    rfl
  | «over» => rfl

/-- A turn of the edited state is the edited turn. -/
theorem resume_edit (h : p.Respects v s i) : p.resume (s.edit v) i = (p.resume s i).edit v := by
  unfold resume
  rw [State.edit_enabled]
  cases he : s.enabled i with
  | false => rfl
  | true =>
    simp only [Bool.not_true, Bool.false_eq_true, if_false, State.edit_get]
    rcases ht : s.tasks[i]? with _ | ⟨holds, status⟩ | ⟨beat, cancelled, phase⟩
    · rfl
    · cases status with
      | ready stage =>
        exact p.perform_edit fun ha => h.act stage (by simp [State.deed?, he, ht, ha])
      | sleeping till stage =>
        exact p.perform_edit fun ha => h.act stage (by simp [State.deed?, he, ht, ha])
      | queued r => exact (s.edit_grant v i holds r).symm
      | halting l deadline r =>
        refine Eq.trans ?_ ((s.abort l).edit_proceed v i holds r).symm
        rw [State.edit_abort]
        rfl
      | finished answer => rfl
    · exact p.turn_edit ht he h

end Program

end LogDesk.Tasks
