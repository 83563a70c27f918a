import LogDesk.Proofs.Metronome.Run
import LogDesk.Proofs.Tasks.Alone

/-! What a turn can do. While calls are awaited there is one call and one loop at most that have not
ended, and `Turns` has one case for each turn that they can take. -/

namespace LogDesk.Metronome

abbrev Status := Tasks.Status String Stage

abbrev Phase := Tasks.Phase (String × Nat)

def Errand.request : Errand → Tasks.Request String Stage
  | start label => .start label (.done true)
  | stop => .stop (.done true) (.done false)

def Errand.isStart : Errand → Bool
  | start _ => true
  | stop => false

inductive Stand where
  | asked (e : Errand)
  | queued (e : Errand)
  | halting (e : Errand) (loop deadline : Nat)
  | leaving (answer : Bool)

namespace Stand

def status : Stand → Status
  | asked e => .ready e.stage
  | queued e => .queued e.request
  | halting e loop deadline => .halting loop deadline e.request
  | leaving answer => .ready (.done answer)

def isHalting : Stand → Bool
  | halting .. => true
  | _ => false

def locks : Stand → Bool
  | queued _ => true
  | halting e .. => e.isStart
  | _ => false

end Stand

structure Loop where
  task : Nat
  label : String
  told : Bool
  phase : Phase

def Loop.entry (L : Loop) : Task := .loop L.label L.told L.phase

def Loop.fresh (task : Nat) (label : String) : Loop := ⟨task, label, false, .fresh⟩

structure Active (tasks : List Task) (call : Option (Nat × Status)) (loop : Option Loop) : Prop where
  called : ∀ c ∈ call, tasks[c.1]? = some (.handler true c.2)
  looped : ∀ L ∈ loop, tasks[L.task]? = some L.entry ∧ L.phase ≠ .over
  rest : ∀ j t, tasks[j]? = some t → (∀ c ∈ call, j ≠ c.1) → (∀ L ∈ loop, j ≠ L.task) → t.isOver = true

namespace Active

variable {tasks : List Task} {call : Option (Nat × Status)} {loop : Option Loop} {i : Nat} {status : Status}
  {L : Loop}

theorem ne (h : Active tasks (some (i, status)) (some L)) : L.task ≠ i := by
  intro he
  have hcall := h.called _ rfl
  have hloop := (h.looped _ rfl).1
  rw [he] at hloop
  rw [hcall] at hloop
  cases hloop

theorem get_set_self {j : Nat} {t₀ : Task} (t : Task) (h : tasks[j]? = some t₀) : (tasks.set j t)[j]? = some t := by
  obtain ⟨hj, -⟩ := List.getElem?_eq_some_iff.mp h
  simp [hj]

theorem setCall (h : Active tasks (some (i, status)) loop) (status' : Status) :
    Active (tasks.set i (.handler true status')) (some (i, status')) loop := by
  refine ⟨?_, ?_, ?_⟩
  · rintro c ⟨⟩
    exact get_set_self _ (h.called _ rfl)
  · rintro L ⟨⟩
    rw [List.getElem?_set_ne h.ne.symm]
    exact h.looped L rfl
  · intro j t hj hc hl
    rw [List.getElem?_set_ne (Ne.symm (hc _ rfl))] at hj
    refine h.rest j t hj ?_ hl
    rintro c ⟨⟩
    exact hc (i, status') rfl

theorem endCall (h : Active tasks (some (i, status)) loop) (answer : Bool) :
    Active (tasks.set i (.handler true (.finished answer))) none loop := by
  refine ⟨?_, (h.setCall _).looped, ?_⟩
  · rintro c ⟨⟩
  · intro j t hj _ hl
    by_cases hji : j = i
    · subst hji
      rw [get_set_self _ (h.called _ rfl)] at hj
      cases hj
      rfl
    · refine (h.setCall (.finished answer)).rest j t hj ?_ hl
      rintro c ⟨⟩
      exact hji

theorem setLoop (h : Active tasks call (some L)) (told : Bool) {phase : Phase} (hp : phase ≠ .over) :
    Active (tasks.set L.task (.loop L.label told phase)) call (some { L with told, phase }) := by
  refine ⟨?_, ?_, ?_⟩
  · rintro c ⟨⟩
    rw [List.getElem?_set_ne h.ne]
    exact h.called _ rfl
  · rintro L' ⟨⟩
    exact ⟨get_set_self _ (h.looped L rfl).1, hp⟩
  · intro j t hj hc hl
    rw [List.getElem?_set_ne (Ne.symm (hl _ rfl))] at hj
    refine h.rest j t hj hc ?_
    rintro L' ⟨⟩
    exact hl { L with told, phase } rfl

theorem endLoop (h : Active tasks call (some L)) (told : Bool) :
    Active (tasks.set L.task (.loop L.label told .over)) call none := by
  refine ⟨?_, ?_, ?_⟩
  · rintro c ⟨⟩
    rw [List.getElem?_set_ne h.ne]
    exact h.called _ rfl
  · rintro L' ⟨⟩
  · intro j t hj hc _
    by_cases hjl : j = L.task
    · subst hjl
      rw [get_set_self _ (h.looped L rfl).1] at hj
      cases hj
      rfl
    · rw [List.getElem?_set_ne (Ne.symm hjl)] at hj
      refine h.rest j t hj hc ?_
      rintro L' ⟨⟩
      exact hjl

theorem get_concat {t t' : Task} {j : Nat} (h : (tasks ++ [t'])[j]? = some t) :
    tasks[j]? = some t ∨ j = tasks.length ∧ t = t' := by
  rcases Nat.lt_trichotomy j tasks.length with hj | rfl | hj
  · rw [List.getElem?_append_left hj] at h
    exact .inl h
  · rw [List.getElem?_concat_length] at h
    cases h
    exact .inr ⟨rfl, rfl⟩
  · rw [List.getElem?_eq_none (by simp; omega)] at h
    cases h

theorem get_left {t t' : Task} {j : Nat} (h : tasks[j]? = some t) : (tasks ++ [t'])[j]? = some t := by
  obtain ⟨hj, -⟩ := List.getElem?_eq_some_iff.mp h
  rwa [List.getElem?_append_left hj]

theorem addCall (h : Active tasks none loop) (status : Status) :
    Active (tasks ++ [.handler true status]) (some (tasks.length, status)) loop := by
  refine ⟨?_, fun L hL => ⟨get_left (h.looped L hL).1, (h.looped L hL).2⟩, ?_⟩
  · rintro c ⟨⟩
    exact List.getElem?_concat_length
  · intro j t hj hc hl
    rcases get_concat hj with hj | ⟨rfl, -⟩
    · refine h.rest j t hj ?_ hl
      rintro c ⟨⟩
    · exact absurd rfl (hc _ rfl)

theorem addLoop (h : Active tasks call none) (label : String) :
    Active (tasks ++ [.loop label false .fresh]) call (some (.fresh tasks.length label)) := by
  refine ⟨fun c hc => get_left (h.called c hc), ?_, ?_⟩
  · rintro L ⟨⟩
    exact ⟨List.getElem?_concat_length, by simp [Loop.fresh]⟩
  · intro j t hj hc hl
    rcases get_concat hj with hj | ⟨rfl, -⟩
    · refine h.rest j t hj hc ?_
      rintro L ⟨⟩
    · exact absurd rfl (hl _ rfl)

/-- A task that has not ended is the call or the loop. -/
theorem cases (h : Active tasks call loop) {j : Nat} {t : Task} (hj : tasks[j]? = some t) (ht : t.isOver = false) :
    (∃ status, call = some (j, status) ∧ t = .handler true status) ∨
      ∃ L, loop = some L ∧ L.task = j ∧ t = L.entry := by
  by_contra hno
  rw [not_or] at hno
  have hover : t.isOver = true := by
    refine h.rest j t hj ?_ ?_
    · rintro ⟨i, status⟩ hc rfl
      have hi := h.called _ hc
      rw [hj] at hi
      cases hi
      exact hno.1 ⟨status, hc, rfl⟩
    · rintro L hL rfl
      have hl := (h.looped L hL).1
      rw [hj] at hl
      cases hl
      exact hno.2 ⟨L, hL, rfl, rfl⟩
  rw [ht] at hover
  cases hover

end Active

/-- The state of a timer as seen from its call and its loop. -/
structure Shows (s : State) (call : Option (Nat × Stand)) (loop : Option Loop) : Prop where
  active : Active s.tasks (call.map fun c => (c.1, c.2.status)) loop
  held : s.held = true
  slot : s.slot = if call.any (·.2.isHalting) then none else loop.map (·.task)
  lock : s.lock = ((call.filter (·.2.locks)).map (·.1)).toList
  told : ∀ L ∈ loop, L.told = call.any (·.2.isHalting)
  target : ∀ i e l deadline, call = some (i, .halting e l deadline) →
    (∀ L ∈ loop, L.task = l) ∧ (loop = none → s.isOver l = true)

/-- What the turns of the tasks can be that have not ended, and which tick begins in them. -/
inductive Turns (period : Nat) (s : State) (i : Nat) :
    Option (Nat × Stand) → Option Loop → Option (Nat × Stand) → Option Loop → Option Tick → Prop where
  | queue (e : Errand) (loop : Option Loop) :
    Turns period s i (some (i, .asked e)) loop (some (i, .queued e)) loop none
  | start (label : String) :
    Turns period s i (some (i, .queued (.start label))) none
      (some (i, .leaving true)) (some (.fresh s.tasks.length label)) none
  /-- There is nothing to stop. -/
  | decline : Turns period s i (some (i, .queued .stop)) none (some (i, .leaving false)) none none
  | halt (e : Errand) (L : Loop) :
    Turns period s i (some (i, .queued e)) (some L)
      (some (i, .halting e L.task (s.now + Tasks.haltTimeout))) (some { L with told := true }) none
  | restart (label : String) (l deadline : Nat) (loop : Option Loop) (h : loop = none ∨ deadline ≤ s.now) :
    Turns period s i (some (i, .halting (.start label) l deadline)) loop
      (some (i, .leaving true)) (some (.fresh s.tasks.length label)) none
  | stop (l deadline : Nat) (loop : Option Loop) (h : loop = none ∨ deadline ≤ s.now) :
    Turns period s i (some (i, .halting .stop l deadline)) loop (some (i, .leaving true)) none none
  | finish (answer : Bool) (loop : Option Loop) :
    Turns period s i (some (i, .leaving answer)) loop none loop none
  | settle (call : Option (Nat × Stand)) (label : String) (told : Bool) :
    Turns period s i call (some ⟨i, label, told, .fresh⟩) call (some ⟨i, label, told, .idle s.now⟩) none
  | tick (call : Option (Nat × Stand)) (label : String) (due till : Nat) (work : String × Nat) (h : due ≤ s.now)
    (ht : till = s.now + s.world.durations.head?.getD 0) :
    Turns period s i call (some ⟨i, label, false, .idle due⟩)
      call (some ⟨i, label, false, .ticking ((program period).nextTick s.now due) till work⟩)
      (some ⟨i, s.now, till, .underway⟩)
  | quit (call : Option (Nat × Stand)) (label : String) (due : Nat) :
    Turns period s i call (some ⟨i, label, true, .idle due⟩) call none none
  | tock (call : Option (Nat × Stand)) (label : String) (told : Bool) (next till : Nat) (work : String × Nat)
    (h : till ≤ s.now) :
    Turns period s i call (some ⟨i, label, told, .ticking next till work⟩)
      call (some ⟨i, label, told, .idle next⟩) none

section
variable {s : State} {i : Nat} {call : Option (Nat × Stand)} {loop : Option Loop}

theorem Shows.alive (h : Shows s call loop) : s.alive = true := by
  simp [Tasks.State.alive, h.held]

theorem Shows.called {stand : Stand} (h : Shows s (some (i, stand)) loop) :
    s.tasks[i]? = some (.handler true stand.status) := h.active.called _ rfl

theorem Shows.looped {L : Loop} (h : Shows s call (some L)) : s.tasks[L.task]? = some L.entry :=
  (h.active.looped _ rfl).1

theorem Shows.asked_turn (period : Nat) {e : Errand} (h : Shows s (some (i, .asked e)) loop) :
    (program period).resume s i =
      { s with tasks := s.tasks.set i (.handler true (.queued e.request)), lock := s.lock ++ [i] } := by
  have hc := h.called
  cases e <;> simp [Tasks.Program.resume, Tasks.State.enabled, hc, Stand.status, Errand.stage, Errand.request,
    Tasks.Program.perform, program, act, Tasks.State.oblige, Tasks.State.setTask]

theorem Shows.leaving_turn (period : Nat) {answer : Bool} (h : Shows s (some (i, .leaving answer)) loop) :
    (program period).resume s i = { s with tasks := s.tasks.set i (.handler true (.finished answer)) } := by
  have hc := h.called
  simp [Tasks.Program.resume, Tasks.State.enabled, hc, Stand.status, Tasks.Program.perform, program, act,
    Tasks.State.oblige, Tasks.State.setTask]

theorem Shows.settle_turn {period : Nat} (hp : 0 < period) {label : String} {told : Bool}
    (h : Shows s call (some ⟨i, label, told, .fresh⟩)) :
    (program period).resume s i = { s with tasks := s.tasks.set i (.loop label told (.idle s.now)) } := by
  have hl := h.looped
  simp [Tasks.Program.resume, Tasks.State.enabled, hl, Loop.entry, Tasks.Program.turn, program,
    Nat.ne_of_gt hp, Tasks.State.setTask]

theorem Shows.tick_turn (period : Nat) {label : String} {due : Nat} (hd : due ≤ s.now)
    (h : Shows s call (some ⟨i, label, false, .idle due⟩)) :
    (program period).resume s i = { s with
      world := (s.world.beginTick s.now label).1
      tasks := s.tasks.set i (.loop label false (.ticking ((program period).nextTick s.now due)
        (s.now + s.world.durations.head?.getD 0) (label, s.now))) } := by
  have hl := h.looped
  simp [Tasks.Program.resume, Tasks.State.enabled, hl, Loop.entry, Tasks.Program.turn, program, hd, h.alive,
    Metronome.beginTick, Tasks.State.setTask]

theorem Shows.quit_turn (period : Nat) {label : String} {due : Nat}
    (h : Shows s call (some ⟨i, label, true, .idle due⟩)) :
    (program period).resume s i = { s with tasks := s.tasks.set i (.loop label true .over) } := by
  have hl := h.looped
  simp [Tasks.Program.resume, Tasks.State.enabled, hl, Loop.entry, Tasks.Program.turn, Tasks.State.setTask]

theorem Shows.tock_turn (period : Nat) {label : String} {told : Bool} {next till : Nat} {work : String × Nat}
    (ht : till ≤ s.now) (h : Shows s call (some ⟨i, label, told, .ticking next till work⟩)) :
    (program period).resume s i = { s with
      world := s.world.endTick work
      tasks := s.tasks.set i (.loop label told (.idle next)) } := by
  have hl := h.looped
  simp [Tasks.Program.resume, Tasks.State.enabled, hl, Loop.entry, Tasks.Program.turn, program, ht,
    Tasks.State.setTask]

theorem Shows.queued_turn (period : Nat) {e : Errand} (h : Shows s (some (i, .queued e)) loop) :
    (program period).resume s i = s.grant i true e.request := by
  rw [Tasks.Program.queued_turn _ h.called, if_pos]
  rw [h.lock]
  rfl

theorem Shows.halting_turn (period : Nat) {e : Errand} {l deadline : Nat}
    (h : Shows s (some (i, .halting e l deadline)) loop) (he : s.enabled i = true) :
    (program period).resume s i = (s.abort l).proceed i true e.request := by
  have hd : s.isOver l = true ∨ deadline ≤ s.now := by
    simpa [Tasks.State.enabled, h.called, Stand.status] using he
  rw [Tasks.Program.halting_turn _ h.called, if_pos hd]

/-- A loop that has ended is broken off without effect. -/
theorem abort_over {l : Nat} (h : s.isOver l = true) : s.abort l = s := by
  unfold Tasks.State.abort
  split
  next label told phase hl =>
    have hover : phase = .over := by
      rw [Tasks.State.isOver, hl] at h
      cases phase <;> first | rfl | cases h
    subst hover
    have hset : s.tasks.set l (.loop label told .over) = s.tasks := by
      apply List.ext_getElem?
      intro j
      by_cases hj : j = l
      · subst hj
        rw [Active.get_set_self _ hl, hl]
      · rw [List.getElem?_set_ne (Ne.symm hj)]
    rw [Tasks.State.setTask, hset]
  next => rfl

def withoutLoop (tasks : List Task) : Option Loop → List Task
  | none => tasks
  | some L => tasks.set L.task (.loop L.label L.told .over)

theorem Active.withoutLoop {tasks : List Task} {call : Option (Nat × Status)} (h : Active tasks call loop) :
    Active (withoutLoop tasks loop) call none := by
  cases loop with
  | none => exact h
  | some L => exact h.endLoop L.told

theorem length_withoutLoop (tasks : List Task) (loop : Option Loop) :
    (withoutLoop tasks loop).length = tasks.length := by
  cases loop with
  | none => rfl
  | some L => exact List.length_set

theorem Shows.abort {e : Errand} {l deadline : Nat} (h : Shows s (some (i, .halting e l deadline)) loop) :
    s.abort l = { s with tasks := withoutLoop s.tasks loop } := by
  obtain ⟨hsome, hnone⟩ := h.target i e l deadline rfl
  cases loop with
  | none => exact abort_over (hnone rfl)
  | some L =>
    obtain rfl := hsome L rfl
    rw [Tasks.State.abort, h.looped]
    rfl

/-- What has been granted to a call, or has had to be waited for, is over with its last turn. -/
def Left (s : State) (i : Nat) (answer : Bool) (tasks : List Task) (slot : Option Nat) : State :=
  { s with tasks := tasks.set i (.handler true (.ready (.done answer))), slot, lock := [] }

theorem Shows.start_turn (period : Nat) {label : String} (h : Shows s (some (i, .queued (.start label))) none) :
    (program period).resume s i =
      Left s i true (s.tasks ++ [.loop label false .fresh]) (some s.tasks.length) := by
  have hslot : s.slot = none := h.slot
  have hlock : s.lock = [i] := h.lock
  rw [h.queued_turn period]
  simp [Tasks.State.grant, Errand.request, hslot, hlock, Left, Tasks.State.startLoop, Tasks.State.addTask,
    Tasks.State.release, Tasks.State.setTask]

theorem Shows.decline_turn (period : Nat) (h : Shows s (some (i, .queued .stop)) none) :
    (program period).resume s i = Left s i false s.tasks none := by
  have hslot : s.slot = none := h.slot
  have hlock : s.lock = [i] := h.lock
  rw [h.queued_turn period]
  simp [Tasks.State.grant, Errand.request, hslot, hlock, Left, Tasks.State.release, Tasks.State.setTask]

theorem Shows.halt_turn (period : Nat) {e : Errand} {L : Loop} (h : Shows s (some (i, .queued e)) (some L)) :
    (program period).resume s i = { s with
      slot := none
      lock := if e.isStart then s.lock else s.lock.drop 1
      tasks := (s.tasks.set L.task (.loop L.label true L.phase)).set i
        (.handler true (.halting L.task (s.now + Tasks.haltTimeout) e.request)) } := by
  have hslot : s.slot = some L.task := h.slot
  have hloop := h.looped
  rw [h.queued_turn period]
  cases e <;> simp [Tasks.State.grant, Errand.request, hslot, Tasks.State.cancel, hloop, Loop.entry,
    Tasks.State.release, Tasks.State.setTask, Errand.isStart]

theorem Shows.restart_turn (period : Nat) {label : String} {l deadline : Nat}
    (h : Shows s (some (i, .halting (.start label) l deadline)) loop) (he : s.enabled i = true) :
    (program period).resume s i =
      Left s i true (withoutLoop s.tasks loop ++ [.loop label false .fresh]) (some s.tasks.length) := by
  have hlock : s.lock = [i] := h.lock
  rw [h.halting_turn period he, h.abort]
  simp [Tasks.State.proceed, Errand.request, hlock, Left, Tasks.State.startLoop, Tasks.State.addTask,
    Tasks.State.release, Tasks.State.setTask, length_withoutLoop]

theorem Shows.stop_turn (period : Nat) {l deadline : Nat}
    (h : Shows s (some (i, .halting .stop l deadline)) loop) (he : s.enabled i = true) :
    (program period).resume s i = Left s i true (withoutLoop s.tasks loop) none := by
  have hslot : s.slot = none := h.slot
  have hlock : s.lock = [] := h.lock
  rw [h.halting_turn period he, h.abort]
  simp [Tasks.State.proceed, Errand.request, hslot, hlock, Left, Tasks.State.setTask]

theorem Shows.queue {s' : State} {e : Errand} (h : Shows s (some (i, .asked e)) loop)
    (hs : s' = { s with tasks := s.tasks.set i (.handler true (.queued e.request)), lock := s.lock ++ [i] }) :
    Shows s' (some (i, .queued e)) loop := by
  subst hs
  have hlock : s.lock = [] := h.lock
  refine ⟨h.active.setCall _, h.held, h.slot, ?_, h.told, by simp⟩
  rw [hlock]
  rfl

theorem Shows.halt {s' : State} {e : Errand} {L : Loop} {deadline : Nat}
    (h : Shows s (some (i, .queued e)) (some L))
    (hs : s' = { s with
      slot := none
      lock := if e.isStart then s.lock else s.lock.drop 1
      tasks := (s.tasks.set L.task (.loop L.label true L.phase)).set i
        (.handler true (.halting L.task deadline e.request)) }) :
    Shows s' (some (i, .halting e L.task deadline)) (some { L with told := true }) := by
  subst hs
  have hlock : s.lock = [i] := h.lock
  refine ⟨(h.active.setLoop true (h.active.looped L rfl).2).setCall _, h.held, rfl, ?_, ?_, ?_⟩
  · rw [hlock]
    cases e <;> rfl
  · rintro L' ⟨⟩
    rfl
  · rintro j e' l deadline' ⟨⟩
    refine ⟨?_, by simp⟩
    rintro L' ⟨⟩
    rfl

theorem Shows.leave {stand : Stand} {tasks : List Task} {answer : Bool} {loop' : Option Loop}
    (h : Shows s (some (i, stand)) loop) (ht : Active tasks (some (i, stand.status)) loop')
    (htold : ∀ L ∈ loop', L.told = false) :
    Shows (Left s i answer tasks (loop'.map (·.task))) (some (i, .leaving answer)) loop' :=
  ⟨ht.setCall _, h.held, rfl, rfl, htold, by simp⟩

theorem Shows.finish {s' : State} {answer : Bool} (h : Shows s (some (i, .leaving answer)) loop)
    (hs : s' = { s with tasks := s.tasks.set i (.handler true (.finished answer)) }) : Shows s' none loop := by
  subst hs
  exact ⟨h.active.endCall answer, h.held, h.slot, h.lock, h.told, by simp⟩

/-- A turn of the loop concerns the loop only. -/
theorem Shows.setLoop {s' : State} {L : Loop} {world : Metronome} {phase : Phase} (h : Shows s call (some L))
    (hp : phase ≠ .over)
    (hs : s' = { s with world, tasks := s.tasks.set L.task (.loop L.label L.told phase) }) :
    Shows s' call (some { L with phase }) := by
  subst hs
  refine ⟨h.active.setLoop L.told hp, h.held, h.slot, h.lock, ?_, ?_⟩
  · rintro L' ⟨⟩
    exact h.told L rfl
  · intro j e l deadline hc
    refine ⟨?_, by simp⟩
    rintro L' ⟨⟩
    exact (h.target j e l deadline hc).1 L rfl

theorem Shows.quit {s' : State} {label : String} {due : Nat}
    (h : Shows s call (some ⟨i, label, true, .idle due⟩))
    (hs : s' = { s with tasks := s.tasks.set i (.loop label true .over) }) : Shows s' call none := by
  subst hs
  have htold : call.any (·.2.isHalting) = true := (h.told _ rfl).symm
  refine ⟨h.active.endLoop true, h.held, ?_, h.lock, by simp, ?_⟩
  · have hslot := h.slot
    rw [if_pos htold] at hslot ⊢
    exact hslot
  · intro j e l deadline hc
    refine ⟨by simp, fun _ => ?_⟩
    obtain rfl : i = l := (h.target j e l deadline hc).1 _ rfl
    have hover := Active.get_set_self (.loop label true .over) h.looped
    simp [Tasks.State.isOver, hover, Tasks.Task.isOver]

theorem live_of_enabled (he : s.enabled i = true) : ∃ t, s.tasks[i]? = some t ∧ t.isOver = false := by
  unfold Tasks.State.enabled at he
  cases ht : s.tasks[i]? with
  | none =>
    rw [ht] at he
    cases he
  | some t =>
    rw [ht] at he
    refine ⟨t, rfl, ?_⟩
    cases t with
    | handler holds status => cases status <;> first | rfl | cases he
    | loop label told phase => cases phase <;> first | rfl | cases he

/-- A call goes on that has waited long enough, or whose loop has ended. -/
theorem Shows.overdue {e : Errand} {l deadline : Nat} (h : Shows s (some (i, .halting e l deadline)) loop)
    (he : s.enabled i = true) : loop = none ∨ deadline ≤ s.now := by
  have hd : s.isOver l = true ∨ deadline ≤ s.now := by
    simpa [Tasks.State.enabled, h.called, Stand.status] using he
  refine hd.imp_left fun hover => ?_
  cases loop with
  | none => rfl
  | some L =>
    obtain rfl : L.task = l := (h.target i e l deadline rfl).1 L rfl
    obtain ⟨hloop, hphase⟩ := h.active.looped L rfl
    rw [Tasks.State.isOver, hloop] at hover
    obtain ⟨_, _, _, phase⟩ := L
    cases phase <;> first | exact absurd rfl hphase | cases hover

theorem Shows.turn {period : Nat} (hp : 0 < period) (h : Shows s call loop) (he : s.enabled i = true) :
    ∃ call' loop' new, Turns period s i call loop call' loop' new ∧
      Shows ((program period).resume s i) call' loop' := by
  obtain ⟨t, ht, hlive⟩ := live_of_enabled he
  rcases h.active.cases ht hlive with ⟨status, hc, rfl⟩ | ⟨⟨l, label, told, phase⟩, rfl, rfl, rfl⟩
  · obtain ⟨⟨j, stand⟩, rfl, heq⟩ := Option.map_eq_some_iff.mp hc
    cases heq
    cases stand with
    | asked e => exact ⟨_, _, _, .queue e loop, h.queue (h.asked_turn period)⟩
    | queued e =>
      cases loop with
      | none =>
        cases e with
        | start label =>
          rw [h.start_turn period]
          exact ⟨_, _, _, .start label, h.leave (h.active.addLoop label) (by rintro L ⟨⟩; rfl)⟩
        | stop =>
          rw [h.decline_turn period]
          exact ⟨_, _, _, .decline, h.leave h.active (by simp)⟩
      | some L => exact ⟨_, _, _, .halt e L, h.halt (h.halt_turn period)⟩
    | halting e l deadline =>
      have hd : loop = none ∨ deadline ≤ s.now := h.overdue he
      have hactive := h.active.withoutLoop
      cases e with
      | start label =>
        rw [h.restart_turn period he]
        have hadd := hactive.addLoop label
        rw [length_withoutLoop] at hadd
        exact ⟨_, _, _, .restart label l deadline loop hd, h.leave hadd (by rintro L ⟨⟩; rfl)⟩
      | stop =>
        rw [h.stop_turn period he]
        exact ⟨_, _, _, .stop l deadline loop hd, h.leave hactive (by simp)⟩
    | leaving answer => exact ⟨_, _, _, .finish answer loop, h.finish (h.leaving_turn period)⟩
  · cases phase with
    | fresh => exact ⟨_, _, _, .settle call label told, h.setLoop (by simp) (h.settle_turn hp)⟩
    | idle due =>
      cases told with
      | false =>
        have hd : due ≤ s.now := by simpa [Tasks.State.enabled, ht, Loop.entry] using he
        exact ⟨_, _, _, .tick call label due _ _ hd rfl, h.setLoop (by simp) (h.tick_turn period hd)⟩
      | true => exact ⟨_, _, _, .quit call label due, h.quit (h.quit_turn period)⟩
    | ticking next till work =>
      have hd : till ≤ s.now := by simpa [Tasks.State.enabled, ht, Loop.entry] using he
      exact ⟨_, _, _, .tock call label told next till work hd, h.setLoop (by simp) (h.tock_turn period hd)⟩
    | «over» => cases hlive

end

end LogDesk.Metronome
