import LogDesk.Proofs.Console.Aside
import LogDesk.Proofs.Console.Schedule
import Mathlib.Data.List.TakeWhile

/-! Where a script has come to that a console takes after its start. No other task has to do with the
timer or the settings then, so both are as the script has left them. -/

namespace LogDesk

def Event.switch? : Event → Option Bool
  | .setAutoRefresh on => some on
  | _ => none

def switchedTo (on : Bool) (events : List Event) : Bool :=
  events.foldl (fun on e => e.switch?.getD on) on

theorem switchedTo_concat (on : Bool) (es : List Event) (e : Event) :
    switchedTo on (es ++ [e]) = e.switch?.getD (switchedTo on es) := by
  simp [switchedTo]

def untilQuit (events : List Event) : List Event := events.takeWhile (· ≠ .quit)

theorem untilQuit_of_not_mem {events : List Event} (h : .quit ∉ events) :
    untilQuit events = events := by
  rw [untilQuit, List.takeWhile_eq_self_iff]
  intro e he
  simpa using ne_of_mem_of_not_mem he h

theorem untilQuit_append {before : List Event} (rest : List Event) (h : .quit ∉ before) :
    untilQuit (before ++ .quit :: rest) = before := by
  have hb : before.takeWhile (· ≠ .quit) = before := untilQuit_of_not_mem h
  rw [untilQuit, List.takeWhile_append, hb]
  simp

namespace Console

open Tasks (Poised Engaged)

variable {ς σ : Type}

def toward (on : Bool) (next : Stage) : Tasks.Request Unit Stage :=
  if on then .start () next else .stop next next

theorem toward_isStart (on : Bool) (next : Stage) : (toward on next).isStart = on := by
  cases on <;> rfl

theorem toward_stages {on : Bool} {next stage : Stage} (h : stage ∈ (toward on next).stages) :
    stage = next := by
  cases on <;> simpa [toward, Tasks.Request.stages] using h

theorem toward_ne_inspect (on : Bool) (next a b : Stage) : toward on next ≠ .inspect a b := by
  cases on <;> simp [toward]

theorem switch_wish (d : Desk ς σ) (on : Bool) (rest : Option (List Event)) :
    (switch d on rest).wish.status = .queued (toward on (.switched on rest)) ∧
      (switch d on rest).wish.request? = some (toward on (.switched on rest)) := by
  cases on <;> exact ⟨rfl, rfl⟩

/-- An event that does not concern the timer is taken and is through at once. -/
theorem takeEvent_wish [PreferenceStore σ] (t : Turn) (d : Desk ς σ) {e : Event} (rest : List Event) (hq : e ≠ .quit)
    (ha : e.switch? = none) :
    (takeEvent t d (e :: rest)).wish = .sleep t.now (.script rest) := by
  cases e with
  | quit => exact absurd rfl hq
  | setAutoRefresh => cases ha
  | _ => rfl

/-- Where a script of some events has come to, and how the timer stands. The events in `through` have
done all that they do to the timer and the settings. -/
inductive Place (on₀ : Bool) (events : List Event) (j : Nat) (s : State ς σ) :
    (through : List Event) → Prop where
  | between {through : List Event} (rest : List Event) (read : events = through ++ rest)
    (quit : .quit ∉ through) (task : Poised s j (.script rest)) (free : s.lock = [])
    (timer : s.slot.isSome = switchedTo on₀ through) : Place on₀ events j s through
  | switching {through : List Event} (on : Bool) (rest : List Event)
    (read : events = through ++ .setAutoRefresh on :: rest) (quit : .quit ∉ through)
    (task : Engaged s j (toward on (.switched on (some rest)))) : Place on₀ events j s through
  | switched {through : List Event} (on : Bool) (rest : List Event)
    (read : events = through ++ .setAutoRefresh on :: rest) (quit : .quit ∉ through)
    (task : Poised s j (.switched on (some rest))) (free : s.lock = [])
    (timer : s.slot.isSome = on) : Place on₀ events j s through
  | closing (task : Engaged s j (toward false (.done true))) : Place on₀ events j s (untilQuit events)
  | closed (task : Poised s j (.done true)) (free : s.lock = []) (timer : s.slot.isSome = false) :
    Place on₀ events j s (untilQuit events)
  | finished (task : s.tasks[j]? = some (.handler true (.finished true))) (free : s.lock = [])
    (timer : s.slot.isSome = false) : Place on₀ events j s (untilQuit events)

variable {on₀ : Bool} {events through : List Event} {j : Nat} {s s' : State ς σ}

/-- Nothing but its own turns moves a script. -/
theorem Place.keep (h : Place on₀ events j s through) (hs : s'.slot = s.slot) (hl : s'.lock = s.lock)
    (hn : s.now ≤ s'.now) (ht : s'.tasks[j]? = s.tasks[j]?) : Place on₀ events j s' through := by
  cases h with
  | between rest read quit task free timer =>
    exact .between rest read quit (task.keep ht hn) (hl.trans free) (by rw [hs, timer])
  | switching on rest read quit task => exact .switching on rest read quit (task.keep ht hs hl hn)
  | switched on rest read quit task free timer =>
    exact .switched on rest read quit (task.keep ht hn) (hl.trans free) (by rw [hs, timer])
  | closing task => exact .closing (task.keep ht hs hl hn)
  | closed task free timer => exact .closed (task.keep ht hn) (hl.trans free) (by rw [hs, timer])
  | finished task free timer => exact .finished (ht.trans task) (hl.trans free) (by rw [hs, timer])

/-- The task of a script is a handler all the time. -/
theorem Place.handler (h : Place on₀ events j s through) :
    ∃ status, s.tasks[j]? = some (.handler true status) := by
  have poised {stage : Stage} (h : Poised s j stage) :
      ∃ status, s.tasks[j]? = some (.handler true status) := by
    cases h with
    | ready task => exact ⟨_, task⟩
    | rested till task => exact ⟨_, task⟩
  have engaged {r : Tasks.Request Unit Stage} (h : Engaged s j r) :
      ∃ status, s.tasks[j]? = some (.handler true status) := by
    cases h with
    | queued task => exact ⟨_, task⟩
    | halted h =>
      obtain ⟨l, deadline, task, -⟩ := h.task
      exact ⟨_, task⟩
  cases h with
  | between _ _ _ task | switched _ _ _ _ task | closed task => exact poised task
  | switching _ _ _ _ task | closing task => exact engaged task
  | finished task => exact ⟨_, task⟩

/-- Before its next event the timer is as the script has switched it last. -/
theorem Place.timer (h : Place on₀ events j s through) {rest : List Event}
    (hs : .script rest ∈ s.stagesAt j) :
    events = through ++ rest ∧ .quit ∉ through ∧ s.slot.isSome = switchedTo on₀ through := by
  cases h with
  | between rest' read quit task free timer =>
    rw [task.stagesAt] at hs
    cases List.mem_singleton.mp hs
    exact ⟨read, quit, timer⟩
  | switching on rest' read quit task =>
    rw [task.stagesAt] at hs
    cases toward_stages hs
  | switched on rest' read quit task free timer =>
    rw [task.stagesAt] at hs
    cases List.mem_singleton.mp hs
  | closing task =>
    rw [task.stagesAt] at hs
    cases toward_stages hs
  | closed task free timer =>
    rw [task.stagesAt] at hs
    cases List.mem_singleton.mp hs
  | finished task free timer =>
    simp [Tasks.State.stagesAt, Tasks.Task.stages, Tasks.Status.stages, task] at hs

theorem engaged_no_script {on : Bool} {next : Stage} (h : Engaged s j (toward on next))
    (hn : ∀ rest, next ≠ .script rest) : ∀ rest, .script rest ∉ s.stagesAt j := by
  intro rest hs
  rw [h.stagesAt] at hs
  exact hn rest (toward_stages hs).symm

theorem settled_poised {on : Bool} {next : Stage} (h : Tasks.Settled s j (toward on next)) :
    Poised s j next ∧ s.lock = [] ∧ s.slot.isSome = on := by
  obtain ⟨⟨stage, hn, task⟩, lock, slot⟩ := h
  cases toward_stages hn
  exact ⟨.ready task, lock, slot.trans (toward_isStart on _)⟩

/-- The event that a script handles with a turn at a stage. A switch of the timer is handled when that has
come about. -/
def Stage.handles : Stage → Option Event
  | .script (e :: _) => if e = .quit ∨ e.switch?.isSome then none else some e
  | .switched on (some _) => some (.setAutoRefresh on)
  | _ => none

def handles (j : Nat) (s : State ς σ) : Move → Option Event
  | .turn i =>
    if i = j then
      match s.deed? j with
      | some (.act stage) => stage.handles
      | _ => none
    else none
  | _ => none

theorem handles_other {m : Move} (h : m ≠ .turn j) : handles j s m = none := by
  cases m with
  | turn i => exact if_neg fun hi => h (congrArg Move.turn hi)
  | _ => rfl

theorem handles_poised {stage : Stage} (h : Poised s j stage) :
    handles j s (.turn j) = stage.handles := by
  simp [handles, h.deed]

theorem handles_idle (h : s.deed? j = none) : handles j s (.turn j) = none := by
  simp [handles, h]

variable [LogService ς] [PreferenceStore σ]

/-- The place of a script after a move in which at most one event has had its effect. -/
structure Onward (on₀ : Bool) (events : List Event) (j : Nat) (s : State ς σ) (through : List Event)
    (m : Move) (more : Option Event) : Prop where
  place : Place on₀ events j (step s m) (through ++ more.toList)
  settings : (step s m).world.settings = s.world.settings.takeAll more.toList

theorem Onward.none {m : Move} (place : Place on₀ events j (step s m) through)
    (settings : (step s m).world.settings = s.world.settings) :
    Onward on₀ events j s through m .none :=
  ⟨by simpa using place, settings⟩

theorem poised_turn {stage : Stage} (h : Poised s j stage) :
    (step s (.turn j)).tasks[j]? =
        some (.handler true (act ⟨s.now, j⟩ s.world stage).wish.status) ∧
      (step s (.turn j)).slot = s.slot ∧ (step s (.turn j)).lock =
        s.lock ++ ((act ⟨s.now, j⟩ s.world stage).wish.request?.map fun _ => j).toList ∧
      (step s (.turn j)).now = s.now ∧
      (step s (.turn j)).world.settings = stage.applies.elim s.world.settings s.world.settings.take := by
  obtain ⟨-, -, -, hslot, hlock⟩ := program.act_turn h.deed
  refine ⟨h.turn program, hslot, hlock, Tasks.resume_now program s j, ?_⟩
  rw [step_settings]
  simp [applies, h.deed]

/-- A task that asks for nothing but its next turn has that at hand. -/
theorem poised_next {stage next : Stage} (h : Poised s j stage)
    (hw : (act ⟨s.now, j⟩ s.world stage).wish = .sleep s.now next) :
    Poised (step s (.turn j)) j next ∧ (step s (.turn j)).lock = s.lock := by
  obtain ⟨htask, -, hlock, hnow, -⟩ := poised_turn h
  rw [hw] at htask hlock
  refine ⟨.rested s.now htask (Nat.le_of_eq hnow.symm), ?_⟩
  rw [hlock]
  simp [Tasks.Wish.request?]

/-- A task that asks for the timer has it to itself. -/
theorem poised_asks {stage : Stage} {r : Tasks.Request Unit Stage} (h : Poised s j stage)
    (free : s.lock = [])
    (hw : (act ⟨s.now, j⟩ s.world stage).wish.status = .queued r ∧
      (act ⟨s.now, j⟩ s.world stage).wish.request? = some r) :
    Engaged (step s (.turn j)) j r := by
  obtain ⟨htask, -, hlock, -, -⟩ := poised_turn h
  rw [hw.1] at htask
  rw [hw.2, free] at hlock
  exact .queued htask hlock

theorem engaged_turn {on : Bool} {next : Stage} (h : Engaged s j (toward on next)) :
    (Engaged (step s (.turn j)) j (toward on next) ∨
      Poised (step s (.turn j)) j next ∧ (step s (.turn j)).lock = [] ∧
        (step s (.turn j)).slot.isSome = on) ∧
      (step s (.turn j)).world.settings = s.world.settings := by
  refine ⟨?_, ?_⟩
  · rcases h.turn program (toward_ne_inspect on next) with h' | h'
    · exact .inl (.halted h')
    · exact .inr (settled_poised h')
  · rw [step_settings]
    simp [applies, h.deed]

theorem between_takes {e : Event} {rest : List Event} (read : events = through ++ e :: rest)
    (quit : .quit ∉ through) (task : Poised s j (.script (e :: rest))) (free : s.lock = [])
    (timer : s.slot.isSome = switchedTo on₀ through) (hq : e ≠ .quit) (ha : e.switch? = none) :
    Onward on₀ events j s through (.turn j) (some e) := by
  obtain ⟨-, hslot, -, -, hset⟩ := poised_turn task
  obtain ⟨hnext, hlock⟩ := poised_next task (takeEvent_wish ⟨s.now, j⟩ s.world rest hq ha)
  refine ⟨.between rest (by simp [read]) (by simp [quit, hq.symm]) hnext (hlock.trans free) ?_, ?_⟩
  · rw [hslot, timer, Option.toList_some, switchedTo_concat, ha]
    rfl
  · rw [hset]
    cases e with
    | setAutoRefresh => cases ha
    | _ => rfl

/-- From between two events a script comes to the next such place, or to where the timer is switched. -/
theorem between_turn {rest : List Event} (read : events = through ++ rest) (quit : .quit ∉ through)
    (task : Poised s j (.script rest)) (free : s.lock = [])
    (timer : s.slot.isSome = switchedTo on₀ through) :
    Onward on₀ events j s through (.turn j) (handles j s (.turn j)) ∧
      (handles j s (.turn j) = none → ∀ rest, .script rest ∉ (step s (.turn j)).stagesAt j) := by
  obtain ⟨-, -, -, -, hset⟩ := poised_turn task
  rw [handles_poised task]
  cases rest with
  | nil =>
    obtain rfl : untilQuit events = through := by
      rw [read, List.append_nil]
      exact untilQuit_of_not_mem quit
    have hask : Engaged (step s (.turn j)) j (toward false (.done true)) :=
      poised_asks task free ⟨rfl, rfl⟩
    exact ⟨.none (.closing hask) hset, fun _ => engaged_no_script hask (by simp)⟩
  | cons e rest =>
    cases e with
    | quit =>
      obtain rfl : untilQuit events = through := by
        rw [read]
        exact untilQuit_append rest quit
      have hask : Engaged (step s (.turn j)) j (toward false (.done true)) :=
        poised_asks task free ⟨rfl, rfl⟩
      exact ⟨.none (.closing hask) hset, fun _ => engaged_no_script hask (by simp)⟩
    | setAutoRefresh on =>
      have hask := poised_asks task free (switch_wish s.world on (some rest))
      exact ⟨.none (.switching on rest read quit hask) hset,
        fun _ => engaged_no_script hask (by simp)⟩
    | _ => exact ⟨between_takes read quit task free timer (by simp) rfl, by simp [Stage.handles, Event.switch?]⟩

theorem switched_turn {on : Bool} {rest : List Event}
    (read : events = through ++ .setAutoRefresh on :: rest) (quit : .quit ∉ through)
    (task : Poised s j (.switched on (some rest))) (free : s.lock = []) (timer : s.slot.isSome = on) :
    Onward on₀ events j s through (.turn j) (some (.setAutoRefresh on)) := by
  obtain ⟨-, hslot, -, -, hset⟩ := poised_turn task
  obtain ⟨hnext, hlock⟩ : Poised (step s (.turn j)) j (.script rest) ∧ _ := poised_next task rfl
  refine ⟨.between rest (by simp [read]) (by simp [quit]) hnext (hlock.trans free) ?_, hset⟩
  rw [hslot, timer, Option.toList_some, switchedTo_concat]
  rfl

theorem closed_turn (task : Poised s j (.done true)) (free : s.lock = [])
    (timer : s.slot.isSome = false) : Onward on₀ events j s (untilQuit events) (.turn j) none := by
  obtain ⟨htask, hslot, hlock, -, hset⟩ := poised_turn task
  refine .none (.finished htask ?_ (hslot ▸ timer)) hset
  rw [hlock, free]
  rfl

theorem place_turn (h : Place on₀ events j s through) :
    Onward on₀ events j s through (.turn j) (handles j s (.turn j)) := by
  cases h with
  | between rest read quit task free timer => exact (between_turn read quit task free timer).1
  | switching on rest read quit task =>
    obtain ⟨ht, hset⟩ := engaged_turn task
    rw [handles_idle task.deed]
    rcases ht with ht | ⟨hnext, hlock, hslot⟩
    · exact .none (.switching on rest read quit ht) hset
    · exact .none (.switched on rest read quit hnext hlock hslot) hset
  | switched on rest read quit task free timer =>
    rw [handles_poised task]
    exact switched_turn read quit task free timer
  | closing task =>
    obtain ⟨ht, hset⟩ := engaged_turn task
    rw [handles_idle task.deed]
    rcases ht with ht | ⟨hnext, hlock, hslot⟩
    · exact .none (.closing ht) hset
    · exact .none (.closed hnext hlock hslot) hset
  | closed task free timer =>
    rw [handles_poised task]
    exact closed_turn task free timer
  | finished task free timer =>
    have hstep : step s (.turn j) = s := program.finished_turn task
    rw [handles_idle (by simp [Tasks.State.deed?, task])]
    exact .none (hstep.symm ▸ .finished task free timer) (by rw [hstep])

theorem place_step (m : Move) (ha : Aside (· = j) s) (h : Place on₀ events j s through) :
    Onward on₀ events j s through m (handles j s m) := by
  by_cases hk : m = .turn j
  · subst hk
    exact place_turn h
  · have hp : Passing s m := passing_step ha fun k hmk hkj => hk (hkj ▸ hmk)
    obtain ⟨status, task⟩ := h.handler
    have ht := (handler_step hk task).trans task.symm
    rw [handles_other hk]
    exact .none (h.keep hp.slot hp.lock hp.now ht) hp.settings

/-- A console that no one has asked anything, with its timer running or not. -/
structure Ready (on₀ : Bool) (c₀ : Settings σ) (s : State ς σ) : Prop where
  aside : Aside (fun _ => False) s
  free : s.lock = []
  timer : s.slot.isSome = on₀
  settings : s.world.settings = c₀

theorem ready_step {c₀ : Settings σ} {m : Move} (h : Ready on₀ c₀ s) (hm : m.aside = true) :
    Ready on₀ c₀ (step s m) := by
  have hp : Passing s m := passing_step h.aside fun _ _ => id
  exact ⟨aside_step h.aside hm, hp.lock.trans h.free, by rw [hp.slot, h.timer],
    hp.settings.trans h.settings⟩

theorem ready_after {c₀ : Settings σ} (h : Ready on₀ c₀ s) {ms : List Move}
    (hm : ∀ m ∈ ms, m.aside = true) : Ready on₀ c₀ (after s ms) := by
  induction ms with
  | nil => exact h
  | cons m ms ih =>
    exact ready_step (ih fun m' h => hm m' (List.mem_cons_of_mem m h)) (hm m List.mem_cons_self)

omit [LogService ς] [PreferenceStore σ] in
/-- A console that has just started its timer. -/
theorem ready_running (d : Desk ς σ) : Ready true d.settings ({
    world := d
    tasks := [.handler true (.finished true), .loop () false .fresh]
    slot := some 1 } : State ς σ) := by
  refine ⟨⟨fun i _ t ht => ?_, fun i _ stage hs => ?_⟩, rfl, rfl, rfl⟩
  · rcases i with _ | _ | i <;> cases ht <;> rfl
  · rcases i with _ | _ | i <;>
      simp [Tasks.State.stagesAt, Tasks.Task.stages, Tasks.Status.stages] at hs

/-- A console starts with its timer running just where it was left on. -/
theorem ready_start {service : ς} {store : σ} {scroll : UInt32} {r : Runner ς σ} {d : Desk ς σ}
    (hd : openDesk service store scroll = .ok d) (h : start service store scroll = .ok r) :
    Ready d.preferences.autoRefresh d.settings r.state := by
  rw [start, hd] at h
  simp only [Except.map, Except.ok.injEq] at h
  cases hon : d.preferences.autoRefresh with
  | false =>
    rw [hon] at h
    subst h
    refine ⟨⟨fun i _ t ht => ?_, fun i _ stage hs => ?_⟩, rfl, rfl, rfl⟩
    · cases ht
    · simp [Tasks.State.stagesAt] at hs
  | true =>
    rw [hon] at h
    have hr : r.state =
        { world := d, tasks := [.handler true (.finished true), .loop () false .fresh], slot := some 1 } := by
      subst h
      rfl
    rw [hr]
    exact ready_running d

/-- A script begins before its first event. -/
theorem place_ask {c₀ : Settings σ} (h : Ready on₀ c₀ s) (events : List Event) :
    Place on₀ events s.tasks.length (step s (.ask (.script events))) [] ∧
      Aside (· = s.tasks.length) (step s (.ask (.script events))) := by
  have task : (step s (.ask (.script events))).tasks[s.tasks.length]? =
      some (.handler true (.ready (.script events))) := List.getElem?_concat_length
  refine ⟨.between events rfl (by simp) (.ready task) h.free h.timer, ⟨fun i hi t ht => ?_,
    fun i hi stage hs => ?_⟩⟩
  · rcases (s.addTask_get _).mp ht with ht | ⟨hlast, -⟩
    · exact h.aside.calm i id t ht
    · exact absurd hlast hi
  · cases stage_comes hs with
    | stays hs _ => exact h.aside.stages i id stage hs
    | goes _ turn => cases turn
    | begins _ _ _ turn => cases turn
    | asked _ _ place => exact absurd place hi

end Console

end LogDesk
