import LogDesk.Proofs.Console.Polling
import LogDesk.Proofs.Console.Said
import LogDesk.Proofs.Preferences.InStep

/-! How a script ends. It handles the events before the first that quits, one after another, and then stops
the timer, whatever that is at. The settings stay as the events have left them, in memory and in their
store. -/

namespace LogDesk.Console

open Tasks (Poised Engaged)

variable {ς σ : Type} [LogService ς] [PreferenceStore σ]

/-- What a turn of a script does that handles an event, or none. -/
inductive Handling (s : State ς σ) (j : Nat) : Option Event → Prop where
  /-- A request is handed to a task of its own. -/
  | hands (e : Event) (request : e.isRequest = true) (world : (step s (.turn j)).world = s.world)
    (spawned : program.spawned s j = [⟨true, .handle e⟩]) : Handling s j (some e)
  /-- All that a task of its own would do for the event is done at once. -/
  | applies (e : Event) (inline : e.isRequest = false) (still : e.switch? = none)
    (world : (step s (.turn j)).world = (act ⟨s.now, j⟩ s.world (.handle e)).world)
    (spawned : program.spawned s j = (act ⟨s.now, j⟩ s.world (.handle e)).spawned) :
    Handling s j (some e)
  /-- The timer is as it was to be switched, and the rest of what a task of its own would do is done. -/
  | switches (on : Bool) (timer : s.slot.isSome = on)
    (world : (step s (.turn j)).world = (act ⟨s.now, j⟩ s.world (.switched on none)).world)
    (spawned : program.spawned s j = (act ⟨s.now, j⟩ s.world (.switched on none)).spawned) :
    Handling s j (some (.setAutoRefresh on))
  | idles (world : (step s (.turn j)).world = s.world) (spawned : program.spawned s j = []) :
    Handling s j none

variable {on₀ : Bool} {events through : List Event} {j : Nat} {s : State ς σ}

theorem poised_deeds {stage : Stage} (h : Poised s j stage) :
    (step s (.turn j)).world = (act ⟨s.now, j⟩ s.world stage).world ∧
      program.spawned s j = (act ⟨s.now, j⟩ s.world stage).spawned := by
  have hw : (step s (.turn j)).world = _ := program.resume_world s j
  rw [h.deed] at hw
  exact ⟨hw, by rw [Tasks.Program.spawned, h.deed]; rfl⟩

theorem idle_handling (h : s.deed? j = none) : Handling s j (handles j s (.turn j)) := by
  have hw : (step s (.turn j)).world = _ := program.resume_world s j
  rw [h] at hw
  rw [handles_idle h]
  exact .idles hw (by rw [Tasks.Program.spawned, h])

theorem script_handling {rest : List Event} (h : Poised s j (.script rest)) :
    Handling s j (handles j s (.turn j)) := by
  obtain ⟨hw, hs⟩ := poised_deeds h
  rw [handles_poised h]
  cases rest with
  | nil => exact .idles hw hs
  | cons e rest =>
    cases he : e.isRequest with
    | true =>
      have ht : act ⟨s.now, j⟩ s.world (.script (e :: rest)) = _ :=
        takeEvent_request ⟨s.now, j⟩ s.world rest he
      rw [ht] at hw hs
      have hh : Stage.handles (.script (e :: rest)) = some e := by
        cases e <;> first | rfl | cases he
      rw [hh]
      exact .hands e he hw hs
    | false =>
      cases e with
      | quit | setAutoRefresh => exact .idles hw hs
      | closeJobs | setInterval | expandRow | collapseRow | dismissToast =>
        have ht : act ⟨s.now, j⟩ s.world (.script (_ :: rest)) = _ :=
          takeEvent_inline ⟨s.now, j⟩ s.world rest he (by simp) (by simp)
        rw [ht] at hw hs
        exact .applies _ he rfl hw hs
      | _ => cases he

theorem Place.handling (h : Place on₀ events j s through) :
    Handling s j (handles j s (.turn j)) := by
  cases h with
  | between rest read quit task => exact script_handling task
  | switching on rest read quit task => exact idle_handling task.deed
  | switched on rest read quit task free timer =>
    obtain ⟨hw, hs⟩ := poised_deeds task
    rw [handles_poised task]
    exact .switches on timer hw hs
  | closing task => exact idle_handling task.deed
  | closed task =>
    obtain ⟨hw, hs⟩ := poised_deeds task
    rw [handles_poised task]
    exact .idles hw hs
  | finished task => exact idle_handling (by simp [Tasks.State.deed?, task])

def handled (j : Nat) (s : State ς σ) : List Move → List Event
  | [] => []
  | m :: earlier => handled j s earlier ++ (handles j (after s earlier) m).toList

structure Serving (on₀ : Bool) (events : List Event) (j : Nat) (s : State ς σ) (run : List Move) :
    Prop where
  place : Place on₀ events j (after s run) (handled j s run)
  settings : (after s run).world.settings = s.world.settings.takeAll (handled j s run)
  aside : Aside (· = j) (after s run)

theorem serving_after {c₀ : Settings σ} (h : Ready on₀ c₀ s) (events : List Event) {ms : List Move}
    (hm : ∀ m ∈ ms, m.aside = true) :
    Serving on₀ events s.tasks.length (step s (.ask (.script events))) ms := by
  induction ms with
  | nil =>
    obtain ⟨place, aside⟩ := place_ask h events
    exact ⟨place, rfl, aside⟩
  | cons m ms ih =>
    obtain ⟨place, settings, aside⟩ := ih fun m' h => hm m' (List.mem_cons_of_mem m h)
    obtain ⟨place', settings'⟩ := place_step m aside place
    refine ⟨place', ?_, aside_step aside (hm m List.mem_cons_self)⟩
    rw [handled, Settings.takeAll_append, ← settings]
    exact settings'

/-- When the script is over, the console is as one that no one has asked anything. -/
theorem Serving.ready {run : List Move} (h : Serving on₀ events j s run)
    (ho : (after s run).isOver j = true) :
    Ready false (after s run).world.settings (after s run) := by
  obtain ⟨-, task, free, timer⟩ := h.place.over ho
  refine ⟨⟨fun i _ t ht => ?_, fun i _ stage hs => ?_⟩, free, timer, rfl⟩
  · by_cases hi : i = j
    · subst hi
      rw [task] at ht
      cases ht
      rfl
    · exact h.aside.calm i hi t ht
  · by_cases hi : i = j
    · subst hi
      simp [Tasks.State.stagesAt, Tasks.Task.stages, Tasks.Status.stages, task] at hs
    · exact h.aside.stages i hi stage hs

theorem Ready.stopped {c : Settings σ} (h : Ready false c s) (single : s.Single) :
    s.running = false ∧ ∀ l beat, s.deed? l ≠ some (.beginTick beat) := by
  have hslot : s.slot = none := by simpa using h.timer
  refine ⟨by simp [Tasks.State.running, hslot], fun l beat hd => ?_⟩
  obtain ⟨due, task, -⟩ := program.resume_beginTick hd
  rcases single.kept l _ task trivial with hs | ⟨i, d, r, holds, halts⟩
  · rw [hslot] at hs
    cases hs
  · cases h.aside.calm i id _ halts

theorem loop_step {l : Nat} {beat : Unit} {c : Bool} {phase : Tasks.Phase Reload}
    (h : s.tasks[l]? = some (.loop beat c phase)) (m : Move) :
    ∃ beat c phase, (step s m).tasks[l]? = some (.loop beat c phase) := by
  cases m with
  | turn k =>
    by_cases hk : l = k
    · subst hk
      obtain ⟨c', phase', h'⟩ := program.loop_turn h
      exact ⟨beat, c', phase', h'⟩
    · have hs := program.resume_other s hk
      rw [h] at hs
      change ∃ beat c phase, (program.resume s k).tasks[l]? = some (.loop beat c phase)
      generalize (program.resume s k).tasks[l]? = t at hs ⊢
      cases hs <;> exact ⟨_, _, _, rfl⟩
  | ask e => exact ⟨beat, c, phase, (s.addTask_get _).mpr (.inl h)⟩
  | _ => exact ⟨beat, c, phase, h⟩

/-- What holds from the end of a script on, as long as no one asks for the timer or other settings. -/
structure Shut (s : State ς σ) : Prop where
  stopped : ∀ later, (∀ m ∈ later, m.aside = true) →
    (after s later).running = false ∧ ∀ l beat, (after s later).deed? l ≠ some (.beginTick beat)
  /-- None of the timer's loops calls the server any more. -/
  silent : ∀ later, (∀ m ∈ later, m.aside = true) → ∀ l beat c phase,
    s.tasks[l]? = some (.loop beat c phase) → (after s later).world.saidBy l = s.world.saidBy l
  settings : ∀ later, (∀ m ∈ later, m.aside = true) →
    (after s later).world.settings = s.world.settings

theorem Ready.shut {c : Settings σ} (h : Ready false c s) (single : s.Single) (unbroken : s.Unbroken) :
    Shut s := by
  have stopped (later : List Move) (hm : ∀ m ∈ later, m.aside = true) :
      (after s later).running = false ∧
        ∀ l beat, (after s later).deed? l ≠ some (.beginTick beat) :=
    (ready_after h hm).stopped (unbroken_after single unbroken later).1
  refine ⟨stopped, fun later hm l beat c phase hl => ?_,
    fun later hm => (ready_after h hm).settings.trans h.settings.symm⟩
  suffices hs : (after s later).world.saidBy l = s.world.saidBy l ∧
      ∃ beat c phase, (after s later).tasks[l]? = some (.loop beat c phase) from hs.1
  induction later with
  | nil => exact ⟨rfl, beat, c, phase, hl⟩
  | cons m later ih =>
    have hm' : ∀ m ∈ later, m.aside = true := fun m' h => hm m' (List.mem_cons_of_mem m h)
    obtain ⟨hsaid, beat', c', phase', hl'⟩ := ih hm'
    refine ⟨Eq.trans ?_ hsaid, loop_step hl' m⟩
    by_cases hi : m = .turn l
    · subst hi
      have hn : saying (after s later) l = [] := by
        unfold saying
        split
        next stage hd => exact absurd hd (Tasks.Program.loop_deed hl' stage)
        next beat hd => exact absurd hd ((stopped later hm').2 l beat)
        next => rfl
      exact (turn_speaks (after s later) l).self.trans (by rw [hn, List.append_nil])
    · exact step_said hi

theorem take_course {others : σ → σ → Prop} {first : σ} {c : Settings σ}
    (h : Preferences.Course others first c.preferences c.store) (e : Event) :
    Preferences.Course others first (c.take e).preferences (c.take e).store := by
  cases e with
  | setInterval seconds => exact h.setInterval seconds
  | setAutoRefresh on => exact h.setAutoRefresh on
  | _ => exact h

section
variable {service : ς} {store : σ} {scroll : UInt32} {d : Desk ς σ}

theorem settings_course (others : σ → σ → Prop) (hd : openDesk service store scroll = .ok d)
    (ms : List Move) : Preferences.Course others store
      (after ({ world := d } : State ς σ) ms).world.settings.preferences
      (after ({ world := d } : State ς σ) ms).world.settings.store := by
  induction ms with
  | nil =>
    unfold openDesk at hd
    split at hd
    · cases hd
    next s p hl =>
      cases hd
      exact .loaded hl
  | cons m ms ih =>
    rw [after, step_settings]
    cases applies (after ({ world := d } : State ς σ) ms) m with
    | none => exact ih
    | some e => exact take_course ih e

/-- Started again, a console has the same settings, and its timer runs just where the flag was on. -/
def Restarts (s : State ς σ) : Prop :=
  ∀ (ς' : Type) [LogService ς'] (service' : ς') (scroll' : UInt32), ∃ r : Runner ς' σ,
    start service' s.world.store scroll' = .ok r ∧ r.state.world.settings = s.world.settings ∧
      r.state.running = s.world.preferences.autoRefresh

theorem restarts [KeepingStore σ] (hd : openDesk service store scroll = .ok d) (ms : List Move) :
    Restarts (after ({ world := d } : State ς σ) ms) := by
  intro ς' _ service' scroll'
  have hload : Preferences.load (after ({ world := d } : State ς σ) ms).world.store = _ :=
    (Preferences.course_inStep (settings_course Preferences.KeepContents hd ms)).reload
  generalize after ({ world := d } : State ς σ) ms = s at hload ⊢
  obtain ⟨d', hd', hsettings⟩ : ∃ d' : Desk ς' σ,
      openDesk service' s.world.store scroll' = .ok d' ∧ d'.settings = s.world.settings := by
    refine ⟨_, by rw [openDesk, hload], rfl⟩
  obtain ⟨r, hr⟩ : ∃ r : Runner ς' σ, start service' s.world.store scroll' = .ok r :=
    ⟨_, by rw [start, hd']; rfl⟩
  have ready := ready_start hd' hr
  refine ⟨r, hr, ready.settings.trans hsettings, ?_⟩
  rw [(start_unbroken hr).2.running, ready.timer]
  exact congrArg (·.preferences.autoRefresh) hsettings

/-- What a console does with a script that task `j` takes from `s` on. -/
structure Served (events : List Event) (j : Nat) (s : State ς σ) (ms : List Move) : Prop where
  ordered : handled j s ms <+: untilQuit events
  turns : ∀ last between, ms = last ++ .turn j :: between →
    Handling (after s between) j (handles j (after s between) (.turn j))
  settings : (after s ms).world.settings = s.world.settings.takeAll (handled j s ms)
  canEnd : CanEnd (after s ms) j
  whole : (after s ms).isOver j = true → handled j s ms = untilQuit events
  shut : (after s ms).isOver j = true → Shut (after s ms)
  restarts : ∀ [KeepingStore σ], Restarts (after s ms)

/-- A script is handled up to the first event that quits, and no further. Whatever the server does, the
timer is off from its end on, and the settings are as its events have left them. The timer may be off,
fresh, between two ticks, in one or started anew before it, but no other task may still be about to switch
it or to write a setting: that is `Ready`. -/
theorem script_served (hd : openDesk service store scroll = .ok d) {prior : List Move} {c₀ : Settings σ}
    (hr : Ready on₀ c₀ (after ({ world := d } : State ς σ) prior)) (events : List Event) {ms : List Move}
    (hm : ∀ m ∈ ms, m.aside = true) :
    Served events (after ({ world := d } : State ς σ) prior).tasks.length
      (after ({ world := d } : State ς σ) (.ask (.script events) :: prior)) ms := by
  have serving {ms : List Move} (hm : ∀ m ∈ ms, m.aside = true) := serving_after hr events hm
  obtain ⟨single, unbroken⟩ := unbroken_after (s := ({ world := d } : State ς σ))
    (Tasks.Program.single_start d) (Tasks.State.unbroken_of_none rfl)
    (ms ++ .ask (.script events) :: prior)
  have restart [KeepingStore σ] : Restarts (after ({ world := d } : State ς σ) _) :=
    restarts hd (ms ++ .ask (.script events) :: prior)
  rw [after_append] at single unbroken restart
  exact {
    ordered := Place.prefix (serving hm).place
    turns := fun last between h => (serving fun m h' => hm m (by simp [h, h'])).place.handling
    settings := (serving hm).settings
    canEnd := (serving hm).place.canEnd
    whole := fun ho => ((serving hm).place.over ho).1
    shut := fun ho => ((serving hm).ready ho).shut single unbroken
    restarts := restart }

end

/-- A refresh by the timer takes a minute, and is broken off at the end of the script. -/
theorem script_served_waiting :
    let deck : Deck := ⟨[(.ok [], 60000)]⟩
    let store : MemoryStore := ⟨[("autoRefresh", "true"), ("seconds", "5")], none⟩
    let d : Desk Deck MemoryStore :=
      { service := deck, store, preferences := ⟨true, 5⟩,
        log := [⟨⟨0, 0⟩, .shown (.showPreferences ⟨true, 5⟩)⟩] }
    let opening : List Move := [.turn 0, .turn 0, .turn 0, .ask .startTimer]
    let prior : List Move := [.turn 1, .turn 1] ++ opening
    let events : List Event := [.closeJobs, .quit, .setAutoRefresh false]
    let s : State Deck MemoryStore := after { world := d } (.ask (.script events) :: prior)
    let quits : List Move := [.turn 2, .turn 2, .turn 2]
    let ms : List Move := [.turn 2, .turn 2, .wait 5000] ++ quits
    openDesk deck store 0 = .ok d ∧ Served events 2 s ms ∧
      ((after s quits).workAt 1).isSome = true ∧ (after s quits).isOver 2 = false ∧
      (after s ms).isOver 2 = true ∧ (after s ms).world.preferences.autoRefresh = true ∧
      (after s ([.turn 1, .wait 60000] ++ ms)).world.saidBy 1 = [.call .listRecords] ∧
      (after s ([.turn 1, .wait 60000] ++ ms)).world.shown =
        [.showPreferences ⟨true, 5⟩, .clearJobs] := by
  intro deck store d opening prior events s quits ms
  have hd : openDesk deck store 0 = .ok d := rfl
  have started : after ({ world := d } : State Deck MemoryStore) opening = {
      world := d
      tasks := [.handler true (.finished true), .loop () false .fresh]
      slot := some 1 } := rfl
  have hr : Ready true d.settings (after ({ world := d } : State Deck MemoryStore) prior) := by
    rw [after_append, started]
    exact ready_after (ready_running d) (by decide)
  have hm : ∀ m ∈ ms, m.aside = true := by decide
  have served := script_served hd hr events hm
  have hj : (after ({ world := d } : State Deck MemoryStore) prior).tasks.length = 2 := by
    decide +kernel
  rw [hj] at served
  exact ⟨hd, served, by decide +kernel, by decide +kernel, by decide +kernel, by decide +kernel,
    by decide +kernel, by decide +kernel⟩

end LogDesk.Console
