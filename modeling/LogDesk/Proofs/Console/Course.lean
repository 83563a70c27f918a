import LogDesk.Proofs.Console.Place

/-! The course of the settings while a console takes a script: the same for all services, however long
their answers take and whatever they are. It holds one value after another of a fold over the script's
events. -/

namespace LogDesk

/-- The first list holds each value of the second, in order, one or more times. -/
inductive Dwells {α : Type} : List α → List α → Prop where
  | nil : Dwells [] []
  | comes (a : α) {held values : List α} (h : Dwells held values) : Dwells (a :: held) (a :: values)
  | stays {a : α} {held values : List α} (h : Dwells held (a :: values)) :
    Dwells (a :: held) (a :: values)

def Event.changes : Event → Bool
  | .setInterval _ | .setAutoRefresh _ => true
  | _ => false

/-- The changes that are asked for before the first event that quits. -/
def changesOf (events : List Event) : List Event := (untilQuit events).filter Event.changes

namespace Settings

variable {σ : Type} [PreferenceStore σ]

def course (c : Settings σ) : List Event → List (Settings σ)
  | [] => [c]
  | e :: rest => c :: (c.take e).course rest

theorem course_concat (c : Settings σ) (es : List Event) (e : Event) :
    c.course (es ++ [e]) = c.course es ++ [(c.takeAll es).take e] := by
  induction es generalizing c with
  | nil => rfl
  | cons f es ih =>
    rw [List.cons_append, course, ih, course, List.cons_append]
    rfl

/-- A course ends with the settings that are left. -/
theorem course_reverse (c : Settings σ) (es : List Event) :
    ∃ older, (c.course es).reverse = c.takeAll es :: older := by
  induction es using List.reverseRecOn with
  | nil => exact ⟨[], rfl⟩
  | append_singleton es e _ =>
    refine ⟨(c.course es).reverse, ?_⟩
    rw [course_concat, List.reverse_append, takeAll_append]
    rfl

theorem take_other (c : Settings σ) {e : Event} (h : e.changes = false) : c.take e = c := by
  cases e <;> first | rfl | cases h

theorem takeAll_filter (c : Settings σ) (es : List Event) :
    c.takeAll (es.filter Event.changes) = c.takeAll es := by
  induction es generalizing c with
  | nil => rfl
  | cons e es ih =>
    change _ = (c.take e).takeAll es
    cases h : e.changes with
    | true =>
      rw [List.filter_cons_of_pos h]
      exact ih (c.take e)
    | false =>
      rw [List.filter_cons_of_neg (by simp [h]), ih, take_other c h]

end Settings

namespace Console

open Tasks (Poised Engaged)

variable {ς σ : Type}

variable {on₀ : Bool} {events through : List Event} {j : Nat} {s : State ς σ}

/-- A script goes through its events from the front. -/
theorem Place.prefix (h : Place on₀ events j s through) : through <+: untilQuit events := by
  have front {rest : List Event} (read : events = through ++ rest) (quit : .quit ∉ through) :
      through <+: untilQuit events := by
    have hall : ∀ e ∈ through, decide (e ≠ .quit) = true := fun e he => by
      simpa using ne_of_mem_of_not_mem he quit
    rw [untilQuit, read, List.takeWhile_append_of_pos hall]
    exact List.prefix_append _ _
  cases h with
  | between rest read quit => exact front read quit
  | switching on rest read quit => exact front read quit
  | switched on rest read quit => exact front read quit
  | closing | closed | finished => exact List.prefix_refl _

/-- At the end of a script all its events are through, and the timer is free and off. -/
theorem Place.over (h : Place on₀ events j s through) (ho : s.isOver j = true) :
    through = untilQuit events ∧ s.tasks[j]? = some (.handler true (.finished true)) ∧ s.lock = [] ∧
      s.slot.isSome = false := by
  have poised {stage : Stage} (h : Poised s j stage) : s.isOver j = false := by
    cases h <;> simp [Tasks.State.isOver, Tasks.Task.isOver, *]
  have engaged {r : Tasks.Request Unit Stage} (h : Engaged s j r) : s.isOver j = false := by
    cases h with
    | queued task => simp [Tasks.State.isOver, Tasks.Task.isOver, task]
    | halted h =>
      obtain ⟨l, deadline, task, -⟩ := h.task
      simp [Tasks.State.isOver, Tasks.Task.isOver, task]
  cases h with
  | between _ _ _ task | switched _ _ _ _ task | closed task =>
    rw [poised task] at ho
    cases ho
  | switching _ _ _ _ task | closing task =>
    rw [engaged task] at ho
    cases ho
  | finished task free timer => exact ⟨rfl, task, free, timer⟩

variable [LogService ς] [PreferenceStore σ]

def trail (s : State ς σ) : List Move → List (Settings σ)
  | [] => [s.world.settings]
  | m :: earlier => (after s (m :: earlier)).world.settings :: trail s earlier

theorem dwells_ready {c₀ : Settings σ} (h : Ready on₀ c₀ s) {ms : List Move}
    (hm : ∀ m ∈ ms, m.internal = true) : Dwells (trail s ms) (c₀.course []).reverse := by
  induction ms with
  | nil =>
    rw [trail, h.settings]
    exact .comes _ .nil
  | cons m ms ih =>
    rw [trail, (ready_after h fun m' h => internal_aside (hm m' h)).settings]
    exact .stays (ih fun m' h => hm m' (List.mem_cons_of_mem m h))

theorem dwells_onward {c₀ c : Settings σ} {held : List (Settings σ)} {more : Option Event}
    (h : Dwells held (c₀.course (through.filter Event.changes)).reverse)
    (hc : c = (c₀.takeAll through).takeAll more.toList) :
    Dwells (c :: held) (c₀.course ((through ++ more.toList).filter Event.changes)).reverse := by
  have stays (hsame : c = c₀.takeAll through) :
      Dwells (c :: held) (c₀.course (through.filter Event.changes)).reverse := by
    obtain ⟨older, ho⟩ := c₀.course_reverse (through.filter Event.changes)
    rw [c₀.takeAll_filter, ← hsame] at ho
    rw [ho] at h ⊢
    exact .stays h
  cases more with
  | none =>
    simpa using stays hc
  | some e =>
    have hc' : c = (c₀.takeAll through).take e := hc
    cases he : e.changes with
    | false =>
      rw [Settings.take_other _ he] at hc'
      simpa [List.filter_append, he] using stays hc'
    | true =>
      have hf : (through ++ [e]).filter Event.changes = through.filter Event.changes ++ [e] := by
        simp [List.filter_append, he]
      rw [Option.toList_some, hf, Settings.course_concat, c₀.takeAll_filter, ← hc',
        List.reverse_append]
      exact .comes c h

/-- A console after a run in which task `j` has taken a script as far as the events in `through`. -/
structure Taking (on₀ : Bool) (c₀ : Settings σ) (events : List Event) (j : Nat) (s : State ς σ)
    (run : List Move) (through : List Event) : Prop where
  place : Place on₀ events j (after s run) through
  settings : (after s run).world.settings = c₀.takeAll through
  aside : Aside (· = j) (after s run)
  dwells : Dwells (trail s run) (c₀.course (through.filter Event.changes)).reverse

theorem taking_start {c₀ : Settings σ} (h : Ready on₀ c₀ s) (events : List Event)
    {opening : List Move} (ho : ∀ m ∈ opening, m.internal = true) :
    Taking on₀ c₀ events (after s opening).tasks.length s (.ask (.script events) :: opening) [] := by
  have hr := ready_after h fun m' h => internal_aside (ho m' h)
  obtain ⟨hp, ha⟩ := place_ask hr events
  refine ⟨hp, hr.settings, ha, ?_⟩
  have hs : (after s (.ask (.script events) :: opening)).world.settings = c₀ := hr.settings
  rw [trail, hs]
  exact .stays (dwells_ready h ho)

theorem taking_step {c₀ : Settings σ} {run : List Move} {m : Move}
    (h : Taking on₀ c₀ events j s run through) (hm : m.internal = true) :
    ∃ through, Taking on₀ c₀ events j s (m :: run) through := by
  obtain ⟨place, settings⟩ := place_step m h.aside h.place
  rw [h.settings] at settings
  exact ⟨_, place, by rw [Settings.takeAll_append]; exact settings,
    aside_step h.aside (internal_aside hm), dwells_onward h.dwells settings⟩

/-- A script that is asked of a console after its start, with any moves before and after. -/
theorem taking_after {c₀ : Settings σ} (h : Ready on₀ c₀ s) (events : List Event)
    {opening ms : List Move} (ho : ∀ m ∈ opening, m.internal = true)
    (hm : ∀ m ∈ ms, m.internal = true) :
    ∃ through, Taking on₀ c₀ events (after s opening).tasks.length s
      (ms ++ .ask (.script events) :: opening) through := by
  induction ms with
  | nil => exact ⟨[], taking_start h events ho⟩
  | cons m ms ih =>
    obtain ⟨through, ht⟩ := ih fun m' h => hm m' (List.mem_cons_of_mem m h)
    exact taking_step ht (hm m List.mem_cons_self)

def CanEnd (s : State ς σ) (j : Nat) : Prop :=
  ∃ more : List Move, (∀ m ∈ more, m.internal = true) ∧ (after s more).isOver j = true

theorem canEnd_step {m : Move} (hm : m.internal = true) (h : CanEnd (step s m) j) : CanEnd s j := by
  obtain ⟨more, hmore, ho⟩ := h
  refine ⟨more ++ [m], fun m' h' => ?_, by rw [after_append]; exact ho⟩
  rcases List.mem_append.mp h' with h' | h'
  · exact hmore m' h'
  · rw [List.mem_singleton.mp h']
    exact hm

/-- The timer is switched as soon as the loop before has had its time to end. -/
theorem canEnd_engaged {on : Bool} {next : Stage} (h : Engaged s j (toward on next))
    (hn : ∀ s' : State ς σ, Poised s' j next → s'.lock = [] → s'.slot.isSome = on → CanEnd s' j) :
    CanEnd s j := by
  have settled {s' : State ς σ} (h : Tasks.Settled s' j (toward on next)) : CanEnd s' j := by
    obtain ⟨task, lock, slot⟩ := settled_poised h
    exact hn s' task lock slot
  have hr := toward_ne_inspect on next
  refine canEnd_step (m := .turn j) rfl ?_
  rcases h.turn program hr with h' | h'
  · refine canEnd_step (m := .wait Tasks.haltTimeout) rfl (canEnd_step (m := .turn j) rfl ?_)
    exact settled (h'.wait program hr)
  · exact settled h'

theorem canEnd_closed (task : Poised s j (.done true)) : CanEnd s j := by
  refine canEnd_step (m := .turn j) rfl ⟨[], by simp, ?_⟩
  have hover := (poised_turn task).1
  change ((step s (.turn j)).tasks[j]?.map Tasks.Task.isOver).getD true = true
  rw [hover]
  rfl

/-- From where the timer is switched. -/
theorem Place.canEnd_switching (h : Place on₀ events j s through)
    (hs : ∀ rest, .script rest ∉ s.stagesAt j)
    (ih : ∀ (s' : State ς σ) (e : Event), Place on₀ events j s' (through ++ [e]) → CanEnd s' j) :
    CanEnd s j := by
  have switched {s' : State ς σ} {on : Bool} {rest : List Event}
      (read : events = through ++ .setAutoRefresh on :: rest) (quit : .quit ∉ through)
      (task : Poised s' j (.switched on (some rest))) (lock : s'.lock = [])
      (slot : s'.slot.isSome = on) : CanEnd s' j :=
    canEnd_step (m := .turn j) rfl (ih _ _ (switched_turn read quit task lock slot).place)
  cases h with
  | between rest read quit task => exact absurd (task.stagesAt ▸ List.mem_singleton_self _) (hs rest)
  | switching on rest read quit task =>
    exact canEnd_engaged task fun s' task' lock slot => switched read quit task' lock slot
  | switched on rest read quit task free timer => exact switched read quit task free timer
  | closing task => exact canEnd_engaged task fun s' task' _ _ => canEnd_closed task'
  | closed task => exact canEnd_closed task
  | finished task =>
    refine ⟨[], by simp, ?_⟩
    simp [after, Tasks.State.isOver, Tasks.Task.isOver, task]

theorem Place.canEnd (h : Place on₀ events j s through) : CanEnd s j := by
  -- the events that are left
  induction hk : (untilQuit events).length - through.length using Nat.strong_induction_on
    generalizing s through with
  | _ k ih =>
    have next (s' : State ς σ) (e : Event) (h' : Place on₀ events j s' (through ++ [e])) :
        CanEnd s' j := by
      have hle := h'.prefix.length_le
      rw [List.length_append, List.length_singleton] at hle
      refine ih _ ?_ h' rfl
      rw [List.length_append, List.length_singleton]
      omega
    by_cases hs : ∀ rest, .script rest ∉ s.stagesAt j
    · exact h.canEnd_switching hs next
    · cases h with
      | between rest read quit task free timer =>
        obtain ⟨onward, hn⟩ := between_turn read quit task free timer
        refine canEnd_step (m := .turn j) rfl ?_
        have hp := onward.place
        cases hh : handles j s (.turn j) with
        | none =>
          rw [hh, Option.toList_none, List.append_nil] at hp
          exact hp.canEnd_switching (hn hh) next
        | some e =>
          rw [hh] at hp
          exact next _ e hp
      | switching on rest read quit task => exact absurd (engaged_no_script task (by simp)) hs
      | closing task => exact absurd (engaged_no_script task (by simp)) hs
      | switched on rest read quit task => simp [task.stagesAt] at hs
      | closed task => simp [task.stagesAt] at hs
      | finished task =>
        simp [Tasks.State.stagesAt, Tasks.Task.stages, Tasks.Status.stages, task] at hs

/-- How the settings go in a run from a state in which task `j` takes a script. -/
structure Coursed (c₀ : Settings σ) (events : List Event) (j : Nat) (s : State ς σ) (run : List Move) :
    Prop where
  /-- Nothing is out of its order, twice or left out. -/
  ordered : ∃ es, es <+: changesOf events ∧ Dwells (trail s run) (c₀.course es).reverse
  whole : (after s run).isOver j = true → Dwells (trail s run) (c₀.course (changesOf events)).reverse
  canEnd : CanEnd (after s run) j

theorem Taking.coursed {c₀ : Settings σ} {run : List Move}
    (h : Taking on₀ c₀ events j s run through) : Coursed c₀ events j s run where
  ordered := ⟨_, h.place.prefix.filter _, h.dwells⟩
  whole := by
    intro ho
    obtain ⟨rfl, -⟩ := h.place.over ho
    exact h.dwells
  canEnd := h.place.canEnd

/-- The course of the settings is that of the changes which a script asks for before it quits, whatever
the service is. Each is made just where it is valid and its write succeeds. -/
theorem settings_coursed {ς' : Type} [LogService ς'] {c₀ : Settings σ} {store : σ}
    (hl : Preferences.load store = (c₀.store, .ok c₀.preferences)) {service : ς} {service' : ς'}
    {scroll scroll' : UInt32} {r : Runner ς σ} {r' : Runner ς' σ}
    (h : start service store scroll = .ok r) (h' : start service' store scroll' = .ok r')
    (events : List Event) {opening ms opening' ms' : List Move}
    (ho : ∀ m ∈ opening, m.internal = true) (hm : ∀ m ∈ ms, m.internal = true)
    (ho' : ∀ m ∈ opening', m.internal = true) (hm' : ∀ m ∈ ms', m.internal = true) :
    Coursed c₀ events (after r.state opening).tasks.length r.state
        (ms ++ .ask (.script events) :: opening) ∧
      Coursed c₀ events (after r'.state opening').tasks.length r'.state
        (ms' ++ .ask (.script events) :: opening') ∧
      ∀ (c : Settings σ) (e : Event),
        (c.take e).preferences = if c.keeps e then e.amend c.preferences else c.preferences := by
  have opened {ς : Type} (service : ς) (scroll : UInt32) :
      ∃ d : Desk ς σ, openDesk service store scroll = .ok d ∧ d.settings = c₀ := by
    refine ⟨_, by rw [openDesk, hl], rfl⟩
  obtain ⟨d, hd, hc⟩ := opened service scroll
  obtain ⟨d', hd', hc'⟩ := opened service' scroll'
  obtain ⟨through, ht⟩ := taking_after (ready_start hd h) events ho hm
  obtain ⟨through', ht'⟩ := taking_after (ready_start hd' h') events ho' hm'
  exact ⟨hc ▸ ht.coursed, hc' ▸ ht'.coursed, Settings.take_preferences⟩

/-- One service answers at once. With the other a refresh by the timer takes longer than the stop waits
for it, and the job is refused. -/
theorem settings_coursed_slow :
    let store : MemoryStore := ⟨[("autoRefresh", "false"), ("seconds", "5")], none⟩
    let service : Deck := ⟨[]⟩
    let service' : Rehearsed :=
      { failures := [("start_job", .status 500 "")], delays := [("list_logs", [60000])] }
    let r : Runner Deck MemoryStore := { state := { world := dealt service } }
    let r' : Runner Rehearsed MemoryStore :=
      { state := { world := { dealt service with service := service' } } }
    let events : List Event := [.setInterval 0, .setAutoRefresh true, .startJob, .setInterval 9,
      .setAutoRefresh false, .quit, .setInterval 3]
    let ms : List Move := [.turn 0, .turn 0, .turn 0, .turn 0, .turn 0, .turn 2, .turn 2, .turn 0, .turn 0,
      .turn 0, .turn 0, .turn 0, .turn 0, .turn 0, .turn 0]
    let ms' : List Move := [.turn 0, .turn 0, .turn 0, .turn 0, .turn 0, .wait 5000, .turn 0, .turn 0,
      .turn 0, .turn 3, .turn 3, .turn 0, .wait 900, .turn 2, .turn 2, .turn 0, .turn 0, .turn 0, .turn 0]
    let c₀ : Settings MemoryStore := ⟨{}, store⟩
    start service store 0 = .ok r ∧ start service' store 0 = .ok r' ∧
      (after r.state (ms ++ [.ask (.script events)])).isOver 0 = true ∧
      (after r'.state (ms' ++ [.ask (.script events)])).isOver 0 = true ∧
      (c₀.course (changesOf events)).map (·.preferences) =
        [⟨false, 5⟩, ⟨false, 5⟩, ⟨true, 5⟩, ⟨true, 9⟩, ⟨false, 9⟩] ∧
      Coursed c₀ events 0 r.state (ms ++ [.ask (.script events)]) ∧
      Coursed c₀ events 0 r'.state (ms' ++ [.ask (.script events)]) := by
  intro store service service' r r' events ms ms' c₀
  have hl : Preferences.load store = (c₀.store, .ok c₀.preferences) := by rfl
  have h : start service store 0 = .ok r := rfl
  have h' : start service' store 0 = .ok r' := rfl
  have ho : ∀ m ∈ ([] : List Move), m.internal = true := by simp
  have hm : ∀ m ∈ ms, m.internal = true := by decide
  have hm' : ∀ m ∈ ms', m.internal = true := by decide
  obtain ⟨hc, hc', -⟩ := settings_coursed hl h h' events ho hm ho hm'
  exact ⟨h, h', by decide +kernel, by decide +kernel, by decide +kernel, hc, hc'⟩

end Console

end LogDesk
