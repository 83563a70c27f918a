import LogDesk.Proofs.Console.Settings
import LogDesk.Proofs.Console.Stage

/-! A script that has the console to itself. It takes its events one after another, so the settings
that it finds at each of them are those that the events before it have left. A request it only hands
on: what that finds depends on how far the script has come when the request has its turn. -/

namespace LogDesk.Console

variable {ς σ : Type}

def Move.quiet : Move → Bool
  | .ask (.handle _) | .ask (.script _) => false
  | _ => true

/-- Whether a task at a stage neither takes an event of a script nor changes the settings. -/
def Stage.plain : Stage → Bool
  | .script (_ :: _) | .switched _ _ | .handle (.setInterval _) | .handle (.setAutoRefresh _) => false
  | _ => true

theorem plain_applies {stage : Stage} (h : stage.plain = true) : stage.applies = none := by
  cases stage with
  | handle e => cases e <;> first | rfl | cases h
  | script events => cases events <;> first | rfl | cases h
  | switched => cases h
  | _ => rfl

theorem goes_plain [LogService ς] {t : Turn} {d : Desk ς σ} {stage next : Stage}
    (hg : Goes t d stage next) (h : stage.plain = true) : next.plain = true := by
  cases hg <;> first | rfl | cases h

/-- Tasks that are begun by others change nothing of the settings. -/
theorem begins_plain {stage next : Stage} (h : Begins stage next) : next.plain = true := by
  cases h with
  | toast => rfl
  | hands e rest he => cases e <;> first | rfl | cases he

theorem errand_plain {e : Errand} (h : (Move.ask e).quiet = true) : e.stage.plain = true := by
  cases e <;> first | rfl | cases h

def takes (s : State ς σ) : Move → Option Event
  | .turn i =>
    match s.deed? i with
    | some (.act (.script (e :: _))) => some e
    | _ => none
  | _ => none

theorem takes_some {s : State ς σ} {m : Move} {e : Event} (h : takes s m = some e) :
    ∃ i rest, m = .turn i ∧ s.deed? i = some (.act (.script (e :: rest))) := by
  unfold takes at h
  split at h
  next i =>
    split at h
    next e' rest hd =>
      cases h
      exact ⟨i, rest, rfl, hd⟩
    next => cases h
  next => cases h

/-- A console that no script has been handed to is at plain stages only, and at none that begins a
job. -/
structure Unscripted (s : State ς σ) : Prop where
  plain : ∀ i, ∀ stage ∈ s.stagesAt i, stage.plain = true
  noJob : ∀ i, .handle .startJob ∉ s.stagesAt i

theorem unscripted_start (d : Desk ς σ) : Unscripted ({ world := d } : State ς σ) :=
  ⟨fun i stage h => by simp [Tasks.State.stagesAt] at h,
    fun i h => by simp [Tasks.State.stagesAt] at h⟩

variable [LogService ς] [PreferenceStore σ]

/-- The events that scripts have taken, the latest first. -/
def taken (s : State ς σ) : List Move → List Event
  | [] => []
  | m :: earlier => (takes (after s earlier) m).toList ++ taken s earlier

theorem taken_append (s : State ς σ) (later earlier : List Move) :
    taken s (later ++ earlier) = taken (after s earlier) later ++ taken s earlier := by
  induction later with
  | nil => rfl
  | cons m later ih => rw [List.cons_append, taken, taken, ih, after_append, List.append_assoc]

/-- Where all turns are at plain stages, nothing is taken and nothing is applied. -/
theorem plain_step {s : State ς σ} {m : Move}
    (h : ∀ k stage, m = .turn k → s.deed? k = some (.act stage) → stage.plain = true) :
    takes s m = none ∧ (step s m).world.settings = s.world.settings := by
  rw [step_settings]
  cases m with
  | turn k =>
    cases hd : s.deed? k with
    | none => exact ⟨by simp [takes, hd], by simp [applies, hd]⟩
    | some deed =>
      cases deed with
      | act stage =>
        have hp := h k stage rfl hd
        refine ⟨?_, by simp [applies, hd, plain_applies hp]⟩
        cases ht : takes s (.turn k) with
        | none => rfl
        | some e =>
          obtain ⟨_, rest, hm, hd'⟩ := takes_some ht
          cases hm
          rw [hd] at hd'
          cases hd'
          cases hp
      | beginTick | endTick => exact ⟨by simp [takes, hd], by simp [applies, hd]⟩
  | _ => exact ⟨rfl, rfl⟩

theorem deed_stagesAt {s : State ς σ} {i : Nat} {stage : Stage} (h : s.deed? i = some (.act stage)) :
    stage ∈ s.stagesAt i := by
  obtain ⟨hs, -⟩ := program.act_stagesAt h
  simp [hs]

theorem unscripted_step {s : State ς σ} {m : Move} (hu : Unscripted s) (hm : m.quiet = true) :
    Unscripted (step s m) := by
  constructor
  · intro i stage h
    cases stage_comes h with
    | stays h _ => exact hu.plain i stage h
    | goes st _ hd h => exact goes_plain h (hu.plain i st (deed_stagesAt hd))
    | begins _ _ _ _ _ _ _ h => exact begins_plain h
    | asked e ha _ he =>
      subst ha he
      exact errand_plain hm
  · intro i h
    cases stage_comes h with
    | stays h _ => exact hu.noJob i h
    | goes st _ _ h => cases h
    | begins k st _ _ hd _ _ h =>
      cases h with
      | hands e rest he => cases hu.plain k _ (deed_stagesAt hd)
    | asked e ha _ he =>
      subst ha
      cases e with
      | handle e => cases hm
      | _ => cases he

theorem unscripted_after {s : State ς σ} (hu : Unscripted s) {ms : List Move}
    (hm : ∀ m ∈ ms, m.quiet = true) :
    Unscripted (after s ms) ∧ taken s ms = [] ∧ (after s ms).world.settings = s.world.settings := by
  induction ms with
  | nil => exact ⟨hu, rfl, rfl⟩
  | cons m ms ih =>
    obtain ⟨hu', ht, hs⟩ := ih fun m' h => hm m' (List.mem_cons_of_mem m h)
    obtain ⟨htakes, hsettings⟩ := plain_step (m := m) fun k stage _ hd =>
      hu'.plain k stage (deed_stagesAt hd)
    refine ⟨unscripted_step hu' (hm m List.mem_cons_self), ?_, ?_⟩
    · rw [taken, htakes, ht]
      rfl
    · rw [after, hsettings, hs]

/-- How the stage of a task fits to a script of some events, of which those in `tk` have been taken,
the latest first. Only the task of the script itself has a stage that depends on it. -/
inductive Fits (c₀ : Settings σ) (events tk : List Event) (c : Settings σ) (own : Prop) :
    Stage → Prop where
  | plain {stage : Stage} (h : stage.plain = true) : Fits c₀ events tk c own stage
  | script (rest : List Event) (here : own) (read : events = tk.reverse ++ rest) (quit : .quit ∉ tk)
    (settings : c = c₀.takeAll tk.reverse) : Fits c₀ events tk c own (.script rest)
  | switched (on : Bool) (rest before : List Event) (here : own) (last : tk = .setAutoRefresh on :: before)
    (read : events = tk.reverse ++ rest) (quit : .quit ∉ tk)
    (settings : c = c₀.takeAll before.reverse) : Fits c₀ events tk c own (.switched on (some rest))

/-- The state of a console while task `j` takes a script of some events. -/
structure Reading (c₀ : Settings σ) (events : List Event) (j : Nat) (s : State ς σ) (tk : List Event) :
    Prop where
  fits : ∀ i, ∀ stage ∈ s.stagesAt i, Fits c₀ events tk s.world.settings (i = j) stage
  interval : s.world.settings.preferences.interval = c₀.intervalAfter tk.reverse
  read : tk.reverse <+: events

/-- The other tasks do not mind how far the script has come. -/
theorem fits_other {c₀ c c' : Settings σ} {events tk tk' : List Event} {own : Prop} {stage : Stage}
    (h : Fits c₀ events tk c own stage) (ho : ¬own) : Fits c₀ events tk' c' own stage := by
  cases h with
  | plain h => exact .plain h
  | script _ here => exact absurd here ho
  | switched _ _ _ here => exact absurd here ho

/-- A move that takes nothing and changes no settings. -/
theorem reading_idle {c₀ : Settings σ} {events tk : List Event} {j : Nat} {s : State ς σ} {m : Move}
    (hr : Reading c₀ events j s tk) (hm : m.quiet = true)
    (hp : ∀ k stage, m = .turn k → s.deed? k = some (.act stage) → stage.plain = true) :
    Reading c₀ events j (step s m) ((takes s m).toList ++ tk) := by
  obtain ⟨ht, hs⟩ := plain_step hp
  rw [ht]
  refine ⟨fun i stage h => ?_, by rw [hs]; exact hr.interval, hr.read⟩
  rw [hs]
  cases stage_comes h with
  | stays h _ => exact hr.fits i stage h
  | goes st turn hd h => exact .plain (goes_plain h (hp i st turn hd))
  | begins _ _ _ _ _ _ _ h => exact .plain (begins_plain h)
  | asked e ha _ he =>
    subst ha he
    exact .plain (errand_plain hm)

/-- In the turn of the script's own task only that task goes on. -/
theorem reading_turn {c₀ : Settings σ} {events tk tk' : List Event} {j : Nat} {s : State ς σ}
    {own : Stage} (hr : Reading c₀ events j s tk) (hd : s.deed? j = some (.act own))
    (hgo : ∀ next, Goes ⟨s.now, j⟩ s.world own next →
      Fits c₀ events tk' (step s (.turn j)).world.settings (j = j) next)
    (hi : (step s (.turn j)).world.settings.preferences.interval = c₀.intervalAfter tk'.reverse)
    (hp : tk'.reverse <+: events) : Reading c₀ events j (step s (.turn j)) tk' := by
  refine ⟨fun i stage h => ?_, hi, hp⟩
  cases stage_comes h with
  | stays h idle =>
    by_cases hi : i = j
    · subst hi
      rw [idle rfl] at hd
      cases hd
    · exact fits_other (hr.fits i stage h) hi
  | goes st turn hd' h =>
    cases turn
    rw [hd] at hd'
    cases hd'
    exact hgo stage h
  | begins _ _ _ _ _ _ _ h => exact .plain (begins_plain h)
  | asked e' ha => cases ha

/-- The script takes its next event. -/
theorem reading_takes {c₀ : Settings σ} {events tk : List Event} {j : Nat} {s : State ς σ}
    {e : Event} {rest : List Event} (hr : Reading c₀ events j s tk)
    (hd : s.deed? j = some (.act (.script (e :: rest)))) (hread : events = tk.reverse ++ e :: rest)
    (hquit : .quit ∉ tk) (hset : s.world.settings = c₀.takeAll tk.reverse) :
    Reading c₀ events j (step s (.turn j)) (e :: tk) := by
  have hsettings : (step s (.turn j)).world.settings =
      (Stage.script (e :: rest)).applies.elim s.world.settings s.world.settings.take := by
    rw [step_settings]
    simp only [applies, hd]
  have hread' : events = (e :: tk).reverse ++ rest := by rw [hread]; simp
  have htake : c₀.takeAll (e :: tk).reverse = s.world.settings.take e := by
    rw [List.reverse_cons, Settings.takeAll_append, ← hset]
    rfl
  refine reading_turn hr hd (fun next h => ?_) ?_ ⟨rest, hread'.symm⟩
  · cases h with
    | reloads | closes => exact .plain rfl
    | takes _ _ hq ha =>
      refine .script rest rfl hread' (by simp [hquit, Ne.symm hq]) ?_
      rw [hsettings, htake]
      cases e with
      | setAutoRefresh on => exact absurd rfl (ha on)
      | _ => rfl
    | switchesInScript on =>
      -- the switch is applied later
      refine .switched on rest tk rfl rfl hread' (by simp [hquit]) ?_
      rw [hsettings, hset]
      rfl
  · rw [← Settings.takeAll_interval, htake, hsettings]
    cases e with
    | setAutoRefresh on => exact (Settings.setAutoRefresh_interval _ _ on).symm
    | _ => rfl

/-- What the timer was switched to is applied, and the script goes on. -/
theorem reading_resumes {c₀ : Settings σ} {events before : List Event} {j : Nat} {s : State ς σ}
    {on : Bool} {rest : List Event} (hr : Reading c₀ events j s (.setAutoRefresh on :: before))
    (hd : s.deed? j = some (.act (.switched on (some rest))))
    (hread : events = (Event.setAutoRefresh on :: before).reverse ++ rest)
    (hquit : .quit ∉ Event.setAutoRefresh on :: before)
    (hset : s.world.settings = c₀.takeAll before.reverse) :
    Reading c₀ events j (step s (.turn j)) (.setAutoRefresh on :: before) := by
  have hnow : (step s (.turn j)).world.settings =
      c₀.takeAll (Event.setAutoRefresh on :: before).reverse := by
    rw [step_settings, List.reverse_cons, Settings.takeAll_append, ← hset]
    simp only [applies, hd]
    rfl
  refine reading_turn hr hd (fun next h => ?_) (by rw [hnow, Settings.takeAll_interval]) hr.read
  cases h with
  | reloads | closes => exact .plain rfl
  | resumes => exact .script rest rfl hread hquit hnow

theorem reading_step {c₀ : Settings σ} {events tk : List Event} {j : Nat} {s : State ς σ} {m : Move}
    (hr : Reading c₀ events j s tk) (hm : m.quiet = true) :
    Reading c₀ events j (step s m) ((takes s m).toList ++ tk) := by
  by_cases hp : ∀ k stage, m = .turn k → s.deed? k = some (.act stage) → stage.plain = true
  · exact reading_idle hr hm hp
  · simp only [not_forall] at hp
    obtain ⟨k, stage, rfl, hd, hn⟩ := hp
    cases hr.fits k stage (deed_stagesAt hd) with
    | plain h => exact absurd h hn
    | script rest here read quit settings =>
      subst here
      cases rest with
      | nil => exact absurd rfl hn
      | cons e rest =>
        have ht : takes s (.turn k) = some e := by simp [takes, hd]
        rw [ht]
        exact reading_takes hr hd read quit settings
    | switched on rest before here last read quit settings =>
      subst here last
      have ht : takes s (.turn k) = none := by simp [takes, hd]
      rw [ht]
      exact reading_resumes hr hd read quit settings

/-- A script is asked of a console that none was asked of before. -/
theorem reading_start {s : State ς σ} (hu : Unscripted s) (events : List Event) :
    Reading s.world.settings events s.tasks.length (step s (.ask (.script events))) [] := by
  refine ⟨fun i stage h => ?_, ?_, List.nil_prefix⟩
  · cases stage_comes h with
    | stays h _ => exact .plain (hu.plain i stage h)
    | goes _ turn => cases turn
    | begins _ _ _ turn => cases turn
    | asked e ha hi he =>
      cases ha
      subst he
      exact .script events hi rfl (by simp) rfl
  · rfl

theorem reading_after {s : State ς σ} (hu : Unscripted s) (events : List Event) {opening ms : List Move}
    (ho : ∀ m ∈ opening, m.quiet = true) (hm : ∀ m ∈ ms, m.quiet = true) :
    Reading s.world.settings events (after s opening).tasks.length
      (after s (ms ++ .ask (.script events) :: opening))
      (taken s (ms ++ .ask (.script events) :: opening)) := by
  induction ms with
  | nil =>
    obtain ⟨hu', ht, hs⟩ := unscripted_after hu ho
    have hr := reading_start hu' events
    have ht' : taken s (.ask (.script events) :: opening) = [] := by
      rw [taken, ht]
      rfl
    rw [hs] at hr
    rw [List.nil_append, ht']
    exact hr
  | cons m ms ih =>
    exact reading_step (ih fun m' h => hm m' (List.mem_cons_of_mem m h)) (hm m List.mem_cons_self)

structure Handed (s : State ς σ) (run : List Move) (i : Nat) (later : List Move) (m : Move)
    (earlier : List Move) : Prop where
  run_eq : run = later ++ m :: earlier
  takes : takes (after s earlier) m = some .startJob
  place : (after s earlier).tasks.length = i
  quit : .quit ∉ taken s earlier

/-- The events that a script has taken, around the one that asked for the job. -/
theorem Handed.taken_eq {s : State ς σ} {run later earlier : List Move} {m : Move} {i : Nat}
    (h : Handed s run i later m earlier) : (taken s run).reverse =
      (taken s earlier).reverse ++ .startJob :: (taken (after s (m :: earlier)) later).reverse := by
  rw [h.run_eq, taken_append, taken, h.takes]
  simp

theorem startJob_comes {s : State ς σ} {m : Move} {i : Nat} (hm : m.quiet = true)
    (h : .handle .startJob ∈ (step s m).stagesAt i) :
    .handle .startJob ∈ s.stagesAt i ∨
      takes s m = some .startJob ∧ s.tasks.length = i := by
  cases stage_comes h with
  | stays h _ => exact .inl h
  | goes _ _ _ h => cases h
  | begins k st x turn hd place hx h _ =>
    cases h with
    | hands e rest he =>
      subst turn
      refine .inr ⟨by simp [takes, hd], ?_⟩
      change (takeEvent _ _ _).spawned[_]? = _ at hx
      rw [takeEvent_request _ _ rest he] at hx
      have hlt := (List.getElem?_eq_some_iff.mp hx).1
      simp only [List.length_singleton] at hlt
      omega
  | asked e ha _ he =>
    subst ha
    cases e with
    | handle e => cases hm
    | _ => cases he

theorem handed {s : State ς σ} (hu : Unscripted s) (events : List Event) {opening ms : List Move}
    (ho : ∀ m ∈ opening, m.quiet = true) (hm : ∀ m ∈ ms, m.quiet = true) {i : Nat}
    (h : .handle .startJob ∈ (after s (ms ++ .ask (.script events) :: opening)).stagesAt i) :
    ∃ later m earlier, Handed s (ms ++ .ask (.script events) :: opening) i later m earlier := by
  induction ms with
  | nil =>
    obtain ⟨hu', -, -⟩ := unscripted_after hu ho
    cases stage_comes h with
    | stays h _ => exact absurd h (hu'.noJob i)
    | goes _ turn => cases turn
    | begins _ _ _ turn => cases turn
    | asked e ha _ he =>
      cases ha
      cases he
  | cons m ms ih =>
    have hm' : ∀ m' ∈ ms, m'.quiet = true := fun m' h => hm m' (List.mem_cons_of_mem m h)
    rcases startJob_comes (hm m List.mem_cons_self) h with h | ⟨ht, hi⟩
    · obtain ⟨later, m', earlier, hrun, htakes, hplace, hquit⟩ := ih hm' h
      exact ⟨m :: later, m', earlier, by rw [List.cons_append, hrun]; rfl, htakes, hplace, hquit⟩
    · refine ⟨[], m, _, rfl, ht, hi, ?_⟩
      obtain ⟨k, rest, rfl, hd⟩ := takes_some ht
      cases (reading_after hu events ho hm').fits k _ (deed_stagesAt hd) with
      | plain h => cases h
      | script _ _ _ quit => exact quit

/-- A job is started with the interval that is in force when its request has its turn. -/
theorem startJob_log {s : State ς σ} {i : Nat} (hd : s.deed? i = some (.act (.handle .startJob))) :
    (step s (.turn i)).world.log =
      ⟨⟨s.now, i⟩, .asked (.startJob s.world.settings.preferences.interval)⟩ :: s.world.log := by
  change (program.resume s i).world.log = _
  rw [program.resume_world, hd]
  rfl

/-- Task `i`, to which a script has handed a request to start a job in its place after some events, has
its turn when the script has taken some more, and sends an interval. -/
structure Starts (s : State ς σ) (events : List Event) (run : List Move) (i : Nat)
    (before between : List Event) (sent : UInt32) : Prop where
  read : ∃ rest, events = before ++ .startJob :: (between ++ rest)
  handed : ∃ later m earlier, Handed s run i later m earlier ∧ taken s earlier = before.reverse
  taken : taken s run = (before ++ .startJob :: between).reverse
  sends : (after s (.turn i :: run)).world.log =
    ⟨⟨(after s run).now, i⟩, .asked (.startJob sent)⟩ :: (after s run).world.log

/-- What is sent is the interval in force after all events that the script has taken by then. It is the
one at the request's own place just where none or the same was accepted last in between. -/
theorem startJob_interval (d : Desk ς σ) (events : List Event) {opening ms : List Move}
    (ho : ∀ m ∈ opening, m.quiet = true) (hm : ∀ m ∈ ms, m.quiet = true) {i : Nat}
    (hi : (after ({ world := d } : State ς σ) (ms ++ .ask (.script events) :: opening)).deed? i =
      some (.act (.handle .startJob))) :
    ∃ before between sent,
      Starts ({ world := d } : State ς σ) events (ms ++ .ask (.script events) :: opening) i before
        between sent ∧
      sent = d.settings.intervalAfter (before ++ .startJob :: between) ∧
      (sent = d.settings.intervalAfter before ↔
        ∀ n ∈ ((d.settings.takeAll before).accepted between).getLast?,
          n = d.settings.intervalAfter before) := by
  have hu : Unscripted ({ world := d } : State ς σ) := unscripted_start d
  have hr := reading_after hu events ho hm
  obtain ⟨later, m, earlier, hh⟩ := handed hu events ho hm (deed_stagesAt hi)
  have htaken := hh.taken_eq
  generalize ms ++ .ask (.script events) :: opening = run at hr hi hh htaken ⊢
  generalize hbefore : (taken { world := d } earlier).reverse = before at htaken
  generalize (taken (after { world := d } (m :: earlier)) later).reverse = between at htaken
  have hsent : (after { world := d } run).world.settings.preferences.interval =
      d.settings.intervalAfter (before ++ .startJob :: between) := by
    rw [← htaken]
    exact hr.interval
  obtain ⟨rest, hrest⟩ := hr.read
  rw [htaken] at hrest
  refine ⟨before, between, _, ⟨⟨rest, ?_⟩, ⟨later, m, earlier, hh, ?_⟩, ?_, startJob_log hi⟩,
    hsent, ?_⟩
  · rw [← hrest, List.append_assoc, List.cons_append]
  · rw [← hbefore, List.reverse_reverse]
  · rw [← htaken, List.reverse_reverse]
  · rw [hsent]
    exact d.settings.intervalAfter_startJob before between

/-- The interval is 5 seconds when the job is asked for, and 9 when its request has its turn. -/
theorem startJob_interval_overtaken :
    let s : State Deck MemoryStore := { world := dealt ⟨[]⟩ }
    let events : List Event := [.startJob, .setInterval 9]
    let run : List Move := [.turn 0, .turn 0, .ask (.script events)]
    (after s run).deed? 1 = some (.act (.handle .startJob)) ∧
      s.world.settings.intervalAfter [] = 5 ∧ Starts s events run 1 [] [.setInterval 9] 9 := by
  intro s events run
  have ho : ∀ m ∈ ([] : List Move), m.quiet = true := by simp
  have hm : ∀ m ∈ [Move.turn 0, .turn 0], m.quiet = true := by decide
  have hi : (after s run).deed? 1 = some (.act (.handle .startJob)) := rfl
  obtain ⟨before, between, sent, h, hsent, -⟩ := startJob_interval (dealt ⟨[]⟩) events ho hm hi
  have ht : taken s run = [.setInterval 9, .startJob] := by decide +kernel
  have hsplit : before ++ .startJob :: between = [.startJob, .setInterval 9] :=
    List.reverse_injective (h.taken.symm.trans ht)
  rcases before with _ | ⟨e, _ | ⟨e', before⟩⟩
  · simp only [List.nil_append, List.cons.injEq, true_and] at hsplit
    subst hsplit
    have h9 : sent = 9 := hsent.trans (by decide +kernel)
    exact ⟨hi, by decide +kernel, h9 ▸ h⟩
  · simp at hsplit
  · simp at hsplit

end LogDesk.Console
