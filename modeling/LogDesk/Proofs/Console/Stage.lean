import LogDesk.Proofs.Console.Table

/-! From stage to stage. `act_goes` says how a task of the console can go on after a turn, and
`act_begins` which tasks it can begin. -/

namespace LogDesk.Console

variable {ς σ : Type}

inductive Goes [LogService ς] (t : Turn) (d : Desk ς σ) : Stage → Stage → Prop where
  | asks (e : Event) (c : Call) (h : callOf? d e = some c) :
    Goes t d (.handle e) (.answered c (d.ask t c).2.1)
  | reloads (stage : Stage) (r : Reload) (news : Option Notification)
    (h : stage.happening t d = some (.began r)) : Goes t d stage (.reloaded r news)
  | switches (on : Bool) : Goes t d (.handle (.setAutoRefresh on)) (.switched on none)
  | switchesInScript (on : Bool) (rest : List Event) :
    Goes t d (.script (.setAutoRefresh on :: rest)) (.switched on (some rest))
  | takes (e : Event) (rest : List Event) (hq : e ≠ .quit) (ha : ∀ on, e ≠ .setAutoRefresh on) :
    Goes t d (.script (e :: rest)) (.script rest)
  | resumes (on : Bool) (rest : List Event) : Goes t d (.switched on (some rest)) (.script rest)
  | expires (id : Uuid) (timeout : Nat) :
    Goes t d (.expire id timeout) (.handle (.dismissToast id))
  | closes (stage : Stage) (answer : Bool) : Goes t d stage (.done answer)

inductive Begins : Stage → Stage → Prop where
  | toast (stage : Stage) (id : Uuid) (timeout : Nat) : Begins stage (.expire id timeout)
  | hands (e : Event) (rest : List Event) (h : e.isRequest = true) :
    Begins (.script (e :: rest)) (.handle e)

theorem notify_begins (t : Turn) (stage : Stage) (ns : List Notification) (d : Desk ς σ) :
    ∀ x ∈ (notify t ns d).2, Begins stage x.stage := by
  induction ns generalizing d with
  | nil => intro x hx; cases hx
  | cons n ns ih =>
    intro x hx
    rcases List.mem_cons.mp hx with rfl | hx
    · exact .toast stage _ _
    · exact ih _ x hx

theorem finishWith_begins (t : Turn) (stage : Stage) (ns : List Notification) (d : Desk ς σ) :
    ∀ x ∈ (finishWith t ns d).spawned, Begins stage x.stage :=
  notify_begins t stage ns d

theorem goOnWith_begins (t : Turn) (stage next : Stage) (ns : List Notification) (d : Desk ς σ) :
    ∀ x ∈ (goOnWith t ns next d).spawned, Begins stage x.stage :=
  notify_begins t stage ns d

theorem switch_stages (d : Desk ς σ) (on : Bool) (rest : Option (List Event)) :
    ∀ next ∈ (switch d on rest).wish.status.stages, next = .switched on rest := by
  cases on <;> simp [switch, Tasks.Wish.status, Tasks.Status.stages, Tasks.Request.stages]

/-- A request is handed to a task of its own, and the script goes on. -/
theorem takeEvent_request [PreferenceStore σ] (t : Turn) (d : Desk ς σ) {e : Event} (rest : List Event)
    (he : e.isRequest = true) :
    takeEvent t d (e :: rest) = ⟨d, .sleep t.now (.script rest), [⟨true, .handle e⟩]⟩ := by
  cases e <;> first | rfl | cases he

theorem takeEvent_begins [PreferenceStore σ] (t : Turn) (d : Desk ς σ) (events : List Event) :
    ∀ x ∈ (takeEvent t d events).spawned, Begins (.script events) x.stage := by
  intro x hx
  cases events with
  | nil => cases hx
  | cons e rest =>
    cases he : e.isRequest with
    | true =>
      rw [takeEvent_request t d rest he] at hx
      cases List.mem_singleton.mp hx
      exact .hands e rest he
    | false =>
      cases e with
      | quit | setAutoRefresh => cases hx
      | closeJobs | setInterval | expandRow | collapseRow | dismissToast =>
        rw [takeEvent_inline t d rest he (by simp) (by simp)] at hx
        exact goOnWith_begins t _ _ _ _ x hx
      | _ => cases he

variable [LogService ς]

theorem onAnswer_goes (t : Turn) (d : Desk ς σ) (c : Call) (outcome : c.Outcome) :
    ∀ next ∈ (onAnswer t d c outcome).wish.status.stages,
      Goes t d (.answered c outcome) next := by
  intro next hn
  cases c with
  | startJob seconds =>
    cases outcome with
    | error e => cases hn
    | ok job => cases List.mem_singleton.mp hn; exact .reloads _ _ _ rfl
  | triggerError =>
    cases outcome with
    | error e => cases hn
    | ok u => cases List.mem_singleton.mp hn; exact .reloads _ _ _ rfl
  | createEntry form =>
    cases outcome with
    | error e => cases hn
    | ok u => cases List.mem_singleton.mp hn; exact .reloads _ _ _ rfl
  | _ => cases outcome <;> cases hn

theorem onAnswer_begins (t : Turn) (d : Desk ς σ) (c : Call) (outcome : c.Outcome) :
    ∀ x ∈ (onAnswer t d c outcome).spawned, Begins (.answered c outcome) x.stage := by
  intro x hx
  cases c with
  | stopAll => cases outcome <;> exact finishWith_begins t _ _ d x hx
  | startJob seconds =>
    cases outcome with
    | error e => exact finishWith_begins t _ _ d x hx
    | ok job => cases hx
  | triggerError =>
    cases outcome with
    | error e => exact finishWith_begins t _ _ d x hx
    | ok u => cases hx
  | createEntry form =>
    cases outcome with
    | error e => exact finishWith_begins t _ _ _ x hx
    | ok u => cases hx
  | listJobs =>
    cases outcome with
    | error e => exact finishWith_begins t _ _ d x hx
    | ok jobs => cases hx
  | _ => cases outcome <;> cases hx

variable [PreferenceStore σ]

theorem handle_goes (t : Turn) (d : Desk ς σ) (e : Event) :
    ∀ next ∈ (handle t d e).wish.status.stages, Goes t d (.handle e) next := by
  intro next hn
  cases e with
  | refresh => cases List.mem_singleton.mp hn; exact .reloads _ _ _ rfl
  | setAutoRefresh on => cases switch_stages d on none next hn; exact .switches on
  | stopAll | startJob | triggerError | openJobs | submitEntry | showRawJson | stopJob =>
    cases List.mem_singleton.mp hn
    exact .asks _ _ rfl
  | _ => cases hn

theorem handle_begins (t : Turn) (d : Desk ς σ) (e : Event) :
    ∀ x ∈ (handle t d e).spawned, Begins (.handle e) x.stage := by
  intro x hx
  cases e with
  | closeJobs | setInterval | expandRow | collapseRow | dismissToast | quit =>
    exact finishWith_begins t _ _ _ x hx
  | _ => cases hx

theorem takeEvent_goes (t : Turn) (d : Desk ς σ) (events : List Event) :
    ∀ next ∈ (takeEvent t d events).wish.status.stages, Goes t d (.script events) next := by
  have hdone : ∀ next ∈ (Tasks.Wish.stop (.done true) (.done true) :
      Tasks.Wish Unit Stage).status.stages, next = .done true := by
    simp [Tasks.Wish.status, Tasks.Status.stages, Tasks.Request.stages]
  intro next hn
  cases events with
  | nil => cases hdone next hn; exact .closes _ _
  | cons e rest =>
    cases e with
    | quit => cases hdone next hn; exact .closes _ _
    | setAutoRefresh on =>
      cases switch_stages d on (some rest) next hn
      exact .switchesInScript on rest
    | _ =>
      cases List.mem_singleton.mp hn
      exact .takes _ rest (by simp) (by simp)

/-- How a task goes on after a turn at a stage. -/
theorem act_goes (t : Turn) (d : Desk ς σ) (stage : Stage) :
    ∀ next ∈ (act t d stage).wish.status.stages, Goes t d stage next := by
  intro next hn
  cases stage with
  | handle e => exact handle_goes t d e next hn
  | answered c outcome => exact onAnswer_goes t d c outcome next hn
  | switched on rest =>
    cases rest with
    | none => cases hn
    | some rest => cases List.mem_singleton.mp hn; exact .resumes on rest
  | script events => exact takeEvent_goes t d events next hn
  | reloaded | done => cases hn
  | expire id timeout => cases List.mem_singleton.mp hn; exact .expires id timeout
  | startTimer | stopTimer =>
    have hd : next = .done true := by
      simpa [act, Tasks.Wish.status, Tasks.Status.stages, Tasks.Request.stages] using hn
    exact hd ▸ .closes _ _
  | inspectTimer =>
    have hd : next = .done true ∨ next = .done false := by
      simpa [act, Tasks.Wish.status, Tasks.Status.stages, Tasks.Request.stages] using hn
    rcases hd with rfl | rfl <;> exact .closes _ _

theorem act_begins (t : Turn) (d : Desk ς σ) (stage : Stage) :
    ∀ x ∈ (act t d stage).spawned, Begins stage x.stage := by
  intro x hx
  cases stage with
  | handle e => exact handle_begins t d e x hx
  | answered c outcome => exact onAnswer_begins t d c outcome x hx
  | reloaded r news => exact finishWith_begins t _ _ _ x hx
  | switched on rest =>
    cases rest with
    | none => exact finishWith_begins t _ _ _ x hx
    | some rest => exact goOnWith_begins t _ _ _ _ x hx
  | script events => exact takeEvent_begins t d events x hx
  | _ => cases hx

/-- Where a task has the stage from that it can go on with after a move. -/
inductive Comes (s : State ς σ) (m : Move) (i : Nat) (next : Stage) : Prop where
  | stays (h : next ∈ s.stagesAt i) (idle : m = .turn i → s.deed? i = none)
  | goes (stage : Stage) (turn : m = .turn i) (deed : s.deed? i = some (.act stage))
    (h : Goes ⟨s.now, i⟩ s.world stage next)
  | begins (k : Nat) (stage : Stage) (x : Tasks.Spawn Stage) (turn : m = .turn k)
    (deed : s.deed? k = some (.act stage)) (place : s.tasks.length ≤ i)
    (spawned : (act ⟨s.now, k⟩ s.world stage).spawned[i - s.tasks.length]? = some x)
    (h : Begins stage next) (stage_eq : x.stage = next)
  | asked (e : Errand) (ask : m = .ask e) (place : i = s.tasks.length) (stage_eq : next = e.stage)

theorem spawn_comes {s : State ς σ} {e : Errand} {i : Nat} {next : Stage}
    (h : next ∈ (step s (.ask e)).stagesAt i) : Comes s (.ask e) i next := by
  cases ht : (step s (.ask e)).tasks[i]? with
  | none => simp [Tasks.State.stagesAt, ht] at h
  | some t =>
    rw [Tasks.State.stagesAt, ht] at h
    rcases (s.addTask_get _).mp ht with ht | ⟨hi, rfl⟩
    · exact .stays (by rwa [Tasks.State.stagesAt, ht]) (by simp)
    · exact .asked e rfl hi (List.mem_singleton.mp h)

theorem other_comes {s : State ς σ} {k i : Nat} {next : Stage} (hi : i ≠ k)
    (h : next ∈ (step s (.turn k)).stagesAt i) : Comes s (.turn k) i next := by
  have hidle : Move.turn k = .turn i → s.deed? i = none := fun he => by
    cases he
    exact absurd rfl hi
  rcases program.other_stagesAt s hi with hs | ⟨x, hx, -, hs⟩
  · exact .stays (hs ▸ h) hidle
  · cases hd : s.deed? k with
    | none => simp [Tasks.Program.spawned, hd] at hx
    | some deed =>
      cases deed with
      | beginTick | endTick => simp [Tasks.Program.spawned, hd] at hx
      | act stage =>
        change next ∈ ((program.resume s k).tasks[i]?.map Tasks.Task.stages).getD [] at h
        rw [program.act_get hd hi, List.getElem?_append] at h
        split at h
        · exact .stays h hidle
        next hl =>
          have hsp : program.spawned s k = (act ⟨s.now, k⟩ s.world stage).spawned := by
            rw [Tasks.Program.spawned, hd]
            rfl
          rw [List.getElem?_map, hsp] at h
          cases hp : (act ⟨s.now, k⟩ s.world stage).spawned[i - s.tasks.length]? with
          | none => simp [hp] at h
          | some y =>
            rw [hp] at h
            have hy : y.stage = next := (List.mem_singleton.mp h).symm
            have hb := act_begins ⟨s.now, k⟩ s.world stage y (List.mem_of_getElem? hp)
            exact .begins k stage y rfl hd (by omega) hp (hy ▸ hb) hy

theorem turn_comes {s : State ς σ} {i : Nat} {next : Stage}
    (h : next ∈ (step s (.turn i)).stagesAt i) : Comes s (.turn i) i next := by
  change next ∈ (program.resume s i).stagesAt i at h
  cases hd : s.deed? i with
  | none => exact .stays ((program.resume_none hd).1 next h) fun _ => hd
  | some deed =>
    cases deed with
    | act stage =>
      obtain ⟨-, -, hs, -⟩ := program.act_stagesAt hd
      rw [hs] at h
      exact .goes stage rfl hd (act_goes _ _ stage next h)
    | beginTick beat =>
      obtain ⟨-, -, hs, -⟩ := program.beginTick_workAt hd
      rw [hs] at h
      cases h
    | endTick work =>
      obtain ⟨-, -, hs, -⟩ := program.endTick_workAt hd
      rw [hs] at h
      cases h

/-- A task keeps its stage until its turn, and a new task is begun by another or asked for. -/
theorem stage_comes {s : State ς σ} {m : Move} {i : Nat} {next : Stage}
    (h : next ∈ (step s m).stagesAt i) : Comes s m i next := by
  cases m with
  | turn k =>
    by_cases hi : i = k
    · subst hi
      exact turn_comes h
    · exact other_comes hi h
  | ask e => exact spawn_comes h
  | _ => exact .stays h (by simp)

/-- A loop keeps what it has under way until its turn, or is broken off. -/
theorem work_comes {s : State ς σ} {m : Move} {i : Nat} {r : Reload}
    (h : (step s m).workAt i = some r) :
    (s.workAt i = some r ∧ (m = .turn i → s.deed? i = none)) ∨
      (m = .turn i ∧ ∃ beat, s.deed? i = some (.beginTick beat) ∧
        r = (s.world.beginReload ⟨s.now, i⟩).2.1) := by
  cases m with
  | turn k =>
    change (program.resume s k).workAt i = some r at h
    by_cases hi : i = k
    · subst hi
      cases hd : s.deed? i with
      | none => exact .inl ⟨(program.resume_none hd).2 ▸ h, fun _ => rfl⟩
      | some deed =>
        cases deed with
        | act stage =>
          obtain ⟨-, -, -, hw⟩ := program.act_stagesAt hd
          rw [hw] at h
          cases h
        | beginTick beat =>
          obtain ⟨-, -, -, hw⟩ := program.beginTick_workAt hd
          rw [hw] at h
          exact .inr ⟨rfl, beat, rfl, (Option.some.inj h).symm⟩
        | endTick work =>
          obtain ⟨-, -, -, hw⟩ := program.endTick_workAt hd
          rw [hw] at h
          cases h
    · rcases program.other_workAt s hi with hw | hw
      · exact .inl ⟨hw ▸ h, fun he => by cases he; exact absurd rfl hi⟩
      · rw [hw] at h
        cases h
  | ask e =>
    refine .inl ⟨?_, by simp⟩
    obtain ⟨t, ht, hr⟩ := Option.bind_eq_some_iff.mp h
    rcases (s.addTask_get _).mp ht with ht | ⟨-, rfl⟩
    · rwa [Tasks.State.workAt, ht]
    · cases hr
  | _ => exact .inl ⟨h, by simp⟩

end LogDesk.Console
