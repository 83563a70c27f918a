import LogDesk.Proofs.Console.Residue

/-! Requests whose own call fails. Such a request has two turns: in the first it makes its call, in the
second it tells the user. `called` and `told` are all that these do to the state, and what is left of
them is a residue that the console goes on without. -/

namespace LogDesk.Console

variable {ς σ : Type}

def Stage.timing : Stage → Bool
  | .expire .. | .handle (.dismissToast _) | .done _ => true
  | _ => false

theorem goes_timing [LogService ς] {t : Turn} {d : Desk ς σ} {stage next : Stage}
    (hg : Goes t d stage next) (h : stage.timing = true) : next.timing = true := by
  cases hg with
  | expires | closes => rfl
  | asks e c hc =>
    cases e with
    | dismissToast id => cases hc
    | _ => cases h
  | reloads stage r news hb =>
    cases stage with
    | handle e =>
      cases e with
      | dismissToast id => cases hb
      | _ => cases h
    | expire | done => cases hb
    | _ => cases h
  | _ => cases h

/-- Timers of toasts are the only handlers that do not hold the console. -/
def Held (s : State ς σ) : Prop := ∀ (i : Nat) status, s.tasks[i]? = some (.handler false status) →
  ∀ stage ∈ status.stages, stage.timing = true

theorem Held.holding {s : State ς σ} (h : Held s) {i : Nat} {holds : Bool}
    {status : Tasks.Status Unit Stage} (ht : s.tasks[i]? = some (.handler holds status)) {stage : Stage}
    (hs : stage ∈ status.stages) (hn : stage.timing = false) : holds = true := by
  cases holds with
  | true => rfl
  | false =>
    have htime := h i status ht stage hs
    rw [hn] at htime
    cases htime

section
variable [LogService ς] [PreferenceStore σ]

theorem spawned_timing {s : State ς σ} {k : Nat} {x : Tasks.Spawn Stage}
    (hx : x ∈ program.spawned s k) (h : x.holds = false) : x.stage.timing = true := by
  unfold Tasks.Program.spawned at hx
  split at hx
  next stage _ =>
    have hsp := (act_toasts ⟨s.now, k⟩ s.world stage).spawned
    change x ∈ (act ⟨s.now, k⟩ s.world stage).spawned at hx
    rw [hsp] at hx
    rcases List.mem_append.mp hx with hx | hx
    · obtain ⟨r, -, rfl⟩ := List.mem_map.mp hx
      rfl
    · have hh := hands_holds hx
      rw [h] at hh
      cases hh
  next => cases hx

theorem held_step {s : State ς σ} (h : Held s) (m : Move) : Held (step s m) := by
  intro i status hi stage hs
  cases m with
  | turn k =>
    by_cases hik : i = k
    · subst hik
      obtain ⟨status₀, h₀⟩ := program.resume_holds hi
      have before {st : Stage} (hst : st ∈ s.stagesAt i) : st.timing = true :=
        h i status₀ h₀ st (by simpa [Tasks.State.stagesAt, h₀, Tasks.Task.stages] using hst)
      have hst : stage ∈ (step s (.turn i)).stagesAt i := by
        simpa [Tasks.State.stagesAt, hi, Tasks.Task.stages] using hs
      cases stage_comes hst with
      | stays hst _ => exact before hst
      | goes st _ hd hg => exact goes_timing hg (before (deed_stagesAt hd))
      | begins _ _ _ _ _ place _ _ _ =>
        obtain ⟨hlt, -⟩ := List.getElem?_eq_some_iff.mp h₀
        omega
      | asked e ask => cases ask
    · have hsp := program.resume_other s hik
      change (program.resume s k).tasks[i]? = _ at hi
      generalize ht : s.tasks[i]? = t, (program.resume s k).tasks[i]? = t' at hsp hi
      cases hsp with
      | same => exact h i status (ht.trans hi) stage hs
      | spawned x hx =>
        simp only [Option.some.injEq, Tasks.Task.handler.injEq] at hi
        obtain ⟨hholds, rfl⟩ := hi
        cases List.mem_singleton.mp hs
        exact spawned_timing hx hholds
      | cancelled | aborted | looped => cases hi
  | ask e =>
    rcases (s.addTask_get _).mp hi with hi | ⟨-, hi⟩
    · exact h i status hi stage hs
    · cases hi
  | wait | scroll | drop => exact h i status hi stage hs

theorem held_after (d : Desk ς σ) (ms : List Move) : Held (after ({ world := d } : State ς σ) ms) := by
  induction ms with
  | nil => simp [Held, after]
  | cons m ms ih => exact held_step ih m

end

/-- The call that a request makes for itself, whatever follows it. -/
def ownCall (d : Desk ς σ) : Event → Option Call
  | .refresh => some .listRecords
  | e => callOf? d e

def failed (d : Desk ς σ) (err : ApiError) : Call → Stage
  | .listRecords => .reloaded ⟨d.refreshes + 1, d.scroll, .error err⟩ none
  | c => .answered c (.error err)

end LogDesk.Console

namespace LogDesk.Event

def alert (err : ApiError) : Event → Option Notification
  | .stopAll | .startJob | .triggerError | .openJobs | .submitEntry _ => some err.report.notification
  | _ => none

def reply (err : ApiError) : Event → List ViewCall
  | .submitEntry _ => [.closeForm]
  | .showRawJson => [.showRawJson err.report.summary]
  | _ => []

end LogDesk.Event

namespace LogDesk.Console

section
variable [LogService ς]

def called (s : State ς σ) (i : Nat) (e : Event) (c : Call) (err : ApiError) : State ς σ :=
  { s with
    world := { s.world with
      service := (LogService.ask s.world.service c).1
      refreshes := s.world.refreshes + if e = .refresh then 1 else 0
      log := ⟨⟨s.now, i⟩, .asked c⟩ :: s.world.log }
    tasks := s.tasks.set i (.handler true
      (.sleeping (s.now + (LogService.ask s.world.service c).2.2) (failed s.world err c))) }

variable [PreferenceStore σ]

theorem handle_failed (t : Turn) (d : Desk ς σ) {e : Event} {c : Call} {err : ApiError}
    (hc : ownCall d e = some c) (hf : (LogService.ask d.service c).2.1 = .error err) :
    handle t d e = ⟨{ d with
      service := (LogService.ask d.service c).1
      refreshes := d.refreshes + if e = .refresh then 1 else 0
      log := ⟨t, .asked c⟩ :: d.log },
      .sleep (t.now + (LogService.ask d.service c).2.2) (failed d err c), []⟩ := by
  cases e with
  | refresh | stopAll | startJob | triggerError | openJobs | submitEntry | showRawJson | stopJob =>
    cases hc
    simp only [failed, ← hf]
    rfl
  | _ => cases hc

end

def told (s : State ς σ) (i : Nat) (e : Event) (err : ApiError) : State ς σ :=
  { s with
    world := Desk.displayAll
      { s.world with tray := (e.alert err).elim s.world.tray s.world.tray.push } ⟨s.now, i⟩
      (e.reply err ++ ((e.alert err).map fun n => .showToast (s.world.tray.next n)).toList)
    tasks := s.tasks.set i (.handler true (.finished true)) ++ ((e.alert err).map fun n =>
      .handler false (.ready (.expire (s.world.tray.next n).id n.timeout))).toList }

theorem act_failed [LogService ς] [PreferenceStore σ] (t : Turn) (d d₀ : Desk ς σ) {e : Event} {c : Call}
    (err : ApiError) (hc : ownCall d₀ e = some c) : act t d (failed d₀ err c) =
      ⟨Desk.displayAll { d with tray := (e.alert err).elim d.tray d.tray.push } t
        (e.reply err ++ ((e.alert err).map fun n => .showToast (d.tray.next n)).toList),
        .finish true,
        ((e.alert err).map fun n => ⟨false, .expire (d.tray.next n).id n.timeout⟩).toList⟩ := by
  cases e with
  | refresh | stopAll | startJob | triggerError | openJobs | submitEntry | showRawJson | stopJob =>
    cases hc
    rfl
  | _ => cases hc

section
variable [LogService ς] [PreferenceStore σ] {s : State ς σ} {i : Nat} {e : Event} {c : Call}
  {err : ApiError}

theorem called_turn (hh : Held s) (hd : s.deed? i = some (.act (.handle e)))
    (hc : ownCall s.world e = some c) (hf : (LogService.ask s.world.service c).2.1 = .error err) :
    step s (.turn i) = called s i e c err := by
  have ha : program.act s.now i (.handle e) s.world = _ := handle_failed ⟨s.now, i⟩ s.world hc hf
  obtain ⟨holds, ⟨status, ht, hs⟩, hr⟩ := program.act_resume hd (by rw [ha]; rfl)
  obtain rfl : holds = true := by
    refine hh.holding ht (by simp [hs] : Stage.handle e ∈ status.stages) ?_
    cases e with
    | dismissToast id => cases hc
    | _ => rfl
  refine hr.trans ?_
  rw [ha]
  simp [called, Tasks.Wish.status]

theorem told_turn {d : Desk ς σ} {due : Nat} (hc : ownCall d e = some c)
    (ht : s.tasks[i]? = some (.handler true (.sleeping due (failed d err c)))) (hdue : due ≤ s.now) :
    step s (.turn i) = told s i e err := by
  have hd : s.deed? i = some (.act (failed d err c)) := by
    rw [Tasks.Program.sleeping_deed ht, if_pos hdue]
  have ha : program.act s.now i (failed d err c) s.world = _ := act_failed ⟨s.now, i⟩ s.world d err hc
  obtain ⟨holds, ⟨status, ht', hs⟩, hr⟩ := program.act_resume hd (by rw [ha]; rfl)
  rw [ht] at ht'
  cases ht'
  refine hr.trans ?_
  rw [ha]
  cases he : e.alert err <;> simp [told, he, Tasks.Wish.status]

end

section
variable [LogService ς] [PreferenceStore σ]

def Awaits (s : State ς σ) (i due : Nat) (stage : Stage) : Prop :=
  s.tasks[i]? = some (.handler true (.sleeping due stage))

structure Ended (s : State ς σ) (i : Nat) (e : Event) (err : ApiError) : Prop where
  tells : step s (.turn i) = told s i e err
  stays : ∀ later, (after (step s (.turn i)) later).tasks[i]? = some (.handler true (.finished true))
  /-- But for its toast, nothing is left of it. -/
  apart : ∀ n, e.alert err = some n →
    let x : Residue := { toast := some (s.world.tray.next n).id }
    (step s (.turn i)).world.without x = Desk.without x
      (Desk.displayAll { s.world with tray := { s.world.tray with given := s.world.tray.given + 1 } }
        ⟨s.now, i⟩ (e.reply err)) ∧
      ∀ later, x.Spares (raised (step s (.turn i)) later) →
        after (without x (step s (.turn i))) later = without x (after (step s (.turn i)) later)

/-- What a failed request does, from the turn on in which it makes its call. -/
structure Contained (s : State ς σ) (i : Nat) (e : Event) (c : Call) (err : ApiError) : Prop where
  calls : step s (.turn i) = called s i e c err
  /-- But for its number, nothing is left of a failed refresh. -/
  unspent : e = .refresh → let x : Residue := { gap := some s.world.refreshes }
    (without x (step s (.turn i))).world =
        { (step s (.turn i)).world with refreshes := s.world.refreshes } ∧
      (∀ j, j ≠ i → (without x (step s (.turn i))).tasks[j]? = s.tasks[j]?) ∧
      ∀ later, after (without x (step s (.turn i))) later = without x (after (step s (.turn i)) later)
  waits : let due := s.now + (LogService.ask s.world.service c).2.2
    ∀ later, Awaits (after (step s (.turn i)) later) i due (failed s.world err c) ∨
      ∃ last between, later = last ++ .turn i :: between ∧ due ≤ (after (step s (.turn i)) between).now ∧
        Awaits (after (step s (.turn i)) between) i due (failed s.world err c)
  ends : let due := s.now + (LogService.ask s.world.service c).2.2
    ∀ between, due ≤ (after (step s (.turn i)) between).now →
      Awaits (after (step s (.turn i)) between) i due (failed s.world err c) →
      Ended (after (step s (.turn i)) between) i e err

variable {s : State ς σ} {i : Nat} {e : Event} {c : Call} {err : ApiError}

/-- What holds of a task that waits goes on to hold until its turn comes in time. -/
theorem until_turn {P : State ς σ → Prop} {due : Nat}
    (keep : ∀ s m, P s → (m = .turn i → ¬due ≤ s.now) → P (step s m)) (h : P s) (later : List Move) :
    P (after s later) ∨ ∃ last between, later = last ++ .turn i :: between ∧
      due ≤ (after s between).now ∧ P (after s between) := by
  induction later with
  | nil => exact .inl h
  | cons m later ih =>
    rcases ih with h | ⟨last, between, rfl, hdue, h⟩
    · by_cases hm : m = .turn i ∧ due ≤ (after s later).now
      · obtain ⟨rfl, hdue⟩ := hm
        exact .inr ⟨[], later, rfl, hdue, h⟩
      · exact .inl (keep _ m h fun hi hdue => hm ⟨hi, hdue⟩)
    · exact .inr ⟨m :: last, between, rfl, hdue, h⟩

theorem awaits_step {due : Nat} {stage : Stage} {m : Move} (h : Awaits s i due stage)
    (hm : m = .turn i → ¬due ≤ s.now) : Awaits (step s m) i due stage := by
  by_cases hi : m = .turn i
  · subst hi
    have hr : step s (.turn i) = s := program.sleeping_turn h (hm rfl)
    rw [hr]
    exact h
  · exact handler_step hi h

theorem awaits_later {due : Nat} {stage : Stage} (h : Awaits s i due stage) (later : List Move) :
    Awaits (after s later) i due stage ∨ ∃ last between, later = last ++ .turn i :: between ∧
      due ≤ (after s between).now ∧ Awaits (after s between) i due stage :=
  until_turn (fun _ _ => awaits_step) h later

theorem finished_later {answer : Bool} (h : s.tasks[i]? = some (.handler true (.finished answer)))
    (later : List Move) : (after s later).tasks[i]? = some (.handler true (.finished answer)) := by
  induction later with
  | nil => exact h
  | cons m later ih =>
    by_cases hm : m = .turn i
    · subst hm
      exact (congrArg (·.tasks[i]?) (program.finished_turn ih)).trans ih
    · exact handler_step hm ih

omit [LogService ς] [PreferenceStore σ] in
/-- A toast is left out of the desk that it has just been put up on. -/
theorem without_told (s : State ς σ) (i : Nat) {e : Event} {err : ApiError} {n : Notification}
    (hn : e.alert err = some n) :
    (told s i e err).world.without { toast := some (s.world.tray.next n).id } = Desk.without
      { toast := some (s.world.tray.next n).id }
      (Desk.displayAll { s.world with tray := { s.world.tray with given := s.world.tray.given + 1 } }
        ⟨s.now, i⟩ (e.reply err)) := by
  have hpush : (s.world.tray.push n).without { toast := some (s.world.tray.next n).id } =
      ({ s.world.tray with given := s.world.tray.given + 1 } : Tray).without
        { toast := some (s.world.tray.next n).id } := by
    simp [Tray.push, Tray.without]
  have hc : Residue.concerns { toast := some (s.world.tray.next n).id }
      (.shown (.showToast (s.world.tray.next n))) = true := by simp [Residue.concerns]
  unfold told
  rw [hn]
  cases e with
  | stopAll | startJob | triggerError | openJobs | submitEntry =>
    simp [Desk.without, Desk.displayAll, Desk.display, Desk.note, Event.reply, hpush, hc]
  | _ => cases hn

theorem ended_of_awaits {d : Desk ς σ} {due : Nat} (hc : ownCall d e = some c)
    (ht : Awaits s i due (failed d err c)) (hdue : due ≤ s.now) : Ended s i e err := by
  have turn := told_turn hc ht hdue
  refine ⟨turn, finished_later ?_, fun n hn => ⟨?_, fun later hl => ?_⟩⟩
  · obtain ⟨hlt, -⟩ := List.getElem?_eq_some_iff.mp ht
    rw [turn, told, List.getElem?_append_left (by simpa using hlt)]
    simp [hlt]
  · rw [turn]
    exact without_told s i hn
  · exact after_without ⟨⟨by simp, by simp⟩, fun _ _ _ => by simp [Residue.Fits]⟩ hl

end

section
variable [LogService ς] [PreferenceStore σ] {service : ς} {store : σ} {scroll : UInt32} {d : Desk ς σ}

theorem generation_le (hd : openDesk service store scroll = .ok d) (ms : List Move) :
    (after ({ world := d } : State ς σ) ms).world.generation ≤
      (after ({ world := d } : State ς σ) ms).world.refreshes := by
  rcases (settled hd ms).stands with ⟨-, hg⟩ | ⟨r, hr, -, hg⟩
  · exact hg.trans_le (Nat.zero_le _)
  · exact hg.symm.trans_le ((numbered hd ms).le ((numbered hd ms).ended r hr)).2

theorem carried_le (hd : openDesk service store scroll = .ok d) (ms : List Move) {i : Nat} {r : Reload}
    (h : Carries (after ({ world := d } : State ς σ) ms) i r) :
    r.generation ≤ (after ({ world := d } : State ς σ) ms).world.refreshes :=
  ((numbered hd ms).le ((numbered hd ms).carried i r h).1).2

theorem failed_lingers (hd : openDesk service store scroll = .ok d) (ms : List Move) {i : Nat}
    {err : ApiError}
    (ht : (after ({ world := d } : State ς σ) ms).deed? i = some (.act (.handle .refresh)))
    (hf : (LogService.ask (after ({ world := d } : State ς σ) ms).world.service .listRecords).2.1 =
      .error err) :
    Lingers { gap := some (after ({ world := d } : State ς σ) ms).world.refreshes }
      (step (after ({ world := d } : State ς σ) ms) (.turn i)) := by
  have hgen := generation_le hd ms
  have hcarried := fun j r => carried_le hd ms (i := j) (r := r)
  generalize after ({ world := d } : State ς σ) ms = s at ht hf hgen hcarried ⊢
  have hh : happening s (.turn i) = some (.began (s.world.beginReload ⟨s.now, i⟩).2.1) := by
    simp [happening, ht, Stage.happening]
  refine ⟨⟨fun g hg => ?_, fun g hg => ?_⟩, fun j r hc g hg heq => ?_⟩
  · cases hg
    have hr : (step s (.turn i)).world.refreshes = s.world.refreshes + 1 :=
      congrArg Table.refreshes (table_began hh)
    omega
  · cases hg
    have hr : (step s (.turn i)).world.generation = s.world.generation :=
      congrArg Table.generation (table_began hh)
    omega
  · cases hg
    rcases carries_step hc with ⟨hc, -⟩ | ⟨-, hb⟩
    · have := hcarried j r hc
      omega
    · rw [hh] at hb
      cases hb
      exact ⟨err, hf⟩

omit [PreferenceStore σ] in
/-- A refresh that fails has used up a number, which is above all that are there. -/
theorem without_called (s : State ς σ) (i : Nat) (c : Call) (err : ApiError)
    (hg : s.world.generation ≤ s.world.refreshes)
    (hc : ∀ j r, Carries s j r → r.generation ≤ s.world.refreshes) :
    (without { gap := some s.world.refreshes } (called s i .refresh c err)).world =
        { (called s i .refresh c err).world with refreshes := s.world.refreshes } ∧
      ∀ j, j ≠ i → (without { gap := some s.world.refreshes } (called s i .refresh c err)).tasks[j]? =
        s.tasks[j]? := by
  constructor
  · have hr : ({ gap := some s.world.refreshes } : Residue).renumber (s.world.refreshes + 1) =
        s.world.refreshes := by simp [Residue.renumber]
    have hlog (es : List Entry) :
        es.filter (fun e => !({ gap := some s.world.refreshes } : Residue).concerns e.act) = es :=
      List.filter_eq_self.mpr fun e _ => by
        rw [Residue.concerns_noToast (x := { gap := some s.world.refreshes }) rfl]
        rfl
    simp [without, Tasks.State.edit, Residue.edit, called, Desk.without, Tray.without, hr,
      Residue.renumber_le hg, hlog]
  · intro j hj
    have hget : (called s i .refresh c err).tasks[j]? = s.tasks[j]? := List.getElem?_set_ne hj.symm
    rw [without, Tasks.State.edit_get, hget]
    cases ht : s.tasks[j]? with
    | none => rfl
    | some t =>
      refine congrArg some (Tasks.Task.edit_self _ (fun stage hs => ?_) fun r hr => ?_)
      · cases stage with
        | reloaded r news =>
          have hle := hc j r (.inl ⟨news, by simpa [Tasks.State.stagesAt, ht] using hs⟩)
          exact congrArg (fun n => Stage.reloaded { r with generation := n } news) (Residue.renumber_le hle)
        | _ => rfl
      · have hle := hc j r (.inr (by simpa [Tasks.State.workAt, ht] using hr))
        exact congrArg (fun n => { r with generation := n }) (Residue.renumber_le hle)

/-- Whatever other requests and refreshes are under way, a request whose own call fails changes nothing
but what the user is told of it. -/
theorem failure_contained (hd : openDesk service store scroll = .ok d) (ms : List Move) {i : Nat}
    {e : Event} {c : Call} {err : ApiError}
    (ht : (after ({ world := d } : State ς σ) ms).deed? i = some (.act (.handle e)))
    (hc : ownCall (after ({ world := d } : State ς σ) ms).world e = some c)
    (hf : (LogService.ask (after ({ world := d } : State ς σ) ms).world.service c).2.1 = .error err) :
    Contained (after ({ world := d } : State ς σ) ms) i e c err := by
  have held : Held (after ({ world := d } : State ς σ) ms) := by
    clear ht hc hf
    induction ms with
    | nil => simp [Held, after]
    | cons m ms ih => exact held_step ih m
  have turn := called_turn held ht hc hf
  have waits : Awaits (step (after ({ world := d } : State ς σ) ms) (.turn i)) i
      ((after ({ world := d } : State ς σ) ms).now +
        (LogService.ask (after ({ world := d } : State ς σ) ms).world.service c).2.2)
      (failed (after ({ world := d } : State ς σ) ms).world err c) := by
    obtain ⟨holds, status, hi, -⟩ := program.resume_act ht
    obtain ⟨hlt, -⟩ := List.getElem?_eq_some_iff.mp hi
    rw [turn]
    simp [Awaits, called, hlt]
  refine ⟨turn, ?_, awaits_later waits, fun between hdue h => ended_of_awaits hc h hdue⟩
  rintro rfl
  cases hc
  obtain ⟨hworld, htasks⟩ := without_called (after ({ world := d } : State ς σ) ms) i .listRecords err
    (generation_le hd ms) fun j r => carried_le hd ms
  rw [← turn] at hworld htasks
  exact ⟨hworld, htasks, fun later => after_without (failed_lingers hd ms ht hf) (by simp [Residue.Spares])⟩

end

/-- A refresh that fails while another is on its way, and a job that is not started. -/
theorem failure_contained_overlapping :
    let deck : Deck := ⟨[(.ok [], 20), (.error (.status 500 ""), 5)]⟩
    let s : State Deck MemoryStore := { world := dealt deck }
    let ms : List Move := [.ask (.handle .startJob), .ask (.handle .refresh), .turn 0, .ask (.handle .refresh)]
    openDesk deck ({} : MemoryStore) 0 = .ok (dealt deck) ∧
      Contained (after s ms) 1 .refresh .listRecords (.status 500 "") ∧
      Contained (after s ms) 2 .startJob (.startJob 5) (.status 404 "") ∧
      (after s ([.turn 0, .wait 15, .turn 1, .wait 5, .turn 2, .turn 2, .turn 1] ++ ms)).world.shown =
        [.showPreferences {}, .showToast ⟨.nth 0, .requestFailed 404 "error" "Not Found"⟩,
          .renderLogs [], .scrollTo 0] := by
  intro deck s ms
  have hd : openDesk deck ({} : MemoryStore) 0 = .ok (dealt deck) := rfl
  have refresh : Contained (after s ms) 1 .refresh .listRecords (.status 500 "") :=
    failure_contained hd ms rfl rfl rfl
  have job : Contained (after s ms) 2 .startJob (.startJob 5) (.status 404 "") :=
    failure_contained hd ms rfl rfl rfl
  exact ⟨hd, refresh, job, by decide +kernel⟩

end LogDesk.Console
