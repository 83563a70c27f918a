import LogDesk.Proofs.Console.Failure
import LogDesk.Proofs.Console.Said

/-! Which calls an event makes. A request makes one, and another where that has changed what the server
logs; all other events make none. Nor are calls made for it by others: a turn begins no tasks but timers of
toasts, which say nothing, and what a script hands on (`events_dispatched`). -/

namespace LogDesk.Console

open Tasks (Poised)

variable {ς σ : Type}

def Stage.opens : Stage → Bool
  | .handle _ | .expire .. => true
  | _ => false

def Stage.scripted : Stage → Bool
  | .script _ | .switched _ (some _) => true
  | _ => false

/-- Whether a task calls the server at no stage from this one on. -/
def Stage.mute : Stage → Bool
  | .handle e => !e.isRequest
  | .answered .. | .reloaded .. => false
  | _ => true

theorem mute_asks (d : Desk ς σ) {stage : Stage} (h : stage.mute = true) : stage.asks d = [] := by
  cases stage with
  | handle e => cases e <;> first | rfl | cases h
  | answered => cases h
  | _ => rfl

theorem mute_speech [PreferenceStore σ] (d : Desk ς σ) {stage : Stage} (h : stage.mute = true) (c : Call) :
    .call c ∉ stage.speech d := by
  simp [Stage.speech, mute_asks d h]

/-- The timer of a toast says nothing. -/
theorem timing_speech [PreferenceStore σ] (d : Desk ς σ) {stage : Stage} (h : stage.timing = true) :
    stage.speech d = [] := by
  cases stage with
  | handle e => cases e <;> first | rfl | cases h
  | expire | done => rfl
  | _ => cases h

section
variable [LogService ς] {t : Turn} {d : Desk ς σ} {stage next : Stage}

theorem goes_opens (hg : Goes t d stage next) (h : next.opens = true) :
    ∃ id timeout, stage = .expire id timeout := by
  cases hg with
  | expires id timeout => exact ⟨id, timeout, rfl⟩
  | _ => cases h

theorem goes_scripted (hg : Goes t d stage next) (h : next.scripted = true) :
    stage.scripted = true := by
  cases hg <;> first | rfl | cases h

theorem scripted_mute (h : stage.scripted = true) : stage.mute = true := by
  cases stage <;> first | rfl | cases h

theorem begins_scripted (hb : Begins stage next) : next.scripted = false := by
  cases hb <;> rfl

theorem goes_mute (hg : Goes t d stage next) (h : stage.mute = true) : next.mute = true := by
  cases hg with
  | asks e c hc =>
    cases e with
    | stopAll | startJob | triggerError | refresh | openJobs | submitEntry | showRawJson | stopJob =>
      cases h
    | _ => cases hc
  | reloads stage r news hb =>
    unfold Stage.happening at hb
    split at hb <;> cases hb <;> cases h
  | _ => rfl

end

section
variable [LogService ς] [PreferenceStore σ] {s : State ς σ} {i : Nat} {m : Move}

/-- A task that does nothing says nothing. -/
theorem idle_said (h : m = .turn i → s.deed? i = none) :
    (step s m).world.saidBy i = s.world.saidBy i := by
  by_cases hm : m = .turn i
  · subst hm
    rw [(turn_speaks s i).self, saying, h rfl, List.append_nil]
  · exact step_said hm

/-- What the tasks have said that are not yet through with their first stage, or take a script. -/
structure Unsaid (s : State ς σ) : Prop where
  unborn : ∀ i, s.tasks[i]? = none → s.world.saidBy i = []
  opens : ∀ i, ∀ stage ∈ s.stagesAt i, stage.opens = true → s.world.saidBy i = []
  scripts : ∀ i, ∀ stage ∈ s.stagesAt i, stage.scripted = true → ∀ c, .call c ∉ s.world.saidBy i

omit [LogService ς] in
theorem unsaid_start {service : ς} {store : σ} {scroll : UInt32} {d : Desk ς σ}
    (hd : openDesk service store scroll = .ok d) : Unsaid ({ world := d } : State ς σ) := by
  have hn (i : Nat) : d.saidBy i = [] := by
    unfold openDesk at hd
    split at hd
    · cases hd
    · cases hd
      exact (Desk.display_speaks _ ⟨0, 0⟩ rfl i).trans (by simp [Desk.saidBy])
  exact ⟨fun i _ => hn i, fun i _ _ _ => hn i, fun i _ _ _ c hc => by simp [hn i] at hc⟩

omit [LogService ς] [PreferenceStore σ] in
theorem unborn_idle (h : s.tasks[i]? = none) : s.deed? i = none := by
  simp [Tasks.State.deed?, Tasks.State.enabled, h]

omit [LogService ς] [PreferenceStore σ] in
theorem deed_lt {deed : Tasks.Deed Unit Reload Stage} (hd : s.deed? i = some deed) : i < s.tasks.length := by
  by_contra hi
  rw [unborn_idle (List.getElem?_eq_none (Nat.not_lt.mp hi))] at hd
  cases hd

/-- A new task takes a place that no other has had. -/
theorem unborn_before (h : (step s m).tasks[i]? = none) : s.tasks[i]? = none := by
  cases ht : s.tasks[i]? with
  | none => rfl
  | some t =>
    cases m with
    | turn k =>
      obtain ⟨t', h'⟩ := program.resume_some (k := k) ht
      exact absurd (h.symm.trans h') (by simp)
    | ask e => exact absurd (h.symm.trans ((s.addTask_get _).mpr (.inl ht))) (by simp)
    | _ => exact absurd (h.symm.trans ht) (by simp)

theorem unsaid_step (h : Unsaid s) (m : Move) : Unsaid (step s m) := by
  have unborn (i : Nat) (ht : s.tasks[i]? = none) : (step s m).world.saidBy i = [] := by
    rw [idle_said fun _ => unborn_idle ht]
    exact h.unborn i ht
  constructor
  · intro i ht
    exact unborn i (unborn_before ht)
  · intro i stage hs ho
    cases stage_comes hs with
    | stays hs idle =>
      rw [idle_said idle]
      exact h.opens i stage hs ho
    | goes st turn deed hg =>
      obtain ⟨id, timeout, rfl⟩ := goes_opens hg ho
      subst turn
      rw [(turn_speaks s i).self, saying, deed, h.opens i _ (deed_stagesAt deed) rfl]
      rfl
    | begins _ _ _ _ _ place => exact unborn i (List.getElem?_eq_none place)
    | asked _ _ place => exact unborn i (List.getElem?_eq_none place.ge)
  · intro i stage hs hsc c hc
    cases stage_comes hs with
    | stays hs idle =>
      rw [idle_said idle] at hc
      exact h.scripts i stage hs hsc c hc
    | goes st turn deed hg =>
      have hst := goes_scripted hg hsc
      subst turn
      rw [(turn_speaks s i).self, saying, deed] at hc
      rcases List.mem_append.mp hc with hc | hc
      · exact h.scripts i st (deed_stagesAt deed) hst c hc
      · exact mute_speech s.world (scripted_mute hst) c hc
    | begins _ _ _ _ _ _ _ hb => rw [begins_scripted hb] at hsc; cases hsc
    | asked _ _ place =>
      rw [unborn i (List.getElem?_eq_none place.ge)] at hc
      cases hc

theorem unsaid_after (h : Unsaid s) (ms : List Move) : Unsaid (after s ms) := by
  induction ms with
  | nil => exact h
  | cons m ms ih => exact unsaid_step ih m

/-- A kind of stages that a task does not leave again, and what is said at them. -/
structure Closed (ς σ : Type) [LogService ς] [PreferenceStore σ] (kind : Stage → Bool)
    (speaks : Saying → Prop) : Prop where
  goes : ∀ (t : Turn) (d : Desk ς σ) {stage next : Stage}, Goes t d stage next → kind stage = true →
    kind next = true
  speech : ∀ (d : Desk ς σ) {stage : Stage}, kind stage = true → ∀ x ∈ stage.speech d, speaks x

/-- A task at stages of a kind that has said nothing else than is said at these. -/
structure Confined (kind : Stage → Bool) (speaks : Saying → Prop) (s : State ς σ) (i : Nat) : Prop where
  task : ∃ holds status, s.tasks[i]? = some (.handler holds status) ∧
    ∀ stage ∈ status.stages, kind stage = true
  said : ∀ x ∈ s.world.saidBy i, speaks x

section
variable {kind : Stage → Bool} {speaks : Saying → Prop}

theorem Confined.turn (hc : Closed ς σ kind speaks) (h : Confined kind speaks s i) :
    Confined kind speaks (step s (.turn i)) i := by
  obtain ⟨holds, status, ht, hkind⟩ := h.task
  constructor
  · obtain ⟨status', ht'⟩ := program.handler_turn ht
    refine ⟨holds, status', ht', fun next hn => ?_⟩
    have hs : next ∈ (Console.step s (.turn i)).stagesAt i := by
      rw [Tasks.State.stagesAt]
      exact ht' ▸ hn
    cases stage_comes hs with
    | stays hs =>
      rw [Tasks.State.stagesAt, ht] at hs
      exact hkind next hs
    | goes st _ deed hg =>
      obtain ⟨_, heq, hst⟩ := Tasks.Program.handler_deed ht deed
      cases heq
      exact hc.goes _ _ hg (hkind st (by simp [hst]))
    | begins _ _ _ _ _ place =>
      rw [List.getElem?_eq_none place] at ht
      cases ht
    | asked e ask => cases ask
  · intro x hx
    rw [(turn_speaks s i).self, saying] at hx
    rcases List.mem_append.mp hx with hx | hx
    · exact h.said x hx
    · cases hd : s.deed? i with
      | none => simp [hd] at hx
      | some deed =>
        obtain ⟨stage, rfl, hs⟩ := Tasks.Program.handler_deed ht hd
        rw [hd] at hx
        exact hc.speech s.world (hkind stage (by simp [hs])) x hx

theorem Confined.step (hc : Closed ς σ kind speaks) (h : Confined kind speaks s i) (m : Move) :
    Confined kind speaks (step s m) i := by
  by_cases hm : m = .turn i
  · exact hm ▸ h.turn hc
  · obtain ⟨holds, status, ht, hkind⟩ := h.task
    exact ⟨⟨holds, status, handler_step hm ht, hkind⟩, by rw [step_said hm]; exact h.said⟩

theorem Confined.later (hc : Closed ς σ kind speaks) (h : Confined kind speaks s i) (later : List Move) :
    Confined kind speaks (after s later) i := by
  induction later with
  | nil => exact h
  | cons m later ih => exact ih.step hc m

end

theorem mute_closed : Closed ς σ Stage.mute fun x => ∀ c, x ≠ .call c where
  goes _ _ _ _ := goes_mute
  speech d _ h _ hx c hc := mute_speech d h c (hc ▸ hx)

theorem timing_closed : Closed ς σ Stage.timing fun _ => False where
  goes _ _ _ _ := goes_timing
  speech d stage h x hx := by
    rw [timing_speech d h] at hx
    cases hx

/-- A task that calls the server neither now nor later. -/
def Silent (s : State ς σ) (i : Nat) : Prop := ∀ later c, .call c ∉ (after s later).world.saidBy i

/-- A task that says nothing at all, neither now nor later. -/
def Wordless (s : State ς σ) (i : Nat) : Prop := ∀ later, (after s later).world.saidBy i = []

/-- A task that a move begins at a place: one that is asked for, the timer of a toast, a request that a
script hands on, or a loop of the refresh timer, in a turn that does nothing else. -/
inductive Begun (s : State ς σ) : Move → Nat → Tasks.Task Unit Reload Stage → Prop where
  | asked (e : Errand) : Begun s (.ask e) s.tasks.length (.handler true (.ready e.stage))
  | toast (i j : Nat) (id : Uuid) (timeout : Nat) (wordless : Wordless (step s (.turn i)) j) :
    Begun s (.turn i) j (.handler false (.ready (.expire id timeout)))
  | handed (i : Nat) (e : Event) (rest : List Event) (deed : s.deed? i = some (.act (.script (e :: rest))))
    (request : e.isRequest = true) : Begun s (.turn i) s.tasks.length (.handler true (.ready (.handle e)))
  | loop (i j : Nat) (idle : s.deed? i = none) : Begun s (.turn i) j (.loop () false .fresh)

theorem hands_cases (stage : Stage) :
    stage.hands = [] ∨ ∃ e rest, stage = .script (e :: rest) ∧ e.isRequest = true := by
  cases stage with
  | script events =>
    cases events with
    | nil => exact .inl rfl
    | cons e rest =>
      cases he : e.isRequest with
      | true => exact .inr ⟨e, rest, rfl, he⟩
      | false => exact .inl (by simp [Stage.hands, he])
  | _ => exact .inl rfl

theorem Confined.wordless (h : Confined Stage.timing (fun _ => False) s i) : Wordless s i :=
  fun later => List.eq_nil_iff_forall_not_mem.mpr (h.later timing_closed later).said

theorem act_begun (h : Unsaid s) {stage : Stage} {x : Tasks.Spawn Stage} {k : Nat}
    (hd : s.deed? i = some (.act stage))
    (hx : (act ⟨s.now, i⟩ s.world stage).spawned[k]? = some x)
    (ht : (step s (.turn i)).tasks[s.tasks.length + k]? = some (.handler x.holds (.ready x.stage))) :
    Begun s (.turn i) (s.tasks.length + k) (.handler x.holds (.ready x.stage)) := by
  rcases hands_cases stage with hn | ⟨e, rest, rfl, he⟩
  · have hsp := (act_toasts ⟨s.now, i⟩ s.world stage).spawned
    rw [hn, List.append_nil] at hsp
    rw [hsp] at hx
    obtain ⟨r, -, rfl⟩ := List.mem_map.mp (List.mem_of_getElem? hx)
    have hfree : s.tasks[s.tasks.length + k]? = none := List.getElem?_eq_none (by omega)
    have hi := deed_lt hd
    have hne : Move.turn i ≠ .turn (s.tasks.length + k) := fun heq => by
      cases heq
      omega
    refine .toast i _ r.id _ (Confined.wordless ⟨⟨_, _, ht, ?_⟩, ?_⟩)
    · intro stage hs
      cases List.mem_singleton.mp hs
      rfl
    · rw [step_said hne, h.unborn _ hfree]
      intro _ hm
      cases hm
  · -- a script hands on one request at a time
    have hsp : (act ⟨s.now, i⟩ s.world (.script (e :: rest))).spawned = [⟨true, .handle e⟩] :=
      congrArg (·.spawned) (takeEvent_request ⟨s.now, i⟩ s.world rest he)
    rw [hsp] at hx
    obtain ⟨rfl, rfl⟩ : k = 0 ∧ ⟨true, .handle e⟩ = x := by
      simpa [List.getElem?_singleton] using hx
    exact .handed i e rest hd he

theorem turn_begun (h : Unsaid s) {j : Nat} {task : Tasks.Task Unit Reload Stage} (hj : s.tasks.length ≤ j)
    (ht : (step s (.turn i)).tasks[j]? = some task) : Begun s (.turn i) j task := by
  have hfree : s.tasks[j]? = none := List.getElem?_eq_none hj
  have hne : j ≠ i := by
    rintro rfl
    have hr : step s (.turn j) = s := by
      simp [step, Tasks.Program.move, Tasks.Program.resume, Tasks.State.enabled, hfree]
    rw [hr, hfree] at ht
    cases ht
  have hget : (program.resume s i).tasks[j]? = some task := ht
  cases hd : s.deed? i with
  | none =>
    have hsp := program.resume_other s hne
    rw [hfree, hget, Tasks.Program.spawned, hd] at hsp
    cases hsp with
    | looped => exact .loop i j hd
    | spawned x hx => cases hx
  | some deed =>
    cases deed with
    | act stage =>
      have hspawned : program.spawned s i = (act ⟨s.now, i⟩ s.world stage).spawned := by
        rw [Tasks.Program.spawned, hd]
        rfl
      obtain ⟨k, rfl⟩ := Nat.exists_eq_add_of_le hj
      rw [program.act_get hd hne, hspawned, List.getElem?_append_right hj, Nat.add_sub_cancel_left,
        List.getElem?_map] at hget
      obtain ⟨x, hx, rfl⟩ := Option.map_eq_some_iff.mp hget
      exact act_begun h hd hx ht
    | beginTick | endTick =>
      rw [program.tick_get hd (by simp) hne, hfree] at hget
      cases hget

theorem step_begun (h : Unsaid s) {j : Nat} {task : Tasks.Task Unit Reload Stage} (hj : s.tasks.length ≤ j)
    (ht : (step s m).tasks[j]? = some task) : Begun s m j task := by
  have hfree : s.tasks[j]? = none := List.getElem?_eq_none hj
  cases m with
  | turn i => exact turn_begun h hj ht
  | ask e =>
    rcases (s.addTask_get _).mp ht with ht | ⟨rfl, rfl⟩
    · rw [hfree] at ht
      cases ht
    · exact .asked e
  | wait | scroll | drop =>
    have hget : s.tasks[j]? = some task := ht
    rw [hfree] at hget
    cases hget

/-- A task waits for an answer that comes at a moment, and has said so much. -/
structure Waiting (s : State ς σ) (i due : Nat) (stage : Stage) (said : List Saying) : Prop where
  task : Awaits s i due stage
  said : s.world.saidBy i = said

/-- A task waits, and from its first turn after the answer has come it goes on as is said of the state
before that. -/
structure Pending (s : State ς σ) (i due : Nat) (stage : Stage) (said : List Saying)
    (next : State ς σ → Prop) : Prop where
  waits : ∀ later, Waiting (after s later) i due stage said ∨
    ∃ last between, later = last ++ .turn i :: between ∧ due ≤ (after s between).now ∧
      Waiting (after s between) i due stage said
  goes : ∀ between, due ≤ (after s between).now → Waiting (after s between) i due stage said →
    next (after s between)

def Done (s : State ς σ) (i : Nat) (said : List Saying) : Prop :=
  ∀ later, (after s later).tasks[i]? = some (.handler true (.finished true)) ∧
    (after s later).world.saidBy i = said

def awaited (d : Desk ς σ) : (c : Call) → c.Outcome → Stage
  | .listRecords, outcome => .reloaded ⟨d.refreshes + 1, d.scroll, outcome⟩ none
  | c, outcome => .answered c outcome

/-- After its own call a request has the log refreshed. The user is told when that has ended, be it that
it has failed or comes too late. -/
def Renewed (s : State ς σ) (i : Nat) (c : Call) (outcome : c.Outcome) : Prop :=
  let records := LogService.ask s.world.service .listRecords
  Pending (step s (.turn i)) i (s.now + records.2.2)
    (.reloaded ⟨s.world.refreshes + 1, s.world.scroll, records.2.1⟩ (c.news outcome).head?)
    [.call c, .call .listRecords] fun s' => Done (step s' (.turn i)) i (c.sayings outcome)

/-- A request whose own call is `c`, from the turn on in which it makes that. -/
def Requested (s : State ς σ) (i : Nat) (c : Call) : Prop :=
  let answer := LogService.ask s.world.service c
  Pending (step s (.turn i)) i (s.now + answer.2.2) (awaited s.world c answer.2.1) [.call c] fun s' =>
    if c.renews answer.2.1 then Renewed s' i c answer.2.1
    else Done (step s' (.turn i)) i (c.sayings answer.2.1)

theorem waiting_pending {due : Nat} {stage : Stage} {said : List Saying} {next : State ς σ → Prop}
    (h : Waiting s i due stage said)
    (hn : ∀ s', due ≤ s'.now → Waiting s' i due stage said → next s') :
    Pending s i due stage said next where
  waits := by
    refine until_turn (P := fun s => Waiting s i due stage said)
      (fun s m h hm => ⟨awaits_step h.task hm, ?_⟩) h
    rw [idle_said fun hi => ?_]
    · exact h.said
    · rw [Tasks.Program.sleeping_deed h.task, if_neg (hm hi)]
  goes between hdue h := hn _ hdue h

theorem finished_done {said : List Saying}
    (task : s.tasks[i]? = some (.handler true (.finished true))) (hs : s.world.saidBy i = said) :
    Done s i said := by
  intro later
  refine ⟨finished_later task later, ?_⟩
  induction later with
  | nil => exact hs
  | cons m later ih =>
    refine (idle_said fun _ => ?_).trans ih
    simp [Tasks.State.deed?, finished_later task later]

omit [LogService ς] [PreferenceStore σ] in
theorem Waiting.poised {due : Nat} {stage : Stage} {said : List Saying}
    (h : Waiting s i due stage said) (hdue : due ≤ s.now) : Poised s i stage :=
  .rested due h.task hdue

theorem poised_speaks {stage : Stage} (h : Poised s i stage) :
    (step s (.turn i)).world.saidBy i = s.world.saidBy i ++ stage.speech s.world := by
  rw [(turn_speaks s i).self, saying, h.deed]

theorem poised_waits {stage next : Stage} {due : Nat} (h : Poised s i stage)
    (hw : (act ⟨s.now, i⟩ s.world stage).wish = .sleep due next) :
    Waiting (step s (.turn i)) i due next (s.world.saidBy i ++ stage.speech s.world) := by
  have ht : (step s (.turn i)).tasks[i]? =
      some (.handler true (act ⟨s.now, i⟩ s.world stage).wish.status) := h.turn program
  rw [hw] at ht
  exact ⟨ht, poised_speaks h⟩

theorem poised_done {stage : Stage} (h : Poised s i stage)
    (hw : (act ⟨s.now, i⟩ s.world stage).wish = .finish true) :
    Done (step s (.turn i)) i (s.world.saidBy i ++ stage.speech s.world) := by
  have ht : (step s (.turn i)).tasks[i]? =
      some (.handler true (act ⟨s.now, i⟩ s.world stage).wish.status) := h.turn program
  rw [hw] at ht
  exact finished_done ht (poised_speaks h)

theorem Held.poised {stage : Stage} (hh : Held s) (hd : s.deed? i = some (.act stage))
    (ht : stage.timing = false) : Poised s i stage := by
  obtain ⟨holds, status, hi, hs, -⟩ := program.resume_act hd
  obtain rfl : holds = true := hh.holding hi (by simp [hs]) ht
  cases status with
  | ready next =>
    cases hs
    exact .ready hi
  | sleeping till next =>
    cases hs
    rw [Tasks.Program.sleeping_deed hi] at hd
    split at hd
    next hdue => exact .rested till hi hdue
    next => cases hd
  | queued | halting => simp [Tasks.State.deed?, hi] at hd
  | finished => cases hs

omit [PreferenceStore σ] in
/-- The news that is told after a refresh is all the news there is. -/
theorem renews_sayings {c : Call} {outcome : c.Outcome} (h : c.renews outcome = true) :
    [.call c, .call .listRecords] ++ (c.news outcome).head?.toList.map .toast = c.sayings outcome := by
  cases c <;> cases outcome <;> first | rfl | cases h

theorem handle_asks (t : Turn) (d : Desk ς σ) {e : Event} {c : Call}
    (hc : e.call? d.preferences.interval = some c) :
    (act t d (.handle e)).wish = .sleep (t.now + (LogService.ask d.service c).2.2)
        (awaited d c (LogService.ask d.service c).2.1) ∧
      (Stage.handle e).speech d = [.call c] := by
  cases e with
  | stopAll | startJob | triggerError | refresh | openJobs | submitEntry | showRawJson | stopJob =>
    cases hc
    exact ⟨rfl, rfl⟩
  | _ => cases hc

theorem awaited_renews (t : Turn) (d₀ d : Desk ς σ) {c : Call} {outcome : c.Outcome}
    (h : c.renews outcome = true) : (act t d (awaited d₀ c outcome)).wish =
        .sleep (t.now + (LogService.ask d.service .listRecords).2.2)
          (.reloaded ⟨d.refreshes + 1, d.scroll, (LogService.ask d.service .listRecords).2.1⟩
            (c.news outcome).head?) ∧
      (awaited d₀ c outcome).speech d = [.call .listRecords] := by
  cases c <;> cases outcome <;> first | exact ⟨rfl, rfl⟩ | cases h

theorem awaited_ends (t : Turn) (d₀ d : Desk ς σ) {c : Call} {outcome : c.Outcome}
    (h : c.renews outcome = false) : (act t d (awaited d₀ c outcome)).wish = .finish true ∧
      (awaited d₀ c outcome).speech d = (c.news outcome).map .toast := by
  cases c <;> cases outcome <;> first | exact ⟨rfl, rfl⟩ | cases h

theorem requested {e : Event} {c : Call} (h : Poised s i (.handle e)) (hn : s.world.saidBy i = [])
    (hc : e.call? s.world.preferences.interval = some c) : Requested s i c := by
  obtain ⟨hwish, hspeech⟩ := handle_asks ⟨s.now, i⟩ s.world hc
  have hown := poised_waits h hwish
  rw [hn, hspeech] at hown
  refine waiting_pending hown fun s₁ hdue h₁ => ?_
  generalize (LogService.ask s.world.service c).2.1 = outcome at h₁ ⊢
  have poised₁ := h₁.poised hdue
  split
  next hr =>
    obtain ⟨hwish, hspeech⟩ := awaited_renews ⟨s₁.now, i⟩ s.world s₁.world hr
    have hrefresh := poised_waits poised₁ hwish
    rw [h₁.said, hspeech] at hrefresh
    refine waiting_pending hrefresh fun s₂ hdue h₂ => ?_
    have hdone := poised_done (h₂.poised hdue) rfl
    rw [h₂.said] at hdone
    rw [← renews_sayings hr]
    exact hdone
  next hr =>
    obtain ⟨hwish, hspeech⟩ := awaited_ends ⟨s₁.now, i⟩ s.world s₁.world (Bool.eq_false_iff.mpr hr)
    have hdone := poised_done poised₁ hwish
    rw [h₁.said, hspeech] at hdone
    simpa [Call.sayings, hr] using hdone

/-- The toast of a job that is started, spelled out beside the code that raises it. -/
def jobToast (id : String) (seconds : UInt32) : Notification where
  title := "Job Started"
  body := "Scheduled job with id " ++ id ++ " to run every " ++ toString seconds.toNat ++ " seconds."

theorem request_timing {e : Event} (h : e.isRequest = true) : (Stage.handle e).timing = false := by
  cases e <;> first | rfl | cases h

theorem mute_silent {stage : Stage} (hd : s.deed? i = some (.act stage)) (hm : stage.mute = true)
    (hn : ∀ c, .call c ∉ s.world.saidBy i) : Silent s i := by
  obtain ⟨holds, status, ht, hs, -⟩ := program.resume_act hd
  have confined : Confined Stage.mute (fun x => ∀ c, x ≠ .call c) s i :=
    ⟨⟨holds, status, ht, by simpa [hs] using hm⟩, fun x hx c hc => hn c (hc ▸ hx)⟩
  exact fun later c hc => (confined.later mute_closed later).said _ hc c rfl

/-- A request of a script is at its first stage, in the place of the next task. -/
theorem handed_deed {e : Event} {rest : List Event} (hd : s.deed? i = some (.act (.script (e :: rest))))
    (he : e.isRequest = true) : (step s (.turn i)).deed? s.tasks.length = some (.act (.handle e)) := by
  have hspawned : program.spawned s i = [⟨true, .handle e⟩] := by
    rw [Tasks.Program.spawned, hd]
    exact congrArg (·.spawned) (takeEvent_request ⟨s.now, i⟩ s.world rest he)
  refine (Poised.ready ((program.act_get hd (deed_lt hd).ne').trans ?_)).deed
  rw [hspawned]
  simp

/-- What a console does with each event. -/
structure Dispatched (s : State ς σ) : Prop where
  /-- An event that is asked for has a task of its own. -/
  asks : ∀ e, (step s (.ask (.handle e))).deed? s.tasks.length = some (.act (.handle e))
  /-- So has a request of a script. -/
  hands : ∀ i e rest, s.deed? i = some (.act (.script (e :: rest))) → e.isRequest = true →
    (step s (.turn i)).deed? s.tasks.length = some (.act (.handle e))
  request : ∀ i e, s.deed? i = some (.act (.handle e)) → e.isRequest = true →
    ∃ c, e.call? s.world.preferences.interval = some c ∧ s.world.saidBy i = [] ∧ Requested s i c
  other : ∀ i e, s.deed? i = some (.act (.handle e)) → e.isRequest = false → Silent s i
  script : ∀ i events, s.deed? i = some (.act (.script events)) → Silent s i
  /-- No task says anything for another. -/
  own : ∀ m i, m ≠ .turn i → (step s m).world.saidBy i = s.world.saidBy i
  /-- Nor does it have anything said for it by tasks that it begins: but for a script, these are timers of
  toasts. -/
  begins : ∀ m j task, s.tasks.length ≤ j → (step s m).tasks[j]? = some task → Begun s m j task
  /-- Of a job that is started the user is told which it is, and how often it runs. -/
  job : ∀ seconds started, (Call.startJob seconds).sayings (.ok started) =
    [.call (.startJob seconds), .call .listRecords, .toast (jobToast started.id seconds)]

/-- Whatever the server answers, an event makes just the calls that it is for. -/
theorem events_dispatched {service : ς} {store : σ} {scroll : UInt32} {d : Desk ς σ}
    (hd : openDesk service store scroll = .ok d) (ms : List Move) :
    Dispatched (after ({ world := d } : State ς σ) ms) := by
  have unsaid := unsaid_after (unsaid_start hd) ms
  have held := held_after d ms
  generalize after ({ world := d } : State ς σ) ms = s at unsaid held
  constructor
  · intro e
    exact (Poised.ready ((s.addTask_get _).mpr (.inr ⟨rfl, rfl⟩))).deed
  · intro i e rest hd he
    exact handed_deed hd he
  · intro i e hd he
    obtain ⟨c, hc⟩ := Option.isSome_iff_exists.mp
      ((e.call?_isSome s.world.preferences.interval).trans he)
    have hn := unsaid.opens i _ (deed_stagesAt hd) rfl
    exact ⟨c, hc, hn, requested (held.poised hd (request_timing he)) hn hc⟩
  · intro i e hd he
    refine mute_silent hd (by simp [Stage.mute, he]) ?_
    simp [unsaid.opens i _ (deed_stagesAt hd) rfl]
  · intro i events hd
    exact mute_silent hd rfl (unsaid.scripts i _ (deed_stagesAt hd) rfl)
  · intro m i hm
    exact step_said hm
  · intro m j task hj ht
    exact step_begun unsaid hj ht
  · intro seconds started
    rfl

end

/-- The refresh that follows a job comes after one that was asked for later. The user is told of the job
all the same. -/
theorem events_dispatched_stale :
    let service : Rehearsed := { started := "log-job-1", delays := [("list_logs", [20])] }
    let store : MemoryStore := ⟨[("autoRefresh", "false"), ("seconds", "5")], none⟩
    let d : Desk Rehearsed MemoryStore :=
      { service, store, preferences := {}, log := [⟨⟨0, 0⟩, .shown (.showPreferences {})⟩] }
    let s : State Rehearsed MemoryStore := { world := d }
    let job : List Move := [.turn 0, .turn 0, .ask (.handle .startJob)]
    let ms : List Move := [.turn 0, .wait 20, .turn 1, .turn 1, .ask (.handle .refresh)] ++ job
    openDesk service store 0 = .ok d ∧ Dispatched (after s [.ask (.handle .startJob)]) ∧
      (after s job).world.saidBy 0 = [.call (.startJob 5), .call .listRecords] ∧
      (after s ms).world.saidBy 0 =
        [.call (.startJob 5), .call .listRecords, .toast
          { title := "Job Started", body := "Scheduled job with id log-job-1 to run every 5 seconds." }] ∧
      (after s ms).world.saidBy 1 = [.call .listRecords] ∧ (after s ms).world.generation = 2 := by
  intro service store d s job ms
  have hd : openDesk service store 0 = .ok d := rfl
  exact ⟨hd, events_dispatched hd _, by decide +kernel, by decide +kernel, by decide +kernel,
    by decide +kernel⟩

end LogDesk.Console
