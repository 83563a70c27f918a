import LogDesk.Proofs.Console.Tray

/-! What each task says: to the server by its calls, to the user by its toasts. Only a task's own turns add
to it, and `act_speaks` tells what each of them adds. -/

namespace LogDesk

inductive Saying where
  | call (c : Call)
  | toast (n : Notification)
  deriving DecidableEq

def Act.said? : Act → Option Saying
  | .asked c => some (.call c)
  | .shown (.showToast t) => some (.toast t.notification)
  | _ => none

theorem Act.said_none {v : ViewCall} (h : (Act.shown v).onToasts = false) :
    (Act.shown v).said? = none := by
  cases v <;> first | rfl | cases h

def Event.call? (seconds : UInt32) : Event → Option Call
  | stopAll => some .stopAll
  | startJob => some (.startJob seconds)
  | triggerError => some .triggerError
  | refresh => some .listRecords
  | openJobs => some .listJobs
  | submitEntry form => some (.createEntry form)
  | showRawJson => some .listRaw
  | stopJob id => some (.stopJob id)
  | _ => none

theorem Event.call?_isSome (seconds : UInt32) (e : Event) :
    (e.call? seconds).isSome = e.isRequest := by
  cases e <;> rfl

namespace Call

def logs : Call → Bool
  | startJob _ | triggerError | createEntry _ => true
  | _ => false

/-- Whether the records are asked for when a call has ended. -/
def renews (c : Call) (outcome : c.Outcome) : Bool := c.logs && outcome.isOk

def news : (c : Call) → c.Outcome → List Notification
  | stopAll, .ok stopped => Notification.ofStopped stopped
  | startJob seconds, .ok job => [.jobStarted job.id seconds.toNat]
  | stopAll, .error e | startJob _, .error e | triggerError, .error e | createEntry _, .error e
  | listJobs, .error e => [e.report.notification]
  | _, _ => []

def sayings (c : Call) (outcome : c.Outcome) : List Saying :=
  .call c :: (if c.renews outcome then [.call .listRecords] else []) ++
    (c.news outcome).map .toast

end Call

section
variable {ς σ : Type} {t : Turn} {d d' d'' : Desk ς σ} {said said' : List Saying}

def Desk.saidBy (d : Desk ς σ) (i : Nat) : List Saying :=
  d.log.reverse.filterMap fun e => if e.turn.task = i then e.act.said? else none

/-- From one desk to another the task of a turn says just this, and no other says anything. -/
def Speaks (t : Turn) (d d' : Desk ς σ) (said : List Saying) : Prop :=
  ∀ i, d'.saidBy i = d.saidBy i ++ if t.task = i then said else []

namespace Speaks

theorem nothing (h : d'.log = d.log) : Speaks t d d' [] := by
  intro i
  simp [Desk.saidBy, h]

theorem trans (h₁ : Speaks t d d' said) (h₂ : Speaks t d' d'' said') : Speaks t d d'' (said ++ said') := by
  intro i
  rw [h₂ i, h₁ i]
  split <;> simp

theorem self (h : Speaks t d d' said) : d'.saidBy t.task = d.saidBy t.task ++ said := by
  rw [h, if_pos rfl]

theorem other (h : Speaks t d d' said) {i : Nat} (hi : i ≠ t.task) : d'.saidBy i = d.saidBy i := by
  rw [h, if_neg hi.symm, List.append_nil]

end Speaks

namespace Desk

theorem note_speaks (d : Desk ς σ) (t : Turn) (a : Act) : Speaks t d (d.note t a) a.said?.toList := by
  intro i
  by_cases hi : t.task = i
  · cases ha : a.said? <;> simp [saidBy, note, hi, ha]
  · simp [saidBy, note, hi]

theorem display_speaks (d : Desk ς σ) (t : Turn) {v : ViewCall} (h : (Act.shown v).said? = none) :
    Speaks t d (d.display t v) [] := by
  have hn := d.note_speaks t (.shown v)
  rwa [h] at hn

theorem displayAll_speaks (d : Desk ς σ) (t : Turn) {vs : List ViewCall}
    (h : ∀ v ∈ vs, (Act.shown v).onToasts = false) : Speaks t d (d.displayAll t vs) [] := by
  induction vs generalizing d with
  | nil => exact .nothing rfl
  | cons v vs ih =>
    exact (d.display_speaks t (Act.said_none (h v List.mem_cons_self))).trans
      (ih (d.display t v) fun v' hv => h v' (List.mem_cons_of_mem v hv))

theorem finishReload_speaks (d : Desk ς σ) (t : Turn) (r : Reload) :
    Speaks t d (d.finishReload t r) [] := by
  rw [finishReload_eq]
  cases d.table.brought? r with
  | none => exact .nothing rfl
  | some records =>
    exact displayAll_speaks { d with generation := _, expansion := _, records := _ } t
      fun _ => redraw_toasts

theorem raise_speaks (d : Desk ς σ) (t : Turn) (n : Notification) :
    Speaks t d (d.raise t n).1 [.toast n] :=
  note_speaks { d with tray := d.tray.push n } t (.shown (.showToast (d.tray.next n)))

theorem expandRow_speaks (d : Desk ς σ) (t : Turn) (pos : Nat) : Speaks t d (d.expandRow t pos) [] :=
  displayAll_speaks { d with expansion := d.expansion.expand pos } t
    fun _ hv => opening_toasts (Option.mem_toList.mp hv)

theorem dismiss_speaks (d : Desk ς σ) (t : Turn) (id : Uuid) : Speaks t d (d.dismiss t id) [] := by
  unfold dismiss
  split
  · exact display_speaks { d with tray := d.tray.remove id } t rfl
  · exact .nothing rfl

theorem setInterval_speaks [PreferenceStore σ] (d : Desk ς σ) (t : Turn) (seconds : UInt32) :
    Speaks t d (d.setInterval t seconds).1 [] := by
  unfold setInterval
  dsimp only
  split
  · exact .nothing rfl
  · exact display_speaks { d with .. } t rfl

end Desk

end

namespace Console

variable {ς σ : Type}

theorem notify_speaks (t : Turn) (ns : List Notification) (d : Desk ς σ) :
    Speaks t d (notify t ns d).1 (ns.map .toast) := by
  induction ns generalizing d with
  | nil => exact .nothing rfl
  | cons n ns ih => exact (d.raise_speaks t n).trans (ih (d.raise t n).1)

def Stage.asks (d : Desk ς σ) : Stage → List Call
  | .handle e => (e.call? d.preferences.interval).toList
  | .answered c outcome => if c.renews outcome then [.listRecords] else []
  | _ => []

section
variable [LogService ς]

theorem reload_speaks (t : Turn) (news : Option Notification) (d : Desk ς σ) :
    Speaks t d (reload t news d).world [.call .listRecords] :=
  Desk.note_speaks { d with .. } t (.asked .listRecords)

end

variable [PreferenceStore σ]

def Stage.speech (d : Desk ς σ) (stage : Stage) : List Saying :=
  (stage.asks d).map .call ++ (stage.news d).map .toast

/-- An event that is applied at once says what the user is to know of it. -/
theorem applyLocal_speaks (t : Turn) (d : Desk ς σ) (e : Event) (he : e.isRequest = false)
    (ha : ∀ on, e ≠ .setAutoRefresh on) :
    Speaks t d (notify t (applyLocal t d e).2 (applyLocal t d e).1).1
      ((Stage.news d (.handle e)).map .toast) := by
  have silent : Speaks t d (applyLocal t d e).1 [] := by
    cases e with
    | closeJobs => exact d.display_speaks t rfl
    | setInterval seconds => exact d.setInterval_speaks t seconds
    | expandRow pos => exact d.expandRow_speaks t pos
    | collapseRow pos => exact Desk.display_speaks { d with expansion := d.expansion.collapse pos } t rfl
    | dismissToast id => exact d.dismiss_speaks t id
    | _ => exact .nothing rfl
  rw [← (applyLocal_toasts t d e he ha).2]
  exact silent.trans (notify_speaks t _ _)

theorem takeEvent_speaks (t : Turn) (d : Desk ς σ) (events : List Event) :
    Speaks t d (takeEvent t d events).world ((Stage.news d (.script events)).map .toast) := by
  cases events with
  | nil => exact .nothing rfl
  | cons e rest =>
    cases he : e.isRequest with
    | true => cases e <;> first | exact .nothing rfl | cases he
    | false =>
      cases e with
      | quit | setAutoRefresh => exact .nothing rfl
      | closeJobs | setInterval | expandRow | collapseRow | dismissToast =>
        rw [takeEvent_inline t d rest he (by simp) (by simp)]
        exact applyLocal_speaks t d _ he (by simp)
      | _ => cases he

variable [LogService ς]

theorem onAnswer_speaks (t : Turn) (d : Desk ς σ) (c : Call) (outcome : c.Outcome) :
    Speaks t d (onAnswer t d c outcome).world (Stage.speech d (.answered c outcome)) := by
  have told (n : Notification) : Speaks t d (finishWith t [n] d).world [.toast n] := notify_speaks t [n] d
  have closed : Speaks t d (d.display t .closeForm) [] := d.display_speaks t rfl
  cases c with
  | stopAll =>
    cases outcome with
    | error e => exact told e.report.notification
    | ok stopped => exact notify_speaks t (Notification.ofStopped stopped) d
  | startJob seconds =>
    cases outcome with
    | error e => exact told e.report.notification
    | ok job => exact reload_speaks t _ d
  | triggerError =>
    cases outcome with
    | error e => exact told e.report.notification
    | ok u => exact reload_speaks t none d
  | createEntry form =>
    cases outcome with
    | error e => exact closed.trans (notify_speaks t [e.report.notification] _)
    | ok u => exact closed.trans (reload_speaks t none _)
  | listRecords => cases outcome <;> exact .nothing rfl
  | listRaw => cases outcome <;> exact d.display_speaks t rfl
  | listJobs =>
    cases outcome with
    | error e => exact told e.report.notification
    | ok jobs => exact d.display_speaks t rfl
  | stopJob id =>
    cases outcome with
    | error e => exact .nothing rfl
    | ok u => exact d.display_speaks t rfl

theorem handle_speaks (t : Turn) (d : Desk ς σ) (e : Event) :
    Speaks t d (handle t d e).world (Stage.speech d (.handle e)) := by
  cases he : e.isRequest with
  | true =>
    cases e with
    | refresh => exact reload_speaks t none d
    | stopAll | startJob | triggerError | openJobs | submitEntry | showRawJson | stopJob =>
      exact Desk.note_speaks { d with .. } t (.asked _)
    | _ => cases he
  | false =>
    cases e with
    | setAutoRefresh on => exact .nothing rfl
    | closeJobs | setInterval | expandRow | collapseRow | dismissToast | quit =>
      rw [handle_inline t d he (by simp)]
      exact applyLocal_speaks t d _ he (by simp)
    | _ => cases he

theorem act_speaks (t : Turn) (d : Desk ς σ) (stage : Stage) :
    Speaks t d (act t d stage).world (stage.speech d) := by
  cases stage with
  | handle e => exact handle_speaks t d e
  | answered c outcome => exact onAnswer_speaks t d c outcome
  | reloaded r news => exact (d.finishReload_speaks t r).trans (notify_speaks t news.toList _)
  | switched on rest =>
    have kept : Speaks t d (d.setAutoRefresh on).1 [] := .nothing rfl
    cases rest <;> exact kept.trans (notify_speaks t (d.setAutoRefresh on).2.toList _)
  | script events => exact takeEvent_speaks t d events
  | _ => exact .nothing rfl

/-- What a task says if it has its turn now. A loop does so when it begins a tick. -/
def saying (s : State ς σ) (i : Nat) : List Saying :=
  match s.deed? i with
  | some (.act stage) => stage.speech s.world
  | some (.beginTick _) => [.call .listRecords]
  | _ => []

theorem turn_speaks (s : State ς σ) (i : Nat) :
    Speaks ⟨s.now, i⟩ s.world (step s (.turn i)).world (saying s i) := by
  have hw : (step s (.turn i)).world = _ := program.resume_world s i
  rw [hw, saying]
  cases s.deed? i with
  | none => exact .nothing rfl
  | some deed =>
    cases deed with
    | act stage => exact act_speaks ⟨s.now, i⟩ s.world stage
    | beginTick beat => exact reload_speaks ⟨s.now, i⟩ none s.world
    | endTick r => exact s.world.finishReload_speaks ⟨s.now, i⟩ r

/-- Until its turn a task says nothing. -/
theorem step_said {s : State ς σ} {m : Move} {i : Nat} (hi : m ≠ .turn i) :
    (step s m).world.saidBy i = s.world.saidBy i := by
  cases m with
  | turn k => exact (turn_speaks s k).other fun h => hi (congrArg Move.turn h.symm)
  | _ => rfl

end Console

end LogDesk
