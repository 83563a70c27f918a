import LogDesk.Proofs.Console.Table

/-! The preferences that a console goes by, and where they are kept. A turn applies at most one event
to them, and nothing else changes them. -/

namespace LogDesk

def Event.amend (p : Preferences) : Event → Preferences
  | .setInterval seconds => { p with interval := seconds }
  | .setAutoRefresh on => { p with autoRefresh := on }
  | _ => p

/-- The preferences of a desk, with the store that they are kept in. -/
structure Settings (σ : Type) where
  preferences : Preferences
  store : σ

namespace Settings

variable {σ : Type} [PreferenceStore σ]

def ofChange (c : Preferences.Change σ) : Settings σ := ⟨c.preferences, c.store⟩

def take (c : Settings σ) : Event → Settings σ
  | .setInterval seconds => ofChange (c.preferences.setInterval c.store seconds)
  | .setAutoRefresh on => ofChange (c.preferences.setAutoRefresh c.store on)
  | _ => c

def takeAll (c : Settings σ) (events : List Event) : Settings σ := events.foldl take c

def sets (c : Settings σ) : Event → Option UInt32
  | .setInterval seconds =>
    if (c.preferences.setInterval c.store seconds).failure.isNone then some seconds else none
  | _ => none

def accepted (c : Settings σ) : List Event → List UInt32
  | [] => []
  | e :: rest => (c.sets e).toList ++ (c.take e).accepted rest

/-- The interval in force after some events: the last that was accepted, or else the one before
them. -/
def intervalAfter (c : Settings σ) (events : List Event) : UInt32 :=
  (c.accepted events).getLast?.getD c.preferences.interval

theorem takeAll_append (c : Settings σ) (es fs : List Event) :
    c.takeAll (es ++ fs) = (c.takeAll es).takeAll fs :=
  List.foldl_append

theorem setAutoRefresh_interval (p : Preferences) (s : σ) (on : Bool) :
    (p.setAutoRefresh s on).preferences.interval = p.interval := by
  unfold Preferences.setAutoRefresh
  split <;> rfl

/-- A refused interval leaves the one there was. -/
theorem setInterval_interval (p : Preferences) (s : σ) (seconds : UInt32) :
    (p.setInterval s seconds).preferences.interval =
      if (p.setInterval s seconds).failure.isNone then seconds else p.interval := by
  unfold Preferences.setInterval
  split
  · rfl
  · split <;> rfl

theorem take_interval (c : Settings σ) (e : Event) :
    (c.take e).preferences.interval = (c.sets e).getD c.preferences.interval := by
  cases e with
  | setInterval seconds =>
    have h := setInterval_interval c.preferences c.store seconds
    change (c.preferences.setInterval c.store seconds).preferences.interval = _
    rw [h, sets]
    split <;> rfl
  | setAutoRefresh on => exact setAutoRefresh_interval c.preferences c.store on
  | _ => rfl

theorem takeAll_interval (c : Settings σ) (events : List Event) :
    (c.takeAll events).preferences.interval = c.intervalAfter events := by
  induction events generalizing c with
  | nil => rfl
  | cons e rest ih =>
    have h : c.takeAll (e :: rest) = (c.take e).takeAll rest := rfl
    rw [h, ih, intervalAfter, intervalAfter, accepted, List.getLast?_append, take_interval]
    cases (((c.take e).accepted rest).getLast?) with
    | some n => rfl
    | none => cases c.sets e <;> rfl

/-- Later events change the interval by what is accepted of them. -/
theorem intervalAfter_append (c : Settings σ) (es fs : List Event) : c.intervalAfter (es ++ fs) =
    ((c.takeAll es).accepted fs).getLast?.getD (c.intervalAfter es) := by
  rw [← takeAll_interval, takeAll_append, takeAll_interval, intervalAfter, takeAll_interval]

/-- A job that is asked for changes no interval, so only what is accepted after it can. -/
theorem intervalAfter_startJob (c : Settings σ) (es fs : List Event) :
    c.intervalAfter (es ++ .startJob :: fs) = c.intervalAfter es ↔
      ∀ n ∈ ((c.takeAll es).accepted fs).getLast?, n = c.intervalAfter es := by
  have h : c.intervalAfter (es ++ .startJob :: fs) =
      ((c.takeAll es).accepted fs).getLast?.getD (c.intervalAfter es) :=
    c.intervalAfter_append es (.startJob :: fs)
  rw [h]
  cases ((c.takeAll es).accepted fs).getLast? with
  | none => simp
  | some n => simp

/-- Whether the change that an event asks for is kept: it is refused where the interval is zero or the
write fails. -/
def keeps (c : Settings σ) : Event → Bool
  | .setInterval seconds => seconds ≠ 0 &&
    (PreferenceStore.set c.store Preferences.secondsName (Preferences.secondsText seconds)).2.isOk
  | .setAutoRefresh on =>
    (PreferenceStore.set c.store Preferences.autoRefreshName (Preferences.flagText on)).2.isOk
  | _ => false

theorem take_preferences (c : Settings σ) (e : Event) :
    (c.take e).preferences = if c.keeps e then e.amend c.preferences else c.preferences := by
  cases e with
  | setInterval seconds =>
    simp only [take, ofChange, Preferences.setInterval, Preferences.checkInterval, keeps]
    by_cases hz : seconds = 0
    · simp [hz]
    · simp only [hz, if_false]
      split
      next h => simp [hz, h, Except.isOk, Except.toBool, Event.amend]
      next h => simp [h, Except.isOk, Except.toBool]
  | setAutoRefresh on =>
    simp only [take, ofChange, Preferences.setAutoRefresh, keeps]
    split
    next h => simp [h, Except.isOk, Except.toBool, Event.amend]
    next h => simp [h, Except.isOk, Except.toBool]
  | _ => simp [take, keeps]

end Settings

def Desk.settings {ς σ : Type} (d : Desk ς σ) : Settings σ := ⟨d.preferences, d.store⟩

namespace Console

variable {ς σ : Type}

/-- The event that a turn at a stage applies to the settings. A switch of the timer is applied when the
timer has been switched. -/
def Stage.applies : Stage → Option Event
  | .handle (.setInterval seconds) | .script (.setInterval seconds :: _) =>
    some (.setInterval seconds)
  | .switched on _ => some (.setAutoRefresh on)
  | _ => none

theorem displayAll_settings (d : Desk ς σ) (t : Turn) (vs : List ViewCall) :
    (d.displayAll t vs).settings = d.settings := by
  induction vs generalizing d with
  | nil => rfl
  | cons v vs ih => exact ih (d.display t v)

theorem dismiss_settings (d : Desk ς σ) (t : Turn) (id : Uuid) :
    (d.dismiss t id).settings = d.settings := by
  unfold Desk.dismiss
  split <;> rfl

theorem finishReload_settings (d : Desk ς σ) (t : Turn) (r : Reload) :
    (d.finishReload t r).settings = d.settings := by
  rw [Desk.finishReload_eq]
  cases d.table.brought? r with
  | none => rfl
  | some records => exact displayAll_settings _ t _

theorem notify_settings (t : Turn) (ns : List Notification) (d : Desk ς σ) :
    (notify t ns d).1.settings = d.settings := by
  induction ns generalizing d with
  | nil => rfl
  | cons n ns ih => exact ih (d.raise t n).1

theorem finishWith_settings (t : Turn) (ns : List Notification) (d : Desk ς σ) :
    (finishWith t ns d).world.settings = d.settings :=
  notify_settings t ns d

theorem goOnWith_settings (t : Turn) (ns : List Notification) (next : Stage) (d : Desk ς σ) :
    (goOnWith t ns next d).world.settings = d.settings :=
  notify_settings t ns d

theorem onAnswer_settings [LogService ς] (t : Turn) (d : Desk ς σ) (c : Call) (outcome : c.Outcome) :
    (onAnswer t d c outcome).world.settings = d.settings := by
  cases c <;> cases outcome <;> first | rfl | exact finishWith_settings t _ _

variable [PreferenceStore σ]

theorem setInterval_settings (d : Desk ς σ) (t : Turn) (seconds : UInt32) :
    (d.setInterval t seconds).1.settings = d.settings.take (.setInterval seconds) := by
  unfold Desk.setInterval
  dsimp only
  split <;> rfl

theorem applyLocal_settings (t : Turn) (d : Desk ς σ) (e : Event) :
    (applyLocal t d e).1.settings = (Stage.handle e).applies.elim d.settings d.settings.take := by
  cases e with
  | setInterval seconds => exact setInterval_settings d t seconds
  | expandRow pos => exact displayAll_settings _ t _
  | dismissToast id => exact dismiss_settings d t id
  | _ => rfl

theorem takeEvent_settings (t : Turn) (d : Desk ς σ) (events : List Event) :
    (takeEvent t d events).world.settings =
      ((Stage.script events).applies).elim d.settings d.settings.take := by
  cases events with
  | nil => rfl
  | cons e rest =>
    have ha := applyLocal_settings t d e
    cases e with
    | closeJobs | setInterval | expandRow | collapseRow | dismissToast =>
      rw [takeEvent_inline t d rest rfl (by simp) (by simp)]
      exact (goOnWith_settings t _ _ _).trans ha
    | _ => rfl

variable [LogService ς]

theorem act_settings (t : Turn) (d : Desk ς σ) (stage : Stage) :
    (act t d stage).world.settings = stage.applies.elim d.settings d.settings.take := by
  cases stage with
  | handle e =>
    have ha := applyLocal_settings t d e
    cases e with
    | closeJobs | setInterval | expandRow | collapseRow | dismissToast | quit =>
      exact (finishWith_settings t _ _).trans ha
    | _ => rfl
  | answered c outcome => exact onAnswer_settings t d c outcome
  | reloaded r news => exact (finishWith_settings t _ _).trans (finishReload_settings d t r)
  | switched on rest =>
    cases rest with
    | none => exact finishWith_settings t _ _
    | some rest => exact goOnWith_settings t _ _ _
  | script events => exact takeEvent_settings t d events
  | _ => rfl

def applies (s : State ς σ) : Move → Option Event
  | .turn i =>
    match s.deed? i with
    | some (.act stage) => stage.applies
    | _ => none
  | _ => none

theorem step_settings (s : State ς σ) (m : Move) :
    (step s m).world.settings = (applies s m).elim s.world.settings s.world.settings.take := by
  cases m with
  | turn i =>
    have hw := program.resume_world s i
    unfold step Tasks.Program.move applies
    dsimp only
    rw [hw]
    cases s.deed? i with
    | none => rfl
    | some deed =>
      cases deed with
      | act stage => exact act_settings _ _ stage
      | beginTick beat => rfl
      | endTick r => exact finishReload_settings s.world _ r
  | _ => rfl

end Console

end LogDesk
