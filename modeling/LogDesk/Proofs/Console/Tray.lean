import LogDesk.Proofs.Console.Table

/-! Toasts on a desk. A turn takes down the toast that it dismisses and puts up its news, each with a
task that takes it down in time, and does nothing else to the tray. -/

namespace LogDesk

structure Raised where
  time : Nat
  toast : Toast
  deriving DecidableEq

namespace Raised

def id (r : Raised) : Uuid := r.toast.id

def due (r : Raised) : Nat := r.time + r.toast.notification.timeout

end Raised

def Tray.raises (t : Tray) (now : Nat) : List Notification → List Raised
  | [] => []
  | n :: ns => ⟨now, t.next n⟩ :: (t.push n).raises now ns

/-- Toasts are numbered by how many were given out before them. -/
theorem Tray.raises_congr {t t' : Tray} (h : t.given = t'.given) (now : Nat) (ns : List Notification) :
    t.raises now ns = t'.raises now ns := by
  induction ns generalizing t t' with
  | nil => rfl
  | cons n ns ih =>
    have hp : (t.push n).given = (t'.push n).given := congrArg (· + 1) h
    simp only [raises, next, h, ih hp]

/-- A tray with all that the view was told of it, in order. -/
structure Toasting where
  tray : Tray
  shown : List Raised
  removed : List Uuid

namespace Toasting

def raiseAll (x : Toasting) (now : Nat) (ns : List Notification) : Toasting where
  tray := ⟨x.tray.toasts ++ (x.tray.raises now ns).map (·.toast), x.tray.given + ns.length⟩
  shown := x.shown ++ x.tray.raises now ns
  removed := x.removed

/-- The view is told of a toast that is taken down, and not of one that is not up. -/
def dismiss (x : Toasting) (id : Uuid) : Toasting :=
  match x.tray.find? id with
  | some _ => { x with tray := x.tray.remove id, removed := x.removed ++ [id] }
  | none => x

theorem dismiss_given (x : Toasting) (id : Uuid) : (x.dismiss id).tray.given = x.tray.given := by
  unfold dismiss
  split <;> rfl

theorem raiseAll_nil (x : Toasting) (now : Nat) : x.raiseAll now [] = x := by
  simp [raiseAll, Tray.raises]

theorem raiseAll_cons (x : Toasting) (now : Nat) (n : Notification) (ns : List Notification) :
    x.raiseAll now (n :: ns) = (x.raiseAll now [n]).raiseAll now ns := by
  simp [raiseAll, Tray.raises, Tray.push, Nat.add_assoc, Nat.add_comm 1]

end Toasting

def Act.onToasts : Act → Bool
  | .shown (.showToast _) | .shown (.removeToast _) => true
  | _ => false

def Act.raised? (now : Nat) : Act → Option Raised
  | .shown (.showToast t) => some ⟨now, t⟩
  | _ => none

def Act.removed? : Act → Option Uuid
  | .shown (.removeToast id) => some id
  | _ => none

theorem Act.raised_none {a : Act} (h : a.onToasts = false) (now : Nat) :
    a.raised? now = none ∧ a.removed? = none := by
  cases a with
  | asked c => exact ⟨rfl, rfl⟩
  | shown v => cases v <;> first | exact ⟨rfl, rfl⟩ | cases h

namespace Desk

variable {ς σ : Type}

def toasting (d : Desk ς σ) : Toasting where
  tray := d.tray
  shown := d.log.reverse.filterMap fun e => e.act.raised? e.turn.now
  removed := d.log.reverse.filterMap fun e => e.act.removed?

theorem note_toasting (d : Desk ς σ) (t : Turn) {a : Act} (h : a.onToasts = false) :
    (d.note t a).toasting = d.toasting := by
  obtain ⟨hr, hm⟩ := Act.raised_none h t.now
  simp [toasting, note, hr, hm]

theorem display_toasting (d : Desk ς σ) (t : Turn) {v : ViewCall}
    (h : (Act.shown v).onToasts = false) : (d.display t v).toasting = d.toasting :=
  d.note_toasting t h

theorem displayAll_toasting (d : Desk ς σ) (t : Turn) {vs : List ViewCall}
    (h : ∀ v ∈ vs, (Act.shown v).onToasts = false) : (d.displayAll t vs).toasting = d.toasting := by
  induction vs generalizing d with
  | nil => rfl
  | cons v vs ih =>
    exact (ih (d.display t v) fun v' hv => h v' (List.mem_cons_of_mem v hv)).trans
      (d.display_toasting t (h v List.mem_cons_self))

theorem opening_toasts {records : List Record} {pos : Nat} {v : ViewCall}
    (h : opening records pos = some v) : (Act.shown v).onToasts = false := by
  obtain ⟨r, -, rfl⟩ := Option.map_eq_some_iff.mp h
  rfl

theorem redraw_toasts {records : List Record} {positions : List Nat} {scroll : UInt32} {v : ViewCall}
    (h : v ∈ redraw records positions scroll) : (Act.shown v).onToasts = false := by
  simp only [redraw, List.mem_append, List.mem_singleton, List.mem_filterMap] at h
  rcases h with (rfl | ⟨pos, -, h⟩) | rfl
  · rfl
  · exact opening_toasts h
  · rfl

theorem finishReload_toasting (d : Desk ς σ) (t : Turn) (r : Reload) :
    (d.finishReload t r).toasting = d.toasting := by
  rw [finishReload_eq]
  cases d.table.brought? r with
  | none => rfl
  | some records => exact displayAll_toasting _ t fun _ => redraw_toasts

theorem expandRow_toasting (d : Desk ς σ) (t : Turn) (pos : Nat) :
    (d.expandRow t pos).toasting = d.toasting :=
  displayAll_toasting _ t fun _ hv => opening_toasts (Option.mem_toList.mp hv)

theorem raise_toasting (d : Desk ς σ) (t : Turn) (n : Notification) :
    (d.raise t n).1.toasting = d.toasting.raiseAll t.now [n] := by
  simp [raise, toasting, display, note, Toasting.raiseAll, Tray.raises, Tray.push, Act.raised?,
    Act.removed?]

theorem dismiss_toasting (d : Desk ς σ) (t : Turn) (id : Uuid) :
    (d.dismiss t id).toasting = d.toasting.dismiss id := by
  cases hf : d.tray.find? id with
  | none => simp [dismiss, Toasting.dismiss, toasting, hf]
  | some toast =>
    simp [dismiss, Toasting.dismiss, toasting, hf, display, note, Act.raised?,
      Act.removed?]

variable [PreferenceStore σ]

theorem setInterval_toasting (d : Desk ς σ) (t : Turn) (seconds : UInt32) :
    (d.setInterval t seconds).1.toasting = d.toasting := by
  unfold setInterval
  dsimp only
  split
  · rfl
  · exact display_toasting _ t rfl

end Desk

namespace Console

variable {ς σ : Type}

def timerOf (r : Raised) : Tasks.Spawn Stage := ⟨false, .expire r.id r.toast.notification.timeout⟩

theorem notify_toasting (t : Turn) (ns : List Notification) (d : Desk ς σ) :
    (notify t ns d).1.toasting = d.toasting.raiseAll t.now ns := by
  induction ns generalizing d with
  | nil => exact (d.toasting.raiseAll_nil t.now).symm
  | cons n ns ih =>
    rw [Toasting.raiseAll_cons, ← d.raise_toasting t n]
    exact ih (d.raise t n).1

theorem notify_spawned (t : Turn) (ns : List Notification) (d : Desk ς σ) :
    (notify t ns d).2 = (d.tray.raises t.now ns).map timerOf := by
  induction ns generalizing d with
  | nil => rfl
  | cons n ns ih => exact congrArg (timerOf ⟨t.now, d.tray.next n⟩ :: ·) (ih (d.raise t n).1)

def Stage.dismisses : Stage → Option Uuid
  | .handle (.dismissToast id) | .script (.dismissToast id :: _) => some id
  | _ => none

def Stage.hands : Stage → List (Tasks.Spawn Stage)
  | .script (e :: _) => if e.isRequest then [⟨true, .handle e⟩] else []
  | _ => []

/-- What a turn does to the toasts. -/
structure Toasts (t : Turn) (d : Desk ς σ) (e : Effect ς σ) (gone : Option Uuid)
    (news : List Notification) (hands : List (Tasks.Spawn Stage)) : Prop where
  world : e.world.toasting = (gone.elim d.toasting d.toasting.dismiss).raiseAll t.now news
  spawned : e.spawned = (d.tray.raises t.now news).map timerOf ++ hands

theorem Toasts.silent {t : Turn} {d : Desk ς σ} {e : Effect ς σ} (h : e.world.toasting = d.toasting) :
    Toasts t d e none [] e.spawned :=
  ⟨h.trans (d.toasting.raiseAll_nil t.now).symm, rfl⟩

/-- To take a toast down takes no identifier back. -/
theorem given_eq {d d' : Desk ς σ} {gone : Option Uuid}
    (h : d'.toasting = gone.elim d.toasting d.toasting.dismiss) : d'.tray.given = d.tray.given := by
  change d'.toasting.tray.given = d.toasting.tray.given
  rw [h]
  cases gone with
  | none => rfl
  | some id => exact d.toasting.dismiss_given id

theorem notified (t : Turn) (ns : List Notification) {d d' : Desk ς σ} {gone : Option Uuid}
    (h : d'.toasting = gone.elim d.toasting d.toasting.dismiss) :
    (notify t ns d').1.toasting = (gone.elim d.toasting d.toasting.dismiss).raiseAll t.now ns ∧
      (notify t ns d').2 = (d.tray.raises t.now ns).map timerOf := by
  refine ⟨by rw [notify_toasting, h], ?_⟩
  rw [notify_spawned, Tray.raises_congr (given_eq h)]

theorem finishWith_toasts (t : Turn) (ns : List Notification) (gone : Option Uuid) {d d' : Desk ς σ}
    (h : d'.toasting = gone.elim d.toasting d.toasting.dismiss) :
    Toasts t d (finishWith t ns d') gone ns [] := by
  obtain ⟨hw, hs⟩ := notified t ns h
  exact ⟨hw, hs.trans (List.append_nil _).symm⟩

theorem goOnWith_toasts (t : Turn) (ns : List Notification) (next : Stage) (gone : Option Uuid)
    {d d' : Desk ς σ} (h : d'.toasting = gone.elim d.toasting d.toasting.dismiss) :
    Toasts t d (goOnWith t ns next d') gone ns [] := by
  obtain ⟨hw, hs⟩ := notified t ns h
  exact ⟨hw, hs.trans (List.append_nil _).symm⟩

variable [PreferenceStore σ]

def Stage.news (d : Desk ς σ) : Stage → List Notification
  | .answered .stopAll (.ok stopped) => Notification.ofStopped stopped
  | .answered .stopAll (.error e) | .answered (.startJob _) (.error e)
  | .answered .triggerError (.error e) | .answered .listJobs (.error e)
  | .answered (.createEntry _) (.error e) => [e.report.notification]
  | .reloaded _ news => news.toList
  | .switched on _ =>
    ((d.preferences.setAutoRefresh d.store on).failure.map fun e =>
      { title := "Preferences", body := e.message }).toList
  | .handle (.setInterval seconds) | .script (.setInterval seconds :: _) =>
    ((d.preferences.setInterval d.store seconds).failure.map fun e =>
      { title := "Invalid Interval", body := e.message }).toList
  | _ => []

theorem setInterval_news (d : Desk ς σ) (t : Turn) (seconds : UInt32) :
    (d.setInterval t seconds).2.toList = Stage.news d (.handle (.setInterval seconds)) := by
  unfold Desk.setInterval Stage.news
  dsimp only
  split
  next h => simp [h]
  next e h => simp [h]

/-- An event that is applied at once, be it by a task of its own or as part of a script. -/
theorem applyLocal_toasts (t : Turn) (d : Desk ς σ) (e : Event) (he : e.isRequest = false)
    (ha : ∀ on, e ≠ .setAutoRefresh on) :
    (applyLocal t d e).1.toasting =
        (Stage.dismisses (.handle e)).elim d.toasting d.toasting.dismiss ∧
      (applyLocal t d e).2 = Stage.news d (.handle e) := by
  cases e with
  | closeJobs => exact ⟨d.display_toasting t rfl, rfl⟩
  | setInterval seconds => exact ⟨d.setInterval_toasting t seconds, setInterval_news d t seconds⟩
  | expandRow pos => exact ⟨d.expandRow_toasting t pos, rfl⟩
  | collapseRow pos => exact ⟨Desk.display_toasting _ t rfl, rfl⟩
  | dismissToast id => exact ⟨d.dismiss_toasting t id, rfl⟩
  | quit => exact ⟨rfl, rfl⟩
  | setAutoRefresh on => exact absurd rfl (ha on)
  | _ => cases he

theorem takeEvent_toasts (t : Turn) (d : Desk ς σ) (events : List Event) :
    Toasts t d (takeEvent t d events) (Stage.dismisses (.script events)) (Stage.news d (.script events))
      (Stage.hands (.script events)) := by
  cases events with
  | nil => exact .silent rfl
  | cons e rest =>
    cases he : e.isRequest with
    | true => cases e <;> first | exact .silent rfl | cases he
    | false =>
      cases e with
      | quit | setAutoRefresh => exact .silent rfl
      | closeJobs | setInterval | expandRow | collapseRow | dismissToast =>
        rw [takeEvent_inline t d rest he (by simp) (by simp)]
        obtain ⟨hw, hn⟩ := applyLocal_toasts t d _ he (by simp)
        rw [hn]
        exact goOnWith_toasts t _ _ _ hw
      | _ => cases he

variable [LogService ς]

theorem onAnswer_toasts (t : Turn) (d : Desk ς σ) (c : Call) (outcome : c.Outcome) :
    Toasts t d (onAnswer t d c outcome) none (Stage.news d (.answered c outcome)) [] := by
  have hclosed : (d.display t .closeForm).toasting = d.toasting := d.display_toasting t rfl
  cases c with
  | stopAll =>
    cases outcome with
    | error e => exact finishWith_toasts t [e.report.notification] none rfl
    | ok stopped => exact finishWith_toasts t (Notification.ofStopped stopped) none rfl
  | startJob seconds =>
    cases outcome with
    | error e => exact finishWith_toasts t [e.report.notification] none rfl
    | ok job => exact .silent (Desk.note_toasting _ t rfl)
  | triggerError =>
    cases outcome with
    | error e => exact finishWith_toasts t [e.report.notification] none rfl
    | ok u => exact .silent (Desk.note_toasting _ t rfl)
  | createEntry form =>
    cases outcome with
    | error e => exact finishWith_toasts t [e.report.notification] none hclosed
    | ok u => exact .silent ((Desk.note_toasting _ t rfl).trans hclosed)
  | listRecords => cases outcome <;> exact .silent rfl
  | listRaw => cases outcome <;> exact .silent (d.display_toasting t rfl)
  | listJobs =>
    cases outcome with
    | error e => exact finishWith_toasts t [e.report.notification] none rfl
    | ok jobs => exact .silent (d.display_toasting t rfl)
  | stopJob id =>
    cases outcome with
    | error e => exact .silent rfl
    | ok u => exact .silent (d.display_toasting t rfl)

theorem handle_inline (t : Turn) (d : Desk ς σ) {e : Event} (he : e.isRequest = false)
    (ha : ∀ on, e ≠ .setAutoRefresh on) :
    handle t d e = finishWith t (applyLocal t d e).2 (applyLocal t d e).1 := by
  cases e with
  | setAutoRefresh on => exact absurd rfl (ha on)
  | closeJobs | setInterval | expandRow | collapseRow | dismissToast | quit => rfl
  | _ => cases he

theorem handle_toasts (t : Turn) (d : Desk ς σ) (e : Event) :
    Toasts t d (handle t d e) (Stage.dismisses (.handle e)) (Stage.news d (.handle e)) [] := by
  cases he : e.isRequest with
  | true => cases e <;> first | exact .silent (Desk.note_toasting _ t rfl) | cases he
  | false =>
    cases e with
    | setAutoRefresh on => exact .silent rfl
    | closeJobs | setInterval | expandRow | collapseRow | dismissToast | quit =>
      obtain ⟨hw, hn⟩ := applyLocal_toasts t d _ he (by simp)
      rw [handle_inline t d he (by simp), hn]
      exact finishWith_toasts t _ _ hw
    | _ => cases he

theorem act_toasts (t : Turn) (d : Desk ς σ) (stage : Stage) :
    Toasts t d (act t d stage) stage.dismisses (stage.news d) stage.hands := by
  cases stage with
  | handle e => exact handle_toasts t d e
  | answered c outcome => exact onAnswer_toasts t d c outcome
  | reloaded r news => exact finishWith_toasts t _ none (d.finishReload_toasting t r)
  | switched on rest =>
    cases rest with
    | none => exact finishWith_toasts t _ none rfl
    | some rest => exact goOnWith_toasts t _ _ none rfl
  | script events => exact takeEvent_toasts t d events
  | _ => exact .silent rfl

def dismisses (s : State ς σ) : Move → Option Uuid
  | .turn i =>
    match s.deed? i with
    | some (.act stage) => stage.dismisses
    | _ => none
  | _ => none

def news (s : State ς σ) : Move → List Notification
  | .turn i =>
    match s.deed? i with
    | some (.act stage) => stage.news s.world
    | _ => []
  | _ => []

end Console

end LogDesk
