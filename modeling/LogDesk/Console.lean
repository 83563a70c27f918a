import LogDesk.Desk
import LogDesk.Tasks.Runner

/-! The console: how each event is handled, step by step between the points where it has to wait. -/

namespace LogDesk.Console

/-- From one refresh by the timer to the next, in milliseconds. -/
def refreshPeriod : Nat := 5000

inductive Stage where
  | handle (e : Event)
  /-- The event's own call has ended. -/
  | answered (c : Call) (outcome : c.Outcome)
  /-- The refresh that follows has ended, and there may be news. -/
  | reloaded (r : Reload) (news : Option Notification)
  /-- The timer is switched, and its state is to be kept. Events may follow. -/
  | switched (on : Bool) (rest : Option (List Event))
  /-- A toast is up and has its time. -/
  | expire (id : Uuid) (timeout : Nat)
  /-- These events are to be taken one after another. -/
  | script (events : List Event)
  | startTimer
  | stopTimer
  | inspectTimer
  | done (answer : Bool)

abbrev Effect (ς σ : Type) := Tasks.Effect (Desk ς σ) Unit Stage

variable {ς σ : Type}

/-- Puts toasts up, each with a task that takes it down in time. -/
def notify (t : Turn) : List Notification → Desk ς σ → Desk ς σ × List (Tasks.Spawn Stage)
  | [], d => (d, [])
  | n :: ns, d =>
    let (d, toast) := d.raise t n
    let (d, spawned) := notify t ns d
    (d, ⟨false, .expire toast.id n.timeout⟩ :: spawned)

def finish (d : Desk ς σ) : Effect ς σ := ⟨d, .finish true, []⟩

def finishWith (t : Turn) (ns : List Notification) (d : Desk ς σ) : Effect ς σ :=
  let (d, spawned) := notify t ns d
  ⟨d, .finish true, spawned⟩

def goOnWith (t : Turn) (ns : List Notification) (next : Stage) (d : Desk ς σ) : Effect ς σ :=
  let (d, spawned) := notify t ns d
  ⟨d, .sleep t.now next, spawned⟩

/-- The call that a request makes first. A refresh has no other than its own. -/
def callOf? (d : Desk ς σ) : Event → Option Call
  | .stopAll => some .stopAll
  | .startJob => some (.startJob d.preferences.interval)
  | .triggerError => some .triggerError
  | .openJobs => some .listJobs
  | .submitEntry form => some (.createEntry form)
  | .showRawJson => some .listRaw
  | .stopJob id => some (.stopJob id)
  | _ => none

/-- Switches the timer. What comes of it is kept in the preferences afterwards. -/
def switch (d : Desk ς σ) (on : Bool) (rest : Option (List Event)) : Effect ς σ :=
  let next := Stage.switched on rest
  ⟨d, if on then .start () next else .stop next next, []⟩

section
variable [LogService ς]

def reload (t : Turn) (news : Option Notification) (d : Desk ς σ) : Effect ς σ :=
  let (d, r, due) := d.beginReload t
  ⟨d, .sleep due (.reloaded r news), []⟩

def onAnswer (t : Turn) (d : Desk ς σ) : (c : Call) → c.Outcome → Effect ς σ
  | .stopAll, .ok stopped => finishWith t (Notification.ofStopped stopped) d
  | .startJob seconds, .ok job => reload t (some (.jobStarted job.id seconds.toNat)) d
  | .triggerError, .ok () => reload t none d
  | .createEntry _, .ok () => reload t none (d.display t .closeForm)
  | .createEntry _, .error e => finishWith t [e.report.notification] (d.display t .closeForm)
  | .listRaw, .ok v => finish (d.display t (.showRawJson (v.pretty "\t")))
  | .listRaw, .error e => finish (d.display t (.showRawJson e.report.summary))
  | .listJobs, .ok jobs => finish (d.display t (.renderJobs (jobs.map fun j => .ofId j.id)))
  | .stopJob id, .ok () => finish (d.display t (.removeJob id))
  | .stopJob _, .error _ => finish d
  | .listRecords, _ => finish d
  | .stopAll, .error e | .startJob _, .error e | .triggerError, .error e | .listJobs, .error e =>
    finishWith t [e.report.notification] d

variable [PreferenceStore σ]

/-- Applies an event that neither calls the server nor switches the timer. -/
def applyLocal (t : Turn) (d : Desk ς σ) : Event → Desk ς σ × List Notification
  | .closeJobs => (d.display t .clearJobs, [])
  | .setInterval seconds => let (d, n) := d.setInterval t seconds; (d, n.toList)
  | .expandRow pos => (d.expandRow t pos, [])
  | .collapseRow pos => (d.collapseRow t pos, [])
  | .dismissToast id => (d.dismiss t id, [])
  | _ => (d, [])

def handle (t : Turn) (d : Desk ς σ) (e : Event) : Effect ς σ :=
  match e, callOf? d e with
  | .refresh, _ => reload t none d
  | .setAutoRefresh on, _ => switch d on none
  | _, some c =>
    let (d, outcome, due) := d.ask t c
    ⟨d, .sleep due (.answered c outcome), []⟩
  | e, none => let (d, ns) := applyLocal t d e; finishWith t ns d

/-- Takes the next of some events. Requests are handed to tasks of their own, all others are applied
before the event after them. At the end the timer is stopped. -/
def takeEvent (t : Turn) (d : Desk ς σ) : List Event → Effect ς σ
  | [] | .quit :: _ => ⟨d, .stop (.done true) (.done true), []⟩
  | .setAutoRefresh on :: rest => switch d on (some rest)
  | e :: rest =>
    if e.isRequest then ⟨d, .sleep t.now (.script rest), [⟨true, .handle e⟩]⟩
    else let (d, ns) := applyLocal t d e; goOnWith t ns (.script rest) d

def act (t : Turn) (d : Desk ς σ) : Stage → Effect ς σ
  | .handle e => handle t d e
  | .answered c outcome => onAnswer t d c outcome
  | .reloaded r news => finishWith t news.toList (d.finishReload t r)
  | .switched on none => let (d, n) := d.setAutoRefresh on; finishWith t n.toList d
  | .switched on (some rest) =>
    let (d, n) := d.setAutoRefresh on
    goOnWith t n.toList (.script rest) d
  | .expire id timeout => ⟨d, .sleep (t.now + timeout) (.handle (.dismissToast id)), []⟩
  | .script events => takeEvent t d events
  | .startTimer => ⟨d, .start () (.done true), []⟩
  | .stopTimer => ⟨d, .stop (.done true) (.done true), []⟩
  | .inspectTimer => ⟨d, .inspect (.done true) (.done false), []⟩
  | .done answer => ⟨d, .finish answer, []⟩

def program : Tasks.Program (Desk ς σ) Unit Reload Stage where
  period := refreshPeriod
  act now task stage d := act ⟨now, task⟩ d stage
  beginTick now task _ d := d.beginReload ⟨now, task⟩
  endTick now task r d := d.finishReload ⟨now, task⟩ r

abbrev Runner (ς σ : Type) := Tasks.Runner (Desk ς σ) Unit Reload Stage

/-- The desk of a console that starts: its preferences are read and shown. -/
def openDesk (service : ς) (store : σ) (scroll : UInt32) : Except PreferenceError (Desk ς σ) :=
  match Preferences.load store with
  | (_, .error e) => .error e
  | (store, .ok preferences) =>
    let d : Desk ς σ := { service, store, preferences, scroll }
    .ok (d.display ⟨0, 0⟩ (.showPreferences preferences))

/-- Starts a console. Its timer runs if it was left on. -/
def start (service : ς) (store : σ) (scroll : UInt32) : Except PreferenceError (Runner ς σ) :=
  (openDesk service store scroll).map fun d =>
    let r : Runner ς σ := { state := { world := d } }
    if d.preferences.autoRefresh then r.perform program ⟨true, .startTimer⟩ else r

/-- Hands an event to a task of its own. -/
def dispatch (e : Event) (r : Runner ς σ) : Runner ς σ := r.dispatch ⟨true, .handle e⟩

/-- Hands an event to a task of its own and waits for that. -/
def await (e : Event) (r : Runner ς σ) : Runner ς σ := r.await program ⟨true, .handle e⟩

/-- Handles an event to its end, before all else. -/
def apply (e : Event) (r : Runner ς σ) : Runner ς σ := r.perform program ⟨true, .handle e⟩

/-- Takes events up to the first that quits, and stops the timer. -/
def run (events : List Event) (r : Runner ς σ) : Runner ς σ :=
  r.perform program ⟨true, .script events⟩

def shutdown (r : Runner ς σ) : Runner ς σ := r.perform program ⟨true, .stopTimer⟩

/-- Asks whether the timer runs, and waits for the answer while it is being started. -/
def inspect (r : Runner ς σ) : Runner ς σ × Bool :=
  let i := r.state.tasks.length
  let r := r.perform program ⟨true, .inspectTimer⟩
  (r, (r.answer i).getD false)

def settle (r : Runner ς σ) : Runner ς σ := r.settle program

def advance (ms : Nat) (r : Runner ς σ) : Runner ς σ := r.advance program ms

/-- Lets go of the console. What is under way still holds it. -/
def drop (r : Runner ς σ) : Runner ς σ := { r with state := { r.state with held := false } }

/-- Goes on until every event that was handed to a task is handled. -/
def drain (r : Runner ς σ) : Runner ς σ :=
  let step (r : Runner ς σ) (i : Nat) : Runner ς σ :=
    match r.state.tasks[i]? with
    | some (.handler true _) => r.finish program i
    | _ => r
  (List.range r.state.tasks.length).foldl step r

end

end LogDesk.Console
