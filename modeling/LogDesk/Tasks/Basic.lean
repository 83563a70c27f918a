/-! Tasks that take turns on one world, and the repeating timer that they start and stop. A task runs
until it has to wait; nothing else moves in between. -/

namespace LogDesk.Tasks

inductive Wish (β σ : Type) where
  | finish (answer : Bool)
  | sleep (till : Nat) (next : σ)
  /-- Start the timer on a beat. One that runs is stopped first. -/
  | start (beat : β) (next : σ)
  | stop (ifStopped ifIdle : σ)
  /-- Ask whether the timer runs. -/
  | inspect (ifRunning ifIdle : σ)

/-- A task to be begun. One that holds the world keeps it alive until it is finished. -/
structure Spawn (σ : Type) where
  holds : Bool
  stage : σ

structure Effect (ω β σ : Type) where
  world : ω
  wish : Wish β σ
  spawned : List (Spawn σ) := []

/-- What tasks and ticks do to a world `ω`. A task is at a stage `σ`, a timer runs on a beat `β`, and
`τ` is what a tick has under way. Each is told the time and the number of its task. -/
structure Program (ω β τ σ : Type) where
  /-- From one tick to the next. -/
  period : Nat
  act : (now task : Nat) → σ → ω → Effect ω β σ
  /-- Begins a tick and tells when it will end. -/
  beginTick : (now task : Nat) → β → ω → ω × τ × Nat
  endTick : (now task : Nat) → τ → ω → ω

/-- What is done with the timer by a task that has it to itself. -/
inductive Request (β σ : Type) where
  | start (beat : β) (next : σ)
  | stop (ifStopped ifIdle : σ)
  | inspect (ifRunning ifIdle : σ)

inductive Status (β σ : Type) where
  | ready (next : σ)
  | sleeping (till : Nat) (next : σ)
  /-- Waits for the timer to be free, or has just got it. -/
  | queued (r : Request β σ)
  /-- Waits for a loop to end, and not beyond a deadline. -/
  | halting (loop deadline : Nat) (r : Request β σ)
  | finished (answer : Bool)

inductive Phase (τ : Type) where
  | fresh
  | idle (due : Nat)
  /-- A tick that ends at `till`. The one after it is due at `next`. -/
  | ticking (next till : Nat) (work : τ)
  | over

inductive Task (β τ σ : Type) where
  | handler (holds : Bool) (status : Status β σ)
  /-- One run of the timer. -/
  | loop (beat : β) (cancelled : Bool) (phase : Phase τ)

structure State (ω β τ σ : Type) where
  now : Nat := 0
  world : ω
  /-- All tasks ever begun. A task is known by its place. -/
  tasks : List (Task β τ σ) := []
  /-- The loop of the timer, where it runs. -/
  slot : Option Nat := none
  /-- The tasks that want the timer to themselves, in order. The first one has it. -/
  lock : List Nat := []
  /-- Whether the world is held from outside. -/
  held : Bool := true

/-- A tick may be this late before the ones after it are moved. -/
def lateness : Nat := 5

/-- How long a loop may take to end before it is broken off. -/
def haltTimeout : Nat := 5000

variable {ω β τ σ : Type}

namespace Task

def isOver : Task β τ σ → Bool
  | handler _ (.finished _) => true
  | loop _ _ .over => true
  | _ => false

def holdsWorld : Task β τ σ → Bool
  | handler _ (.finished _) => false
  | handler holds _ => holds
  | loop _ _ (.ticking ..) => true
  | loop .. => false

def due? : Task β τ σ → Option Nat
  | handler _ (.sleeping till _) => some till
  | handler _ (.halting _ deadline _) => some deadline
  | loop _ _ (.idle due) => some due
  | loop _ _ (.ticking _ till _) => some till
  | _ => none

end Task

namespace State

def isOver (s : State ω β τ σ) (i : Nat) : Bool := (s.tasks[i]?.map Task.isOver).getD true

/-- Whether anyone still has to do with the world. -/
def alive (s : State ω β τ σ) : Bool := s.held || s.tasks.any Task.holdsWorld

def enabled (s : State ω β τ σ) (i : Nat) : Bool :=
  match s.tasks[i]? with
  | some (.handler _ (.ready _)) => true
  | some (.handler _ (.sleeping till _)) => till ≤ s.now
  | some (.handler _ (.queued _)) => s.lock.head? == some i
  | some (.handler _ (.halting l deadline _)) => s.isOver l || deadline ≤ s.now
  | some (.loop _ _ .fresh) => true
  | some (.loop _ cancelled (.idle due)) => cancelled || due ≤ s.now
  | some (.loop _ _ (.ticking _ till _)) => till ≤ s.now
  | _ => false

def setTask (s : State ω β τ σ) (i : Nat) (t : Task β τ σ) : State ω β τ σ :=
  { s with tasks := s.tasks.set i t }

def addTask (s : State ω β τ σ) (t : Task β τ σ) : State ω β τ σ :=
  { s with tasks := s.tasks ++ [t] }

def spawn (s : State ω β τ σ) (x : Spawn σ) : State ω β τ σ :=
  s.addTask (.handler x.holds (.ready x.stage))

/-- Tells a loop to end as soon as no tick is under way. -/
def cancel (s : State ω β τ σ) (l : Nat) : State ω β τ σ :=
  match s.tasks[l]? with
  | some (.loop beat _ phase) => s.setTask l (.loop beat true phase)
  | _ => s

def abort (s : State ω β τ σ) (l : Nat) : State ω β τ σ :=
  match s.tasks[l]? with
  | some (.loop beat cancelled _) => s.setTask l (.loop beat cancelled .over)
  | _ => s

def startLoop (s : State ω β τ σ) (beat : β) : State ω β τ σ :=
  { s.addTask (.loop beat false .fresh) with slot := some s.tasks.length }

def release (s : State ω β τ σ) : State ω β τ σ := { s with lock := s.lock.drop 1 }

def running (s : State ω β τ σ) : Bool := (s.slot.map fun l => !s.isOver l).getD false

/-- What a handler does that has the timer to itself. To start it anew, the handler keeps it until the
old loop has ended; to stop it, only until it has taken the loop out. -/
def grant (s : State ω β τ σ) (i : Nat) (holds : Bool) (r : Request β σ) : State ω β τ σ :=
  let go (s : State ω β τ σ) (next : σ) := s.setTask i (.handler holds (.ready next))
  let halt (s : State ω β τ σ) (l : Nat) :=
    (({ s with slot := none }).cancel l).setTask i
      (.handler holds (.halting l (s.now + haltTimeout) r))
  match r, s.slot with
  | .start _ _, some l => halt s l
  | .start beat next, none => go (s.startLoop beat).release next
  | .stop _ _, some l => halt s.release l
  | .stop _ ifIdle, none => go s.release ifIdle
  | .inspect ifRunning ifIdle, _ => go s.release (if s.running then ifRunning else ifIdle)

def proceed (s : State ω β τ σ) (i : Nat) (holds : Bool) : Request β σ → State ω β τ σ
  | .start beat next => (s.startLoop beat).release.setTask i (.handler holds (.ready next))
  | .stop ifStopped _ => s.setTask i (.handler holds (.ready ifStopped))
  | .inspect _ ifIdle => s.setTask i (.handler holds (.ready ifIdle))

/-- Grants a handler's wish as far as it can be granted at once. -/
def oblige (s : State ω β τ σ) (i : Nat) (holds : Bool) : Wish β σ → State ω β τ σ
  | .finish answer => s.setTask i (.handler holds (.finished answer))
  | .sleep till next => s.setTask i (.handler holds (.sleeping till next))
  | .start beat next => { s.setTask i (.handler holds (.queued (.start beat next))) with
      lock := s.lock ++ [i] }
  | .stop a b => { s.setTask i (.handler holds (.queued (.stop a b))) with lock := s.lock ++ [i] }
  | .inspect a b => { s.setTask i (.handler holds (.queued (.inspect a b))) with
      lock := s.lock ++ [i] }

def nextDue (s : State ω β τ σ) : Option Nat :=
  (s.tasks.filterMap Task.due?).filter (s.now < ·) |>.min?

end State

namespace Program

variable (p : Program ω β τ σ)

/-- A turn of a handler. One that does not hold the world does nothing once no one holds it. -/
def perform (s : State ω β τ σ) (i : Nat) (holds : Bool) (stage : σ) : State ω β τ σ :=
  if !holds && !s.alive then s.setTask i (.handler holds (.finished false))
  else
    let e := p.act s.now i stage s.world
    e.spawned.foldl State.spawn (({ s with world := e.world }).oblige i holds e.wish)

/-- When the tick after one is due that was due at `due` and begins at `now`. -/
def nextTick (now due : Nat) : Nat :=
  if due + lateness < now then now + p.period else due + p.period

/-- A turn of a loop. One that is told to end does so even where its next tick is due; that it may begin
this tick before it ends is left out. -/
def turn (s : State ω β τ σ) (i : Nat) (beat : β) (cancelled : Bool) : Phase τ → State ω β τ σ
  | .fresh => s.setTask i (.loop beat cancelled (if p.period = 0 then .over else .idle s.now))
  | .idle due =>
    if cancelled then s.setTask i (.loop beat true .over)
    else if !s.alive then s.setTask i (.loop beat false (.idle (p.nextTick s.now due)))
    else
      let (world, work, till) := p.beginTick s.now i beat s.world
      ({ s with world }).setTask i (.loop beat false (.ticking (p.nextTick s.now due) till work))
  | .ticking next _ work =>
    ({ s with world := p.endTick s.now i work s.world }).setTask i
      (.loop beat cancelled (.idle next))
  | .over => s

def resume (s : State ω β τ σ) (i : Nat) : State ω β τ σ :=
  if !s.enabled i then s
  else match s.tasks[i]? with
    | some (.handler holds (.ready stage)) => p.perform s i holds stage
    | some (.handler holds (.sleeping _ stage)) => p.perform s i holds stage
    | some (.handler holds (.queued r)) => s.grant i holds r
    | some (.handler holds (.halting l _ r)) => (s.abort l).proceed i holds r
    | some (.loop beat cancelled phase) => p.turn s i beat cancelled phase
    | _ => s

inductive Move (σ : Type) where
  | resume (task : Nat)
  | spawn (x : Spawn σ)
  | wait (ms : Nat)

def move (s : State ω β τ σ) : Move σ → State ω β τ σ
  | .resume i => p.resume s i
  | .spawn x => s.spawn x
  | .wait ms => { s with now := s.now + ms }

/-- The state after some moves. Any order of turns is one of these. -/
def moves (s : State ω β τ σ) (ms : List (Move σ)) : State ω β τ σ := ms.foldl p.move s

end Program

end LogDesk.Tasks
