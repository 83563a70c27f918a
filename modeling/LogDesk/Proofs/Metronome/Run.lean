import LogDesk.Metronome
import LogDesk.Proofs.Tasks.Turn

/-! Runs of a timer by itself. It is asked to start and to stop, its tasks take their turns in any order,
and time passes. Every call is awaited before the next one, and time passes only when no task can take a
turn, and not beyond what a task waits for. A loop that was told to end in a tick ends after it, also when the
next tick is due by then. The moves of a run and what is read off them stand with the latest first. -/

namespace LogDesk.Metronome

abbrev State := Tasks.State Metronome String (String × Nat) Stage

abbrev Task := Tasks.Task String (String × Nat) Stage

def atFirst (durations : List Nat) : State := { world := ⟨durations, []⟩ }

inductive Errand where
  | start (label : String)
  | stop
  deriving DecidableEq

def Errand.stage : Errand → Stage
  | start label => .start label
  | stop => .stop

inductive Move where
  | turn (task : Nat)
  | ask (e : Errand)
  | wait (ms : Nat)
  deriving DecidableEq

def Move.asksStart : Move → Bool
  | ask (.start _) => true
  | _ => false

section
variable (period : Nat) (s₀ : State)

def step (s : State) : Move → State
  | .turn i => (program period).move s (.resume i)
  | .ask e => (program period).move s (.spawn ⟨true, e.stage⟩)
  | .wait ms => (program period).move s (.wait ms)

/-- The state after some moves, the latest first. -/
def after : List Move → State
  | [] => s₀
  | m :: earlier => step period (after earlier) m

def AtRest (s : State) : Prop := ∀ i < s.tasks.length, s.enabled i = false

instance (s : State) : Decidable (AtRest s) :=
  inferInstanceAs (Decidable (∀ i < s.tasks.length, s.enabled i = false))

def isAnswered : Task → Bool
  | .handler _ (.finished _) | .loop .. => true
  | .handler .. => false

/-- Whether a loop that is told to end now might begin a tick all the same: it would have the choice. -/
def wavers (now : Nat) : Task → Bool
  | .loop _ _ .fresh => true
  | .loop _ _ (.idle due) => due ≤ now
  | .loop _ _ (.ticking next till _) => next ≤ now && till ≤ now
  | _ => false

def Allows (s : State) : Move → Prop
  | .turn _ => True
  | .ask _ => ∀ t ∈ s.tasks, isAnswered t = true ∧ wavers s.now t = false
  | .wait ms => AtRest s ∧ ∀ t ∈ s.tasks, ∀ due ∈ t.due?, s.now < due → s.now + ms ≤ due

instance (s : State) : (m : Move) → Decidable (Allows s m)
  | .turn _ => inferInstanceAs (Decidable True)
  | .ask _ => inferInstanceAs (Decidable (∀ t ∈ s.tasks, isAnswered t = true ∧ wavers s.now t = false))
  | .wait ms => inferInstanceAs (Decidable
      (AtRest s ∧ ∀ t ∈ s.tasks, ∀ due ∈ t.due?, s.now < due → s.now + ms ≤ due))

/-- Every call is awaited before the next one, none comes when a loop has a choice, and no moment that a
task waits for is passed over. -/
def Orderly : List Move → Prop
  | [] => True
  | m :: earlier => Orderly earlier ∧ Allows (after period s₀ earlier) m

instance Orderly.decide : (run : List Move) → Decidable (Orderly period s₀ run)
  | [] => .isTrue trivial
  | m :: earlier =>
    have := decide earlier
    inferInstanceAs (Decidable (Orderly period s₀ earlier ∧ Allows (after period s₀ earlier) m))

def Eager (s : State) : List Nat → Prop
  | [] => True
  | i :: rest => s.enabled i = true ∧ Eager (step period s (.turn i)) rest

end

inductive Fate where
  | underway
  | ended (time : Nat)
  | aborted (time : Nat)
  deriving DecidableEq

def Fate.time? : Fate → Option Nat
  | underway => none
  | ended time | aborted time => some time

structure Tick where
  loop : Nat
  began : Nat
  /-- When it ends if it is not broken off. -/
  till : Nat
  fate : Fate := .underway
  deriving DecidableEq

/-- What becomes of a tick in a move from `s` to `s'`. It ends in a turn of its own loop; another's turn
breaks it off. -/
def Tick.follow (s : State) (m : Move) (s' : State) (x : Tick) : Tick :=
  if x.fate = .underway ∧ s'.workAt x.loop = none then
    { x with fate := if m = .turn x.loop then .ended s.now else .aborted s.now }
  else x

/-- A call of the timer. It is known by the number of its task. -/
structure Call where
  task : Nat
  errand : Errand
  asked : Nat
  /-- The tick under way at that time. -/
  busy : Option Tick
  /-- The loop that it has put into the slot. -/
  loop : Option Nat := none
  returned : Option Nat := none
  deriving DecidableEq

def Call.follow (s : State) (m : Move) (s' : State) (c : Call) : Call :=
  if m = .turn c.task then
    { c with
      loop := if s'.slot = s.slot then c.loop else s'.slot
      returned := if s'.isOver c.task = s.isOver c.task then c.returned else some s.now }
  else c

/-- When a call is to return: at once if no tick is under way, and otherwise when that ends, or when it
is broken off. -/
def Call.due (c : Call) : Nat :=
  match c.busy with
  | none => c.asked
  | some x => min x.till (c.asked + Tasks.haltTimeout)

section
variable (period : Nat) (s₀ : State)

def tickOf? (s : State) (i : Nat) : Tasks.Deed String (String × Nat) Stage → Option Tick
  | .beginTick label => some ⟨i, s.now, ((program period).beginTick s.now i label s.world).2.2, .underway⟩
  | _ => none

def begun? (s : State) : Move → Option Tick
  | .turn i => (s.deed? i).bind (tickOf? period s i)
  | _ => none

def ticks : List Move → List Tick
  | [] => []
  | m :: earlier =>
    let s := after period s₀ earlier
    (begun? period s m).toList ++ (ticks earlier).map (·.follow s m (step period s m))

def asked? (s : State) (before : List Tick) : Move → Option Call
  | .ask e => some { task := s.tasks.length, errand := e, asked := s.now, busy := before.find? (·.fate = .underway) }
  | _ => none

def calls : List Move → List Call
  | [] => []
  | m :: earlier =>
    let s := after period s₀ earlier
    (asked? s (ticks period s₀ earlier) m).toList ++ (calls earlier).map (·.follow s m (step period s m))

end

def ofLoop (l : Nat) (xs : List Tick) : List Tick := xs.filter (·.loop = l)

end LogDesk.Metronome
