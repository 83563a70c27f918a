import LogDesk.Console
import LogDesk.Proofs.Tasks.Turn

/-! Runs of a console: its tasks take their turns in any order, time passes, the user scrolls and asks
for more. The moves of a run and what is read off them stand with the latest first, as a desk's log
does. -/

namespace LogDesk.Console

abbrev State (ς σ : Type) := Tasks.State (Desk ς σ) Unit Reload Stage

inductive Errand where
  | handle (e : Event)
  | script (events : List Event)
  | startTimer
  | stopTimer
  | inspectTimer

def Errand.stage : Errand → Stage
  | handle e => .handle e
  | script events => .script events
  | startTimer => .startTimer
  | stopTimer => .stopTimer
  | inspectTimer => .inspectTimer

inductive Move where
  | turn (task : Nat)
  | ask (e : Errand)
  | wait (ms : Nat)
  | scroll (position : UInt32)
  /-- The console is let go of from outside. -/
  | drop

variable {ς σ : Type} [LogService ς] [PreferenceStore σ]

def step (s : State ς σ) : Move → State ς σ
  | .turn i => program.move s (.resume i)
  | .ask e => program.move s (.spawn ⟨true, e.stage⟩)
  | .wait ms => program.move s (.wait ms)
  | .scroll position => { s with world := { s.world with scroll := position } }
  | .drop => { s with held := false }

/-- The state after some moves, the latest first. Any order of turns is one of these. -/
def after (s : State ς σ) : List Move → State ς σ
  | [] => s
  | m :: earlier => step (after s earlier) m

theorem after_append (s : State ς σ) (later earlier : List Move) :
    after s (later ++ earlier) = after (after s earlier) later := by
  induction later with
  | nil => rfl
  | cons m later ih => simp only [List.cons_append, after, ih]

/-- A server whose answers for its records are known beforehand, each with its delay. All other calls
fail. -/
structure Deck where
  answers : List (Except ApiError (List Record) × Nat)

instance : LogService Deck where
  ask
    | deck, .listRecords =>
      match deck.answers with
      | [] => (deck, .ok [], 0)
      | (outcome, delay) :: rest => (⟨rest⟩, outcome, delay)
    | deck, _ => (deck, .error (.status 404 ""), 0)

def dealt (deck : Deck) : Desk Deck MemoryStore where
  service := deck
  store := ⟨[("autoRefresh", "false"), ("seconds", "5")], none⟩
  preferences := {}
  log := [⟨⟨0, 0⟩, .shown (.showPreferences {})⟩]

end LogDesk.Console
