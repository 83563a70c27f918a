import LogDesk.Tasks.Runner

/-! A timer by itself: its ticks only take time, and each is heard when it begins and when it ends. -/

namespace LogDesk

structure Beat where
  label : String
  ending : Bool
  began : Nat
  deriving DecidableEq

structure Metronome where
  /-- How long the ticks to come take; those beyond take no time. -/
  durations : List Nat
  /-- The latest first. -/
  heard : List Beat := []

namespace Metronome

inductive Stage where
  | start (label : String)
  | stop
  | inspect
  | done (answer : Bool)

def act (m : Metronome) : Stage → Tasks.Effect Metronome String Stage
  | .start label => ⟨m, .start label (.done true), []⟩
  | .stop => ⟨m, .stop (.done true) (.done false), []⟩
  | .inspect => ⟨m, .inspect (.done true) (.done false), []⟩
  | .done answer => ⟨m, .finish answer, []⟩

def beginTick (m : Metronome) (now : Nat) (label : String) : Metronome × (String × Nat) × Nat :=
  (⟨m.durations.drop 1, ⟨label, false, now⟩ :: m.heard⟩, (label, now),
    now + m.durations.head?.getD 0)

def endTick (m : Metronome) (tick : String × Nat) : Metronome :=
  { m with heard := ⟨tick.1, true, tick.2⟩ :: m.heard }

def program (period : Nat) : Tasks.Program Metronome String (String × Nat) Stage where
  period := period
  act _ _ stage m := m.act stage
  beginTick now _ label m := m.beginTick now label
  endTick _ _ tick m := m.endTick tick

end Metronome

end LogDesk
