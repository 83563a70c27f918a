import LogDesk.Ascending

/-! Which rows of a table are expanded. Rows are known by position, and new rows come in at the
front: at each refresh the positions move back by as much as the table has grown. -/

namespace LogDesk

/-- Expanded positions, ascending, and the number of rows at the last refresh. Positions are unbounded;
that one moved back may exceed 64 bits is left out. -/
structure Expansion where
  positions : List Nat := []
  lastTotal : Nat := 0
  deriving DecidableEq, Inhabited

namespace Expansion

def ofPositions (ps : List Nat) (lastTotal : Nat) : Expansion :=
  ⟨ascending ps, lastTotal⟩

def contains (e : Expansion) (pos : Nat) : Bool := e.positions.contains pos

def expand (e : Expansion) (pos : Nat) : Expansion :=
  { e with positions := insertAscending pos e.positions }

def collapse (e : Expansion) (pos : Nat) : Expansion :=
  { e with positions := e.positions.filter (· ≠ pos) }

/-- Follows the rows through a refresh to `total` rows. A position beyond the last row is given
up. -/
def reindex (e : Expansion) (total : Nat) : Expansion where
  positions := (e.positions.map (· + (total - e.lastTotal))).filter (· < total)
  lastTotal := total

end Expansion

end LogDesk
