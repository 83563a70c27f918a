import LogDesk.Notification
import LogDesk.Uuid

/-! Toasts: notifications on the screen, each known by an identifier of its own. -/

namespace LogDesk

structure Toast where
  id : Uuid
  notification : Notification
  deriving DecidableEq

/-- The `n`-th identifier that is given out. None of them is nil. -/
def Uuid.nth (n : Nat) : Uuid := ⟨BitVec.ofNat 128 (n + 1)⟩

/-- The toasts that are up, the oldest first. -/
structure Tray where
  toasts : List Toast := []
  /-- How many identifiers are given out. -/
  given : Nat := 0

namespace Tray

def next (t : Tray) (n : Notification) : Toast := ⟨.nth t.given, n⟩

def push (t : Tray) (n : Notification) : Tray := ⟨t.toasts ++ [t.next n], t.given + 1⟩

def find? (t : Tray) (id : Uuid) : Option Toast := t.toasts.find? (·.id = id)

def remove (t : Tray) (id : Uuid) : Tray := { t with toasts := t.toasts.eraseP (·.id = id) }

end Tray

end LogDesk
