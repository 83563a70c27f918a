import LogDesk.Preferences.Error

/-! Stores of preferences: texts under names. A store may fail to read, and a write that fails may
still leave a trace, so a write gives the store back in either case. -/

namespace LogDesk

class PreferenceStore (σ : Type) where
  get : σ → String → Except PreferenceError (Option String)
  set : σ → String → String → σ × Except PreferenceError Unit

/-- Texts by name, the names ascending. -/
abbrev Entries := List (String × String)

namespace Entries

def get? (e : Entries) (name : String) : Option String := e.lookup name

def put (name value : String) : Entries → Entries
  | [] => [(name, value)]
  | (n, v) :: rest =>
    if name = n then (name, value) :: rest
    else if name < n then (name, value) :: (n, v) :: rest
    else (n, v) :: put name value rest

def ofList (ms : List (String × String)) : Entries := ms.foldl (fun e m => e.put m.1 m.2) []

end Entries

inductive Fault where
  | reads
  | writes
  deriving DecidableEq, Repr

/-- A store that lasts as long as the session. -/
structure MemoryStore where
  entries : Entries := []
  fault : Option Fault := none

namespace MemoryStore

def get (s : MemoryStore) (name : String) : Except PreferenceError (Option String) :=
  if s.fault = some .reads then .error (.storage .unreadable) else .ok (s.entries.get? name)

def set (s : MemoryStore) (name value : String) : MemoryStore × Except PreferenceError Unit :=
  if s.fault = some .writes then (s, .error (.storage .full))
  else ({ s with entries := s.entries.put name value }, .ok ())

instance : PreferenceStore MemoryStore := ⟨get, set⟩

end MemoryStore

end LogDesk
