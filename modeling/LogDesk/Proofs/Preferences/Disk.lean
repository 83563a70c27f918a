import LogDesk.Preferences.Disk
import Mathlib.Tactic

/-! Files on a disk: what was written is read, and folders that are made on the way to a file leave it
as it is. -/

namespace LogDesk.Node

theorem lookup_putEntry (name : String) (node : Node) (es : List (String × Node)) :
    (putEntry name node es).lookup name = some node := by
  induction es with
  | nil => simp [putEntry]
  | cons e rest ih =>
    obtain ⟨n, m⟩ := e
    unfold putEntry
    by_cases h : n = name
    · simp [h]
    · have hb : (name == n) = false := by simpa using fun h' => h h'.symm
      rw [if_neg h, List.lookup_cons, hb]
      exact ih

theorem find_write {content : List UInt8} {n n' : Node} {path : Path}
    (h : n.write content path = .ok n') : n'.find path = .ok (.file content) := by
  induction path generalizing n n' with
  | nil =>
    cases n with
    | file old =>
      cases h
      rfl
    | folder es => cases h
  | cons name rest ih =>
    cases n with
    | file old => cases h
    | folder es =>
      rw [write] at h
      split at h
      next m hm =>
        cases hw : m.write content rest with
        | error e =>
          rw [hw] at h
          cases h
        | ok m' =>
          rw [hw] at h
          cases h
          rw [find, lookup_putEntry]
          exact ih hw
      next =>
        split at h
        next hr =>
          cases h
          obtain rfl := List.isEmpty_iff.mp hr
          rw [find, lookup_putEntry]
          rfl
        next => cases h

/-- What was written is read. -/
theorem read_write {content : List UInt8} {n n' : Node} {path : Path}
    (h : n.write content path = .ok n') : n'.read path = .ok content := by
  rw [read, find_write h]

theorem find_chain (path : Path) (name : String) :
    (chain path).find (path ++ [name]) = .error .notFound := by
  induction path with
  | nil => rfl
  | cons first rest ih => simpa [chain, find, List.lookup_cons] using ih

/-- A new folder is empty, and a folder that was there keeps what is in it. -/
theorem find_makeFolders {n n' : Node} {path : Path} (h : n.makeFolders path = .ok n')
    (name : String) : n'.find (path ++ [name]) = n.find (path ++ [name]) := by
  induction path generalizing n n' with
  | nil =>
    cases n with
    | file content => cases h
    | folder es =>
      cases h
      rfl
  | cons first rest ih =>
    cases n with
    | file content => cases h
    | folder es =>
      rw [makeFolders] at h
      split at h
      next m hm =>
        cases hw : m.makeFolders rest with
        | error e =>
          rw [hw] at h
          cases h
        | ok m' =>
          rw [hw] at h
          cases h
          rw [List.cons_append, find, lookup_putEntry, find, hm]
          exact ih hw
      next hm =>
        cases h
        rw [List.cons_append, find, lookup_putEntry, find, hm]
        exact find_chain rest name

/-- Folders that are made for a file do not change what is read of it. -/
theorem read_makeFolders {n n' : Node} {path : Path} (h : n.makeFolders path.dropLast = .ok n') :
    n'.read path = n.read path := by
  rcases List.eq_nil_or_concat path with rfl | ⟨front, name, rfl⟩
  · cases n with
    | file content => cases h
    | folder es =>
      cases h
      rfl
  · have hp : (front.concat name).dropLast = front := by simp
    rw [hp] at h
    rw [read, read, List.concat_eq_append, find_makeFolders h name]

end LogDesk.Node
