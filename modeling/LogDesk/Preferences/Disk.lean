import LogDesk.Preferences.Error

/-! A disk: files in folders, and what reading, writing and making folders do at a path. A call that
fails changes nothing. -/

namespace LogDesk

abbrev Path := List String

def Path.ofText (s : String) : Path :=
  ((s.splitOn "/").filter fun name => name ≠ "" && name ≠ ".")

inductive Node where
  | file (content : List UInt8)
  | folder (entries : List (String × Node))
  deriving Inhabited

namespace Node

def empty : Node := .folder []

def putEntry (name : String) (node : Node) : List (String × Node) → List (String × Node)
  | [] => [(name, node)]
  | (n, m) :: rest => if n = name then (n, node) :: rest else (n, m) :: putEntry name node rest

def find : Node → Path → Except StorageError Node
  | n, [] => .ok n
  | .file _, _ :: _ => .error .notFolder
  | .folder es, name :: rest =>
    match es.lookup name with
    | some n => n.find rest
    | none => .error .notFound

def read (n : Node) (path : Path) : Except StorageError (List UInt8) :=
  match n.find path with
  | .ok (.file content) => .ok content
  | .ok (.folder _) => .error .isFolder
  | .error e => .error e

/-- Writes a whole file, a new one where its folder is there. -/
def write (content : List UInt8) : Node → Path → Except StorageError Node
  | .folder _, [] => .error .isFolder
  | .file _, [] => .ok (.file content)
  | .file _, _ :: _ => .error .notFolder
  | .folder es, name :: rest =>
    match es.lookup name with
    | some n => (n.write content rest).map fun n => .folder (putEntry name n es)
    | none =>
      if rest.isEmpty then .ok (.folder (putEntry name (.file content) es)) else .error .notFound

def chain : Path → Node
  | [] => .empty
  | name :: rest => .folder [(name, chain rest)]

/-- Makes the folders on the way to a path that are not there yet, the last one included. -/
def makeFolders : Node → Path → Except StorageError Node
  | .folder es, [] => .ok (.folder es)
  | .file _, [] => .error .exists
  | .file _, _ :: _ => .error .notFolder
  | .folder es, name :: rest =>
    match es.lookup name with
    | some n => (n.makeFolders rest).map fun n => .folder (putEntry name n es)
    | none => .ok (.folder (putEntry name (chain rest) es))

def remove : Node → Path → Node
  | .folder es, [name] => .folder (es.filter (·.1 ≠ name))
  | .folder es, name :: rest =>
    match es.lookup name with
    | some n => .folder (putEntry name (n.remove rest) es)
    | none => .folder es
  | n, _ => n

end Node

end LogDesk
