import LogDesk.Preferences.Disk
import LogDesk.Preferences.Store
import LogDesk.Json.Printer
import LogDesk.Json.Schema
import LogDesk.Text.Blank

/-! Preferences kept in a file: one JSON object, read when the store is opened and written whole at
every change. -/

namespace LogDesk

structure FileStore where
  path : Path
  entries : Entries
  /-- The disk that the file is on. Others may change it. -/
  disk : Node

namespace Entries

def toText (e : Entries) : String :=
  (Json.Value.object (e.map fun (n, v) => (n, .string v))).pretty "  "

/-- The entries that a text holds. A blank one holds none. -/
def ofText (cs : List Char) : Except PreferenceError Entries :=
  if cs.all Text.isBlank then .ok []
  else
    let bytes := Text.utf8 cs
    match Json.readAll (Json.readTextObject (bytes.length + 1)) bytes with
    | .ok ms => .ok (ofList ms)
    | .error e => .error (.badJson e)

end Entries

namespace FileStore

/-- What is kept at a path. A missing file is an empty store, and is made at the first write. -/
def readEntries (disk : Node) (path : Path) : Except PreferenceError Entries :=
  match disk.read path with
  | .error .notFound => .ok []
  | .error e => .error (.storage e)
  | .ok content =>
    match Text.ofUtf8? content with
    | none => .error (.storage .notText)
    | some cs => Entries.ofText cs

def open? (disk : Node) (path : Path) : Except PreferenceError FileStore :=
  (readEntries disk path).map fun entries => ⟨path, entries, disk⟩

def get (s : FileStore) (name : String) : Except PreferenceError (Option String) :=
  .ok (s.entries.get? name)

/-- Makes the folders, then writes the file, and only then takes the value. -/
def set (s : FileStore) (name value : String) : FileStore × Except PreferenceError Unit :=
  let entries := s.entries.put name value
  match s.disk.makeFolders s.path.dropLast with
  | .error e => (s, .error (.storage e))
  | .ok disk =>
    match disk.write (Text.utf8 entries.toText.toList) s.path with
    | .error e => ({ s with disk }, .error (.storage e))
    | .ok disk => (⟨s.path, entries, disk⟩, .ok ())

instance : PreferenceStore FileStore := ⟨get, set⟩

end FileStore

end LogDesk
