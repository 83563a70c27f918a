import LogDesk.Json.Printer

/-! The form for a log entry that the user writes: named fields in the order in which they were
added. -/

namespace LogDesk

structure EntryForm where
  fields : List (String × String) := []
  deriving DecidableEq, Inhabited

namespace EntryForm

def add (f : EntryForm) (name value : String) : EntryForm := ⟨f.fields ++ [(name, value)]⟩

def entry (level message : String) (exception : Bool) : EntryForm :=
  let form := (EntryForm.mk []).add "level" level |>.add "message" message
  if exception then form.add "addException" "true" else form

/-- What the server is sent. A name that was added more than once takes its last value. -/
def toJson (f : EntryForm) : Json.Value :=
  .object (Json.mergeMembers (f.fields.map fun (n, v) => (n, .string v)))

end EntryForm

end LogDesk
