import LogDesk.Json.Scan

/-! Why preferences were not read or written. -/

namespace LogDesk

inductive StorageError where
  | notFound
  | notFolder
  | isFolder
  | exists
  | notText
  | unreadable
  | full
  deriving DecidableEq, Repr

def StorageError.message : StorageError → String
  | notFound => "No such file or directory (os error 2)"
  | notFolder => "Not a directory (os error 20)"
  | isFolder => "Is a directory (os error 21)"
  | «exists» => "File exists (os error 17)"
  | notText => "stream did not contain valid UTF-8"
  | unreadable => "store unreadable"
  | full => "disk full"

inductive PreferenceError where
  /-- A job must run at least once in its interval. -/
  | zeroInterval
  | storage (cause : StorageError)
  | badJson (cause : Json.ReadError)
  deriving DecidableEq, Repr

def PreferenceError.message : PreferenceError → String
  | zeroInterval => "Validation failed: Interval must be at least 1 second"
  | storage cause => "Preference storage error: " ++ cause.message
  | badJson .malformed => "Serialization error: malformed text"
  | badJson .ended => "Serialization error: text ended too early"
  | badJson .mismatch => "Serialization error: not an object of texts"

end LogDesk
