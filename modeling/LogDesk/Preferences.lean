import LogDesk.Preferences.Store
import LogDesk.Text.Blank
import LogDesk.Text.Decimal

/-! The user's preferences: whether the log refreshes by itself, and the interval of new jobs. Each
change is written to the store before it is taken. -/

namespace LogDesk

structure Preferences where
  autoRefresh : Bool := false
  /-- In seconds. -/
  interval : UInt32 := 5
  deriving DecidableEq, Repr, Inhabited

namespace Preferences

def autoRefreshName : String := "autoRefresh"

def secondsName : String := "seconds"

def flagText (b : Bool) : String := if b then "true" else "false"

def secondsText (n : UInt32) : String := String.ofList (Text.digits n.toNat)

/-- The flag that a stored text stands for. An empty text stands for none. -/
def flag? (s : String) : Option Bool := if s = "" then none else some (s = "true")

/-- The interval that a stored text stands for: a numeral between blanks, and not of zero. -/
def seconds? (s : String) : Option UInt32 :=
  match Text.numeralBelow? UInt32.size (Text.trim s.toList) with
  | some n => if n = 0 then none else some (.ofNat n)
  | none => none

section
variable {σ α : Type} [PreferenceStore σ]

/-- Reads one preference. Where the store has none that can be read, the default is written to it. -/
def loadOne (read : String → Option α) (print : α → String) (default : α) (name : String) (s : σ) :
    σ × Except PreferenceError α :=
  match PreferenceStore.get s name with
  | .error e => (s, .error e)
  | .ok stored =>
    match stored.bind read with
    | some a => (s, .ok a)
    | none =>
      match PreferenceStore.set s name (print default) with
      | (s, .error e) => (s, .error e)
      | (s, .ok ()) => (s, .ok default)

def load (s : σ) : σ × Except PreferenceError Preferences :=
  let standard : Preferences := {}
  match loadOne flag? flagText standard.autoRefresh autoRefreshName s with
  | (s, .error e) => (s, .error e)
  | (s, .ok autoRefresh) =>
    match loadOne seconds? secondsText standard.interval secondsName s with
    | (s, .error e) => (s, .error e)
    | (s, .ok interval) => (s, .ok ⟨autoRefresh, interval⟩)

/-- The store and the preferences after a change, and what hindered it. -/
structure Change (σ : Type) where
  store : σ
  preferences : Preferences
  failure : Option PreferenceError

def setAutoRefresh (p : Preferences) (s : σ) (on : Bool) : Change σ :=
  match PreferenceStore.set s autoRefreshName (flagText on) with
  | (s, .ok ()) => ⟨s, { p with autoRefresh := on }, none⟩
  | (s, .error e) => ⟨s, p, some e⟩

def checkInterval (seconds : UInt32) : Except PreferenceError Unit :=
  if seconds = 0 then .error .zeroInterval else .ok ()

def setInterval (p : Preferences) (s : σ) (seconds : UInt32) : Change σ :=
  match checkInterval seconds with
  | .error e => ⟨s, p, some e⟩
  | .ok () =>
    match PreferenceStore.set s secondsName (secondsText seconds) with
    | (s, .ok ()) => ⟨s, { p with interval := seconds }, none⟩
    | (s, .error e) => ⟨s, p, some e⟩

end

end Preferences

end LogDesk
