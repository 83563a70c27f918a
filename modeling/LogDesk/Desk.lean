import LogDesk.Expansion
import LogDesk.Event
import LogDesk.Log.Detail
import LogDesk.Service
import LogDesk.Tasks.Basic
import LogDesk.View

/-! What a console holds between events, and the changes that need no waiting. -/

namespace LogDesk

inductive Act where
  | asked (c : Call)
  | shown (v : ViewCall)

structure Turn where
  now : Nat
  task : Nat

structure Entry where
  turn : Turn
  act : Act

/-- What a console holds. Refreshes are numbered without bound; that 64 bits wrap after `2 ^ 64` of them is
left out. -/
structure Desk (ς σ : Type) where
  service : ς
  store : σ
  preferences : Preferences
  /-- The records that the log table shows. -/
  records : List Record := []
  expansion : Expansion := {}
  /-- The number of the refresh that the records are of. -/
  generation : Nat := 0
  /-- How many refreshes have begun. -/
  refreshes : Nat := 0
  tray : Tray := {}
  /-- How far down the view stands. -/
  scroll : UInt32 := 0
  /-- All that was done, the latest first. -/
  log : List Entry := []

/-- A refresh on its way: its number, how far down the view stood, and what the server gives. -/
structure Reload where
  generation : Nat
  scroll : UInt32
  outcome : Except ApiError (List Record)

namespace Desk

variable {ς σ : Type}

def note (d : Desk ς σ) (t : Turn) (a : Act) : Desk ς σ := { d with log := ⟨t, a⟩ :: d.log }

def display (d : Desk ς σ) (t : Turn) (v : ViewCall) : Desk ς σ := d.note t (.shown v)

def displayAll (d : Desk ς σ) (t : Turn) (vs : List ViewCall) : Desk ς σ :=
  vs.foldl (fun d v => d.display t v) d

/-- Calls the server. The outcome comes at the moment that is given beside it. -/
def ask [LogService ς] (d : Desk ς σ) (t : Turn) (c : Call) : Desk ς σ × c.Outcome × Nat :=
  let (service, outcome, delay) := LogService.ask d.service c
  ({ d with service }.note t (.asked c), outcome, t.now + delay)

def beginReload [LogService ς] (d : Desk ς σ) (t : Turn) : Desk ς σ × Reload × Nat :=
  let generation := d.refreshes + 1
  let scroll := d.scroll
  let (d, outcome, due) := { d with refreshes := generation }.ask t .listRecords
  (d, ⟨generation, scroll, outcome⟩, due)

def opening (records : List Record) (pos : Nat) : Option ViewCall :=
  records[pos]?.map fun r => .openDetail pos r.detail

/-- What the view is told when there are new records. Details that were open are opened again where
their records are now. -/
def redraw (records : List Record) (positions : List Nat) (scroll : UInt32) : List ViewCall :=
  [.renderLogs (Row.ofRecords 0 records)] ++ positions.filterMap (opening records) ++
    [.scrollTo scroll]

def renew (d : Desk ς σ) (t : Turn) (r : Reload) (records : List Record) : Desk ς σ :=
  let expansion := d.expansion.reindex records.length
  { d with generation := r.generation, expansion, records }.displayAll t
    (redraw records expansion.positions r.scroll)

/-- Ends a refresh. One that failed changes nothing, nor does one that comes after a later one. -/
def finishReload (d : Desk ς σ) (t : Turn) (r : Reload) : Desk ς σ :=
  match r.outcome with
  | .error _ => d
  | .ok records => if r.generation < d.generation then d else d.renew t r records

def expandRow (d : Desk ς σ) (t : Turn) (pos : Nat) : Desk ς σ :=
  { d with expansion := d.expansion.expand pos }.displayAll t (opening d.records pos).toList

def collapseRow (d : Desk ς σ) (t : Turn) (pos : Nat) : Desk ς σ :=
  { d with expansion := d.expansion.collapse pos }.display t (.closeDetail pos)

def raise (d : Desk ς σ) (t : Turn) (n : Notification) : Desk ς σ × Toast :=
  let toast := d.tray.next n
  ({ d with tray := d.tray.push n }.display t (.showToast toast), toast)

def dismiss (d : Desk ς σ) (t : Turn) (id : Uuid) : Desk ς σ :=
  match d.tray.find? id with
  | some _ => { d with tray := d.tray.remove id }.display t (.removeToast id)
  | none => d

variable [PreferenceStore σ]

/-- Writes whether the log refreshes by itself. Where that fails, the user is told. -/
def setAutoRefresh (d : Desk ς σ) (on : Bool) : Desk ς σ × Option Notification :=
  let c := d.preferences.setAutoRefresh d.store on
  ({ d with store := c.store, preferences := c.preferences },
    c.failure.map fun e => { title := "Preferences", body := e.message })

/-- Writes the interval. Where that fails, the view is told what the interval still is, and the user
why. -/
def setInterval (d : Desk ς σ) (t : Turn) (seconds : UInt32) : Desk ς σ × Option Notification :=
  let c := d.preferences.setInterval d.store seconds
  let d := { d with store := c.store, preferences := c.preferences }
  match c.failure with
  | none => (d, none)
  | some e =>
    (d.display t (.showPreferences d.preferences), some { title := "Invalid Interval", body := e.message })

end Desk

end LogDesk
