import LogDesk.Tasks.Basic

/-! The order of turns: first come, first served. Time passes only when no task can take a turn, and
then up to the next moment that one waits for. One task may be in front: it goes first when time has
passed, and otherwise when no other task can take a turn. -/

namespace LogDesk.Tasks

variable {ω β τ σ : Type}

structure Runner (ω β τ σ : Type) where
  state : State ω β τ σ
  /-- The tasks that can take a turn, in the order in which they came to it. -/
  ready : List Nat := []
  /-- The tasks that wait, in the order in which they began to. -/
  waiting : List Nat := []

namespace Runner

variable (p : Program ω β τ σ)

def drive : (turns : Nat) → (i : Nat) → State ω β τ σ → State ω β τ σ
  | 0, _, s => s
  | turns + 1, i, s => if s.enabled i then drive turns i (p.resume s i) else s

/-- More turns than any run takes. -/
def endless : Nat := 1000000000000

def wake (r : Runner ω β τ σ) : Runner ω β τ σ where
  state := r.state
  ready := r.ready ++ r.waiting.filter r.state.enabled
  waiting := r.waiting.filter (!r.state.enabled ·)

/-- Lets a task have its turns. Tasks that it begins are lined up behind the others. -/
def run (front : Option Nat) (i : Nat) (r : Runner ω β τ σ) : Runner ω β τ σ :=
  let s := drive p endless i r.state
  let begun := List.range' r.state.tasks.length (s.tasks.length - r.state.tasks.length)
  let back := if s.isOver i || front == some i then [] else [i]
  wake ⟨s, r.ready ++ begun, r.waiting ++ back⟩

def elapse (till : Nat) (r : Runner ω β τ σ) : Runner ω β τ σ :=
  wake { r with state := { r.state with now := till } }

def settleWith : (turns : Nat) → Runner ω β τ σ → Runner ω β τ σ
  | 0, r => r
  | turns + 1, r =>
    match r.ready with
    | [] => r
    | i :: rest => settleWith turns (run p none i { r with ready := rest })

def settle (r : Runner ω β τ σ) : Runner ω β τ σ := settleWith p endless r

def advanceWith : (turns : Nat) → (till : Nat) → Runner ω β τ σ → Runner ω β τ σ
  | 0, _, r => r
  | turns + 1, till, r =>
    let r := settle p r
    match r.state.nextDue with
    | some t => if t ≤ till then advanceWith turns till (elapse t r) else elapse till r
    | none => elapse till r

def advance (ms : Nat) (r : Runner ω β τ σ) : Runner ω β τ σ :=
  settle p (advanceWith p endless (r.state.now + ms) r)

def finishWith (front : Option Nat) (goal : Nat) :
    (turns : Nat) → (passed : Bool) → Runner ω β τ σ → Runner ω β τ σ
  | 0, _, r => r
  | turns + 1, passed, r =>
    if r.state.isOver goal then r
    else
      match front.filter fun f => r.state.enabled f && (passed || r.ready.isEmpty), r.ready with
      | some f, _ => finishWith front goal turns false (run p front f r)
      | none, i :: rest => finishWith front goal turns false (run p front i { r with ready := rest })
      | none, [] =>
        match r.state.nextDue with
        | some t => finishWith front goal turns true (elapse t r)
        | none => r

def finish (goal : Nat) (r : Runner ω β τ σ) : Runner ω β τ σ := finishWith p none goal endless false r

/-- Begins a task behind the others. -/
def dispatch (x : Spawn σ) (r : Runner ω β τ σ) : Runner ω β τ σ :=
  { r with state := r.state.spawn x, ready := r.ready ++ [r.state.tasks.length] }

/-- Lets a task begin in front of the others, and goes on until it is finished. -/
def perform (x : Spawn σ) (r : Runner ω β τ σ) : Runner ω β τ σ :=
  let i := r.state.tasks.length
  finishWith p (some i) i endless true { r with state := r.state.spawn x }

def await (x : Spawn σ) (r : Runner ω β τ σ) : Runner ω β τ σ :=
  finish p r.state.tasks.length (dispatch x r)

def answer (i : Nat) (r : Runner ω β τ σ) : Option Bool :=
  match r.state.tasks[i]? with
  | some (.handler _ (.finished b)) => some b
  | _ => none

end Runner

end LogDesk.Tasks
