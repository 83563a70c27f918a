import LogDesk.Proofs.Console.Aside
import LogDesk.Proofs.Tasks.Schedule

/-! What a console does in the order of its runner is one of its runs, so all that holds after any
moves holds of it. -/

namespace LogDesk.Console

variable {ς σ : Type} [LogService ς] [PreferenceStore σ]

theorem passes_after {s s' : State ς σ} (h : Tasks.Passes program s s') :
    ∃ ms : List Move, (∀ m ∈ ms, m.internal = true) ∧ s' = after s ms := by
  induction h with
  | refl => exact ⟨[], by simp, rfl⟩
  | turn _ i ih =>
    obtain ⟨ms, hm, rfl⟩ := ih
    exact ⟨.turn i :: ms, List.forall_mem_cons.mpr ⟨rfl, hm⟩, rfl⟩
  | wait _ t ih =>
    obtain ⟨ms, hm, rfl⟩ := ih
    exact ⟨.wait t :: ms, List.forall_mem_cons.mpr ⟨rfl, hm⟩, rfl⟩

/-- Something is asked of a console, and turns are given out after that. -/
theorem asked_after {s s' : State ς σ} {e : Errand}
    (h : Tasks.Passes program (s.spawn ⟨true, e.stage⟩) s') :
    ∃ ms : List Move, (∀ m ∈ ms, m.internal = true) ∧ s' = after s (ms ++ [.ask e]) := by
  obtain ⟨ms, hm, rfl⟩ := passes_after h
  exact ⟨ms, hm, by rw [after_append]; rfl⟩

/-- A console starts with a desk that has been opened, and with its timer if that was left on. -/
theorem start_after {service : ς} {store : σ} {scroll : UInt32} {r : Runner ς σ}
    (h : start service store scroll = .ok r) :
    ∃ (d : Desk ς σ) (opening : List Move), openDesk service store scroll = .ok d ∧
      (∀ m ∈ opening, m.quiet = true) ∧ r.state = after { world := d } opening := by
  unfold start at h
  cases hd : openDesk service store scroll with
  | error e =>
    rw [hd] at h
    cases h
  | ok d =>
    rw [hd] at h
    simp only [Except.map, Except.ok.injEq] at h
    refine ⟨d, ?_⟩
    split at h
    · obtain ⟨ms, hm, hs⟩ := asked_after (e := .startTimer)
        (Tasks.Runner.perform_passes program ⟨true, .startTimer⟩ { state := { world := d } })
      subst h
      refine ⟨ms ++ [.ask .startTimer], rfl, fun m hmem => ?_, hs⟩
      rcases List.mem_append.mp hmem with hmem | hmem
      · exact internal_quiet (hm m hmem)
      · rw [List.mem_singleton.mp hmem]
        rfl
    · subst h
      exact ⟨[], rfl, by simp, rfl⟩

/-- All that comes of events that a console takes from its start on comes of a run in which a script
has it to itself. -/
theorem run_after {service : ς} {store : σ} {scroll : UInt32} {r : Runner ς σ}
    (h : start service store scroll = .ok r) (events : List Event) :
    ∃ (d : Desk ς σ) (opening ms : List Move), openDesk service store scroll = .ok d ∧
      (∀ m ∈ opening, m.quiet = true) ∧ (∀ m ∈ ms, m.quiet = true) ∧
        (run events r).state = after { world := d } (ms ++ .ask (.script events) :: opening) := by
  obtain ⟨d, opening, hd, ho, hr⟩ := start_after h
  obtain ⟨ms, hm, hs⟩ := asked_after (e := .script events)
    (Tasks.Runner.perform_passes program ⟨true, .script events⟩ r)
  refine ⟨d, opening, ms, hd, ho, fun m hmem => internal_quiet (hm m hmem), ?_⟩
  rw [hr, ← after_append] at hs
  rw [List.append_cons]
  exact hs

theorem drain_passes (r : Runner ς σ) : Tasks.Passes program r.state (drain r).state := by
  unfold drain
  dsimp only
  generalize List.range r.state.tasks.length = is
  induction is generalizing r with
  | nil => exact .refl
  | cons i is ih =>
    rw [List.foldl_cons]
    refine Tasks.Passes.trans ?_ (ih _)
    split
    · exact Tasks.Runner.finish_passes program i r
    · exact .refl

inductive Used (service : ς) (store : σ) (scroll : UInt32) : Runner ς σ → Prop where
  | start {r : Runner ς σ} (h : Console.start service store scroll = .ok r) : Used service store scroll r
  | dispatch {r : Runner ς σ} (h : Used service store scroll r) (e : Event) :
    Used service store scroll (dispatch e r)
  | await {r : Runner ς σ} (h : Used service store scroll r) (e : Event) :
    Used service store scroll (await e r)
  | apply {r : Runner ς σ} (h : Used service store scroll r) (e : Event) :
    Used service store scroll (apply e r)
  | run {r : Runner ς σ} (h : Used service store scroll r) (events : List Event) :
    Used service store scroll (run events r)
  | shutdown {r : Runner ς σ} (h : Used service store scroll r) :
    Used service store scroll (shutdown r)
  | inspect {r : Runner ς σ} (h : Used service store scroll r) :
    Used service store scroll (inspect r).1
  | settle {r : Runner ς σ} (h : Used service store scroll r) : Used service store scroll (settle r)
  | advance {r : Runner ς σ} (h : Used service store scroll r) (ms : Nat) :
    Used service store scroll (advance ms r)
  | drop {r : Runner ς σ} (h : Used service store scroll r) : Used service store scroll (drop r)
  | drain {r : Runner ς σ} (h : Used service store scroll r) : Used service store scroll (drain r)

/-- However a console is used, it has come to its state by some moves from its opening. -/
theorem used_after {service : ς} {store : σ} {scroll : UInt32} {r : Runner ς σ}
    (h : Used service store scroll r) :
    ∃ (d : Desk ς σ) (ms : List Move), openDesk service store scroll = .ok d ∧
      r.state = after { world := d } ms := by
  have hon {r r' : Runner ς σ} (hr : ∃ (d : Desk ς σ) (ms : List Move),
      openDesk service store scroll = .ok d ∧ r.state = after { world := d } ms)
      (hms : ∃ later : List Move, r'.state = after r.state later) :
      ∃ (d : Desk ς σ) (ms : List Move), openDesk service store scroll = .ok d ∧
        r'.state = after { world := d } ms := by
    obtain ⟨d, ms, hd, hs⟩ := hr
    obtain ⟨later, hl⟩ := hms
    exact ⟨d, later ++ ms, hd, by rw [hl, hs, after_append]⟩
  have hpass {r r' : Runner ς σ} (hp : Tasks.Passes program r.state r'.state) :
      ∃ later : List Move, r'.state = after r.state later := by
    obtain ⟨ms, -, hs⟩ := passes_after hp
    exact ⟨ms, hs⟩
  have hask {r r' : Runner ς σ} (e : Errand)
      (hp : Tasks.Passes program (r.state.spawn ⟨true, e.stage⟩) r'.state) :
      ∃ later : List Move, r'.state = after r.state later := by
    obtain ⟨ms, -, hs⟩ := asked_after hp
    exact ⟨_, hs⟩
  induction h with
  | start h =>
    obtain ⟨d, opening, hd, -, hr⟩ := start_after h
    exact ⟨d, opening, hd, hr⟩
  | dispatch _ e ih => exact hon ih ⟨[.ask (.handle e)], rfl⟩
  | await _ e ih => exact hon ih (hask (.handle e) (Tasks.Runner.await_passes program _ _))
  | apply _ e ih => exact hon ih (hask (.handle e) (Tasks.Runner.perform_passes program _ _))
  | run _ events ih => exact hon ih (hask (.script events) (Tasks.Runner.perform_passes program _ _))
  | shutdown _ ih => exact hon ih (hask .stopTimer (Tasks.Runner.perform_passes program _ _))
  | inspect _ ih => exact hon ih (hask .inspectTimer (Tasks.Runner.perform_passes program _ _))
  | settle _ ih => exact hon ih (hpass (Tasks.Runner.settle_passes program _))
  | advance _ ms ih => exact hon ih (hpass (Tasks.Runner.advance_passes program ms _))
  | drop _ ih => exact hon ih ⟨[.drop], rfl⟩
  | drain _ ih => exact hon ih (hpass (drain_passes _))

end LogDesk.Console
