import LogDesk.Proofs.Console.Script
import LogDesk.Proofs.Tasks.Alone

/-! Tasks that leave the timer and the settings alone: all that answer requests, the timers of toasts
and the loops. What they do is no concern of a script that runs beside them. -/

namespace LogDesk.Console

variable {ς σ : Type}

def Move.internal : Move → Bool
  | .ask _ => false
  | _ => true

theorem internal_quiet {m : Move} (h : m.internal = true) : m.quiet = true := by
  cases m <;> first | rfl | cases h

/-- Whether a task at a stage leaves the timer and the settings alone. -/
def Stage.aside : Stage → Bool
  | .handle (.setAutoRefresh _) | .handle (.setInterval _) | .switched _ _ | .script _ | .startTimer
  | .stopTimer | .inspectTimer => false
  | _ => true

def Move.aside : Move → Bool
  | .ask e => e.stage.aside
  | _ => true

theorem internal_aside {m : Move} (h : m.internal = true) : m.aside = true := by
  cases m <;> first | rfl | cases h

theorem aside_applies {stage : Stage} (h : stage.aside = true) : stage.applies = none := by
  cases stage with
  | handle e => cases e <;> first | rfl | cases h
  | script | switched => cases h
  | _ => rfl

theorem goes_aside [LogService ς] {t : Turn} {d : Desk ς σ} {stage next : Stage}
    (hg : Goes t d stage next) (h : stage.aside = true) : next.aside = true := by
  cases hg <;> first | rfl | cases h

theorem begins_aside {stage next : Stage} (h : Begins stage next) : next.aside = true := by
  cases h with
  | toast => rfl
  | hands e rest he => cases e <;> first | rfl | cases he

variable [LogService ς]

theorem onAnswer_request (t : Turn) (d : Desk ς σ) (c : Call) (outcome : c.Outcome) :
    (onAnswer t d c outcome).wish.request? = none := by
  cases c <;> cases outcome <;> rfl

variable [PreferenceStore σ]

theorem aside_request (t : Turn) (d : Desk ς σ) {stage : Stage} (h : stage.aside = true) :
    (act t d stage).wish.request? = none := by
  cases stage with
  | handle e => cases e <;> first | rfl | cases h
  | answered c outcome => exact onAnswer_request t d c outcome
  | reloaded | expire | done => rfl
  | _ => cases h

/-- All tasks but some keep away from the timer and the settings. -/
structure Aside (own : Nat → Prop) (s : State ς σ) : Prop where
  calm : ∀ i, ¬own i → ∀ t, s.tasks[i]? = some t → t.calm = true
  stages : ∀ i, ¬own i → ∀ stage ∈ s.stagesAt i, stage.aside = true

theorem aside_step {own : Nat → Prop} {s : State ς σ} {m : Move} (ha : Aside own s)
    (hm : m.aside = true) : Aside own (step s m) := by
  constructor
  · intro i hi t ht
    cases m with
    | turn k =>
      change (program.resume s k).tasks[i]? = some t at ht
      by_cases hk : i = k
      · subst hk
        refine (program.calm_self (ha.calm i hi) fun stage hd => ?_).2.2 t ht
        exact aside_request _ _ (ha.stages i hi stage (deed_stagesAt hd))
      · exact program.calm_other s hk (ha.calm i hi) t ht
    | ask e =>
      rcases (s.addTask_get _).mp ht with ht | ⟨-, rfl⟩
      · exact ha.calm i hi t ht
      · rfl
    | _ => exact ha.calm i hi t ht
  · intro i hi stage h
    cases stage_comes h with
    | stays h _ => exact ha.stages i hi stage h
    | goes st _ hd h => exact goes_aside h (ha.stages i hi st (deed_stagesAt hd))
    | begins _ _ _ _ _ _ _ h => exact begins_aside h
    | asked e ask _ stage_eq =>
      subst ask
      rw [stage_eq]
      exact hm

/-- A move leaves the timer and the settings as they are. -/
structure Passing (s : State ς σ) (m : Move) : Prop where
  slot : (step s m).slot = s.slot
  lock : (step s m).lock = s.lock
  now : s.now ≤ (step s m).now
  settings : (step s m).world.settings = s.world.settings

theorem passing_turn {own : Nat → Prop} {s : State ς σ} {k : Nat} (ha : Aside own s) (hk : ¬own k) :
    Passing s (.turn k) := by
  have hstage : ∀ stage, s.deed? k = some (.act stage) → stage.aside = true :=
    fun stage hd => ha.stages k hk stage (deed_stagesAt hd)
  obtain ⟨hslot, hlock, -⟩ := program.calm_self (ha.calm k hk) fun stage hd =>
    aside_request ⟨s.now, k⟩ s.world (hstage stage hd)
  refine ⟨hslot, hlock, Nat.le_of_eq (Tasks.resume_now program s k).symm, ?_⟩
  rw [step_settings]
  cases hd : s.deed? k with
  | none => simp [applies, hd]
  | some deed =>
    cases deed with
    | act stage => simp [applies, hd, aside_applies (hstage stage hd)]
    | beginTick | endTick => simp [applies, hd]

theorem passing_step {own : Nat → Prop} {s : State ς σ} {m : Move} (ha : Aside own s)
    (hk : ∀ k, m = .turn k → ¬own k) : Passing s m := by
  cases m with
  | turn k => exact passing_turn ha (hk k rfl)
  | wait ms => exact ⟨rfl, rfl, Nat.le_add_right _ _, rfl⟩
  | ask | scroll | drop => exact ⟨rfl, rfl, Nat.le_refl _, rfl⟩

/-- Until its turn a handler stays as it is. -/
theorem handler_step {s : State ς σ} {m : Move} {j : Nat} (hj : m ≠ .turn j) {holds : Bool}
    {status : Tasks.Status Unit Stage} (h : s.tasks[j]? = some (.handler holds status)) :
    (step s m).tasks[j]? = some (.handler holds status) := by
  cases m with
  | turn k =>
    have hjk : j ≠ k := fun e => hj (e ▸ rfl)
    exact (h ▸ program.resume_other s hjk).handler
  | ask e => exact (s.addTask_get _).mpr (.inl h)
  | _ => exact h

end LogDesk.Console
