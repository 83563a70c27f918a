import LogDesk.Tasks.Runner
import LogDesk.Proofs.Tasks.Turn

/-! The runner is one of the ways to give out turns: all that it does to a state is to let tasks have
their turns and time pass. -/

namespace LogDesk.Tasks

variable {ω β τ σ : Type}

namespace State

theorem cancel_now (s : State ω β τ σ) (l : Nat) : (s.cancel l).now = s.now := by
  unfold cancel
  split <;> rfl

theorem abort_now (s : State ω β τ σ) (l : Nat) : (s.abort l).now = s.now := by
  unfold abort
  split <;> rfl

theorem grant_now (s : State ω β τ σ) (i : Nat) (holds : Bool) (r : Request β σ) :
    (s.grant i holds r).now = s.now := by
  unfold grant
  split <;> first | rfl | exact cancel_now _ _

theorem proceed_now (s : State ω β τ σ) (i : Nat) (holds : Bool) (r : Request β σ) :
    (s.proceed i holds r).now = s.now := by
  cases r <;> rfl

theorem nextDue_lt {s : State ω β τ σ} {t : Nat} (h : s.nextDue = some t) : s.now < t := by
  have hm := List.min?_mem h
  simp only [List.mem_filter, decide_eq_true_eq] at hm
  exact hm.2

end State

variable (p : Program ω β τ σ)

inductive Passes (s : State ω β τ σ) : State ω β τ σ → Prop where
  | refl : Passes s s
  | turn {s' : State ω β τ σ} (before : Passes s s') (i : Nat) : Passes s (p.resume s' i)
  | wait {s' : State ω β τ σ} (before : Passes s s') (ms : Nat) :
    Passes s { s' with now := s'.now + ms }

namespace Passes

variable {p}
variable {s s' s'' : State ω β τ σ}

theorem trans (h : Passes p s s') (h' : Passes p s' s'') : Passes p s s'' := by
  induction h' with
  | refl => exact h
  | turn _ i ih => exact .turn ih i
  | wait _ ms ih => exact .wait ih ms

theorem till (h : Passes p s s') {t : Nat} (ht : s'.now ≤ t) : Passes p s { s' with now := t } := by
  have hw := Passes.wait h (t - s'.now)
  rwa [Nat.add_sub_cancel' ht] at hw

end Passes

theorem resume_now (s : State ω β τ σ) (i : Nat) : (p.resume s i).now = s.now := by
  have hperform (holds : Bool) (stage : σ) : (p.perform s i holds stage).now = s.now := by
    unfold Program.perform
    split
    · rfl
    · rw [State.foldl_spawn]
      cases (p.act s.now i stage s.world).wish <;> rfl
  unfold Program.resume
  split
  · rfl
  · split
    · exact hperform _ _
    · exact hperform _ _
    · exact s.grant_now i _ _
    · rw [State.proceed_now, State.abort_now]
    next beat cancelled phase _ =>
      cases phase with
      | idle due =>
        unfold Program.turn
        dsimp only
        split
        · rfl
        · split <;> rfl
      | _ => rfl
    · rfl

namespace Runner

theorem drive_passes (turns i : Nat) (s : State ω β τ σ) :
    Passes p s (drive p turns i s) ∧ (drive p turns i s).now = s.now := by
  induction turns generalizing s with
  | zero => exact ⟨.refl, rfl⟩
  | succ turns ih =>
    unfold drive
    split
    · obtain ⟨hp, hn⟩ := ih (p.resume s i)
      exact ⟨(Passes.turn .refl i).trans hp, hn.trans (resume_now p s i)⟩
    · exact ⟨.refl, rfl⟩

theorem settleWith_passes (turns : Nat) (r : Runner ω β τ σ) :
    Passes p r.state (settleWith p turns r).state ∧ (settleWith p turns r).state.now = r.state.now := by
  induction turns generalizing r with
  | zero => exact ⟨.refl, rfl⟩
  | succ turns ih =>
    unfold settleWith
    split
    · exact ⟨.refl, rfl⟩
    next i rest _ =>
      obtain ⟨hd, hn⟩ := drive_passes p endless i r.state
      obtain ⟨hs, hn'⟩ := ih (run p none i { r with ready := rest })
      exact ⟨hd.trans hs, hn'.trans hn⟩

theorem settle_passes (r : Runner ω β τ σ) : Passes p r.state (settle p r).state :=
  (settleWith_passes p endless r).1

theorem advanceWith_passes (turns : Nat) {till : Nat} (r : Runner ω β τ σ)
    (h : r.state.now ≤ till) : Passes p r.state (advanceWith p turns till r).state := by
  induction turns generalizing r with
  | zero => exact .refl
  | succ turns ih =>
    obtain ⟨hs, hn⟩ := settleWith_passes p endless r
    have hle : (settle p r).state.now ≤ till := hn.trans_le h
    unfold advanceWith
    dsimp only
    split
    next t ht =>
      have hlt := State.nextDue_lt ht
      split
      next hle' =>
        have he : Passes p r.state (elapse t (settle p r)).state := hs.till (Nat.le_of_lt hlt)
        exact he.trans (ih _ hle')
      · exact hs.till hle
    · exact hs.till hle

theorem advance_passes (ms : Nat) (r : Runner ω β τ σ) :
    Passes p r.state (advance p ms r).state :=
  (advanceWith_passes p endless r (Nat.le_add_right _ ms)).trans (settle_passes p _)

theorem finishWith_passes (front : Option Nat) (goal turns : Nat) (passed : Bool)
    (r : Runner ω β τ σ) : Passes p r.state (finishWith p front goal turns passed r).state := by
  induction turns generalizing passed r with
  | zero => exact .refl
  | succ turns ih =>
    unfold finishWith
    split
    · exact .refl
    · split
      next f _ => exact (drive_passes p endless f r.state).1.trans (ih _ (run p front f r))
      next i rest _ _ =>
        exact (drive_passes p endless i r.state).1.trans
          (ih _ (run p front i { r with ready := rest }))
      next =>
        split
        next t ht =>
          have hlt := State.nextDue_lt ht
          have he : Passes p r.state (elapse t r).state := Passes.refl.till (Nat.le_of_lt hlt)
          exact he.trans (ih _ _)
        · exact .refl

theorem finish_passes (goal : Nat) (r : Runner ω β τ σ) :
    Passes p r.state (finish p goal r).state :=
  finishWith_passes p none goal endless false r

theorem perform_passes (x : Spawn σ) (r : Runner ω β τ σ) :
    Passes p (r.state.spawn x) (perform p x r).state :=
  finishWith_passes p _ _ _ _ { r with state := r.state.spawn x }

theorem await_passes (x : Spawn σ) (r : Runner ω β τ σ) :
    Passes p (r.state.spawn x) (await p x r).state :=
  finish_passes p _ (dispatch x r)

end Runner

end LogDesk.Tasks
