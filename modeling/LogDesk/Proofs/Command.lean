import LogDesk.Command
import LogDesk.Proofs.Text.Words

/-! What a line can ask for: each command gives an event of its own kind, made of the words behind its
name. -/

namespace LogDesk.Command

theorem required_ok {usage : Usage} {ws : List (List Char)} {w : List Char}
    (h : required usage ws = .ok w) : w ∈ ws := by
  cases ws with
  | nil => cases h
  | cons w' rest =>
    cases h
    exact List.mem_cons_self

theorem map_ok {α β : Type} {x : Except CommandError α} {f : α → β} {b : β} (h : x.map f = .ok b) :
    ∃ a, x = .ok a ∧ f a = b := by
  cases x with
  | error e => cases h
  | ok a => exact ⟨a, rfl, Except.ok.inj h⟩

theorem bind_ok {α β : Type} {x : Except CommandError α} {f : α → Except CommandError β} {b : β}
    (h : x >>= f = .ok b) : ∃ a, x = .ok a ∧ f a = .ok b := by
  cases x with
  | error e => cases h
  | ok a => exact ⟨a, rfl, h⟩

theorem logEntry_ok {ws : List (List Char)} {e : Event} (h : logEntry ws = .ok e) :
    ∃ form, e = .submitEntry form := by
  cases ws with
  | nil => cases h
  | cons level rest =>
    unfold logEntry at h
    dsimp -zeta only at h
    extract_lets exception message at h
    split at h
    · cases h
    · cases h
      exact ⟨_, rfl⟩

theorem autoRefresh_ok {ws : List (List Char)} {e : Event} (h : autoRefresh ws = .ok e) :
    ∃ on, e = .setAutoRefresh on := by
  obtain ⟨w, -, hw⟩ := bind_ok h
  split at hw
  · cases hw
    exact ⟨true, rfl⟩
  · cases hw
    exact ⟨false, rfl⟩
  · cases hw

theorem dismissal_ok {ws : List (List Char)} {e : Event} (h : dismissal ws = .ok e) :
    ∃ id, e = .dismissToast id := by
  obtain ⟨w, -, hw⟩ := bind_ok h
  split at hw
  next id _ =>
    cases hw
    exact ⟨id, rfl⟩
  · cases hw

/-- No command is as good as no words. -/
theorem ofWords_empty {ws : List (List Char)} (h : ofWords ws = .ok .empty) : ws = [] := by
  have no_map {α : Type} {x : Except CommandError α} {f : α → Event} :
      x.map (fun a => Command.event (f a)) ≠ .ok .empty := by
    intro hx
    obtain ⟨a, -, ha⟩ := map_ok hx
    cases ha
  cases ws with
  | nil => rfl
  | cons name rest =>
    unfold ofWords at h
    dsimp only at h
    split at h
    all_goals first
      | cases h
      | exact absurd h no_map

/-- A job that is to be stopped is named by a word. -/
theorem ofWords_stopJob {ws : List (List Char)} {id : String}
    (h : ofWords ws = .ok (.event (.stopJob id))) : ∃ w ∈ ws, id = String.ofList w := by
  cases ws with
  | nil => cases h
  | cons name rest =>
    unfold ofWords at h
    dsimp only at h
    split at h
    -- Only the commands that read further words are left.
    all_goals try cases h
    next =>
      obtain ⟨w, hw, he⟩ := map_ok h
      cases he
      exact ⟨w, List.mem_cons_of_mem _ (required_ok hw), rfl⟩
    next =>
      obtain ⟨e, he, hc⟩ := map_ok h
      obtain ⟨form, rfl⟩ := logEntry_ok he
      cases hc
    next =>
      obtain ⟨e, he, hc⟩ := map_ok h
      obtain ⟨on, rfl⟩ := autoRefresh_ok he
      cases hc
    next =>
      obtain ⟨seconds, -, hc⟩ := map_ok h
      cases hc
    next =>
      obtain ⟨pos, -, hc⟩ := map_ok h
      cases hc
    next =>
      obtain ⟨pos, -, hc⟩ := map_ok h
      cases hc
    next =>
      obtain ⟨e, he, hc⟩ := map_ok h
      obtain ⟨toast, rfl⟩ := dismissal_ok he
      cases hc

end LogDesk.Command
