import LogDesk.Proofs.Console.Timers
import LogDesk.Proofs.Tasks.Alone

/-! Toasts over a run. Each has a timer, a task that does not hold the console. Timers and the user take
toasts down in any order: the tray holds those that neither has come for, and the view is told of each
toast once when it goes up and once when it goes down. -/

namespace LogDesk

namespace Tray

variable {t : Tray} {id : Uuid}

theorem find?_eq_none (t : Tray) (id : Uuid) : t.find? id = none ↔ id ∉ t.toasts.map (·.id) := by
  simp [find?, List.find?_eq_none]

/-- With distinct identifiers the toast of an identifier is the only one taken away. -/
theorem remove_toasts (h : (t.toasts.map (·.id)).Nodup) :
    (t.remove id).toasts = t.toasts.filter (·.id ≠ id) := by
  change t.toasts.eraseP (·.id = id) = _
  generalize t.toasts = toasts at h
  induction toasts with
  | nil => rfl
  | cons toast rest ih =>
    obtain ⟨hn, hrest⟩ := List.nodup_cons.mp h
    by_cases he : toast.id = id
    · have hall : rest.filter (·.id ≠ id) = rest := List.filter_eq_self.mpr fun other ho => by
        have hne : other.id ≠ toast.id := fun e => hn (List.mem_map.mpr ⟨other, ho, e⟩)
        simpa [he] using hne
      rw [List.eraseP_cons_of_pos (by simpa using he), List.filter_cons_of_neg (by simpa using he), hall]
    · rw [List.eraseP_cons_of_neg (by simpa using he), List.filter_cons_of_pos (by simpa using he),
        ih hrest]

end Tray

namespace Toasting

/-- What a tray holds, and what the view was told of it, when some toasts have been raised. -/
structure Tracks (x : Toasting) (rs : List Raised) : Prop where
  shown : x.shown = rs
  up : x.tray.toasts = (rs.filter fun r => r.id ∉ x.removed).map (·.toast)
  removed : ∀ id ∈ x.removed, id ∈ rs.map Raised.id
  once : x.removed.Nodup

variable {x : Toasting} {rs : List Raised} {id : Uuid}

theorem Tracks.up_iff (h : x.Tracks rs) :
    id ∈ x.tray.toasts.map (·.id) ↔ id ∈ rs.map Raised.id ∧ id ∉ x.removed := by
  rw [h.up]
  simp only [List.map_map, List.mem_map, List.mem_filter, decide_eq_true_eq]
  constructor
  · rintro ⟨r, ⟨hr, hn⟩, rfl⟩
    exact ⟨⟨r, hr, rfl⟩, hn⟩
  · rintro ⟨⟨r, hr, rfl⟩, hn⟩
    exact ⟨r, ⟨hr, hn⟩, rfl⟩

theorem Tracks.nodup (h : x.Tracks rs) (hn : (rs.map Raised.id).Nodup) :
    (x.tray.toasts.map (·.id)).Nodup := by
  rw [h.up, List.map_map]
  exact hn.sublist (List.filter_sublist.map _)

theorem Tracks.dismiss (h : x.Tracks rs) (hn : (rs.map Raised.id).Nodup) (id : Uuid) :
    (x.dismiss id).Tracks rs ∧
      ∀ id', id' ∈ (x.dismiss id).removed ↔ id' ∈ x.removed ∨ id' = id ∧ id ∈ rs.map Raised.id := by
  unfold Toasting.dismiss
  cases hf : x.tray.find? id with
  | none =>
    have hup := (Tray.find?_eq_none x.tray id).mp hf
    rw [h.up_iff] at hup
    refine ⟨h, fun id' => ⟨.inl, ?_⟩⟩
    rintro (hr | ⟨rfl, hr⟩)
    · exact hr
    · exact not_not.mp fun hm => hup ⟨hr, hm⟩
  | some toast =>
    have hup : id ∈ x.tray.toasts.map (·.id) := by
      rw [← not_not (a := id ∈ _), ← Tray.find?_eq_none, hf]
      simp
    obtain ⟨hr, hm⟩ := h.up_iff.mp hup
    refine ⟨⟨h.shown, ?_, ?_, ?_⟩, fun id' => ?_⟩
    · rw [Tray.remove_toasts (h.nodup hn), h.up, List.filter_map, List.filter_filter]
      congr 2
      funext r
      by_cases hi : r.toast.id = id <;> by_cases hm : r.toast.id ∈ x.removed <;> simp [Raised.id, hi, hm]
    · intro id' hid
      rcases List.mem_append.mp hid with hid | hid
      · exact h.removed id' hid
      · exact List.mem_singleton.mp hid ▸ hr
    · exact List.nodup_append.mpr ⟨h.once, List.nodup_singleton _, by
        intro a ha b hb
        rintro rfl
        exact hm (List.mem_singleton.mp hb ▸ ha)⟩
    · simp [hr]

theorem Tracks.raiseAll (h : x.Tracks rs) {now : Nat} {ns : List Notification}
    (hn : ((rs ++ x.tray.raises now ns).map Raised.id).Nodup) :
    (x.raiseAll now ns).Tracks (rs ++ x.tray.raises now ns) := by
  have fresh : ∀ r ∈ x.tray.raises now ns, r.id ∉ x.removed := by
    intro r hr hm
    rw [List.map_append, List.nodup_append] at hn
    exact hn.2.2 _ (h.removed _ hm) _ (List.mem_map_of_mem hr) rfl
  refine ⟨by rw [← h.shown]; rfl, ?_, ?_, h.once⟩
  · have hall : (x.tray.raises now ns).filter (fun r => r.id ∉ x.removed) = x.tray.raises now ns :=
      List.filter_eq_self.mpr fun r hr => by simpa using fresh r hr
    change x.tray.toasts ++ _ = ((rs ++ _).filter fun r => r.id ∉ x.removed).map _
    rw [List.filter_append, hall, List.map_append, ← h.up]
  · intro id hid
    rw [List.map_append]
    exact List.mem_append_left _ (h.removed id hid)

/-- The view is told of the toasts that leave the tray. -/
theorem Tracks.leaving (h : x.Tracks rs) (hn : (rs.map Raised.id).Nodup) (now : Nat)
    {gone : Option Uuid} {ns : List Notification} (hns : ∀ id, gone = some id → ns = []) :
    ((gone.elim x x.dismiss).raiseAll now ns).removed = x.removed ++
      (x.tray.toasts.filter
        (· ∉ ((gone.elim x x.dismiss).raiseAll now ns).tray.toasts)).map (·.id) := by
  have stay {toasts : List Toast} (hsub : ∀ t ∈ x.tray.toasts, t ∈ toasts) :
      x.tray.toasts.filter (· ∉ toasts) = [] :=
    List.filter_eq_nil_iff.mpr fun t ht => by simpa using hsub t ht
  cases gone with
  | none =>
    have hsub : ∀ t ∈ x.tray.toasts, t ∈ (x.raiseAll now ns).tray.toasts :=
      fun t ht => List.mem_append_left _ ht
    rw [Option.elim_none, stay hsub]
    exact (List.append_nil _).symm
  | some id =>
    rw [hns id rfl, raiseAll_nil, Option.elim_some, Toasting.dismiss]
    cases hf : x.tray.find? id with
    | none =>
      rw [stay fun _ ht => ht]
      exact (List.append_nil _).symm
    | some toast =>
      have hup : id ∈ x.tray.toasts.map (·.id) := by
        rw [← not_not (a := id ∈ _), ← Tray.find?_eq_none, hf]
        simp
      have hgone : x.tray.toasts.filter (· ∉ (x.tray.remove id).toasts) =
          x.tray.toasts.filter (·.id = id) := by
        refine List.filter_congr fun t ht => ?_
        simp [Tray.remove_toasts (h.nodup hn), ht]
      have hid : (x.tray.toasts.filter (·.id = id)).map (·.id) = [id] := by
        have hmap : (x.tray.toasts.filter (·.id = id)).map (·.id) =
            (x.tray.toasts.map (·.id)).filter (· = id) := by
          rw [List.filter_map]
          rfl
        rw [hmap, List.filter_eq, List.count_eq_one_of_mem (h.nodup hn) hup]
        rfl
      rw [hgone, hid]

end Toasting

namespace Console

variable {ς σ : Type}

theorem hands_holds {stage : Stage} {x : Tasks.Spawn Stage} (h : x ∈ stage.hands) : x.holds = true := by
  unfold Stage.hands at h
  split at h
  · split at h
    · rw [List.mem_singleton.mp h]
    · cases h
  · cases h

variable [LogService ς] [PreferenceStore σ]

def raises (s : State ς σ) (m : Move) : List Raised := s.world.tray.raises s.now (news s m)

/-- The toast that a move dismisses for the user. The timer of a toast does not hold the console. -/
def asksDismissal (s : State ς σ) : Move → Option Uuid
  | .turn i =>
    match s.tasks[i]? with
    | some (.handler true _) => dismisses s (.turn i)
    | _ => none
  | _ => none

def raised (s : State ς σ) : List Move → List Raised
  | [] => []
  | m :: earlier => raised s earlier ++ raises (after s earlier) m

/-- The toasts that the user has dismissed after they were raised. -/
def dismissed (s : State ς σ) : List Move → List Uuid
  | [] => []
  | m :: earlier =>
    (asksDismissal (after s earlier) m).toList.filter (· ∈ (raised s earlier).map Raised.id) ++
      dismissed s earlier

def Move.takes : Move → Nat
  | .wait ms => ms
  | _ => 0

/-- A run in which the console lives on and the timers of toasts have their turns in time. -/
def Punctual (s : State ς σ) : List Move → Prop
  | [] => True
  | m :: earlier => Punctual s earlier ∧ (after s earlier).alive = true ∧
    (m.takes = 0 ∨ TimersRest (after s earlier) ((after s earlier).now + m.takes))

instance (s : State ς σ) (moment : Nat) : Decidable (TimersRest s moment) :=
  inferInstanceAs (Decidable (∀ t ∈ s.tasks, timerRests moment t = true))

instance Punctual.decidable (s : State ς σ) : (ms : List Move) → Decidable (Punctual s ms)
  | [] => .isTrue trivial
  | _ :: earlier =>
    have := Punctual.decidable s earlier
    inferInstanceAs (Decidable (_ ∧ _ ∧ _))

section
variable {s : State ς σ} {rs : List Raised} {ds : List Uuid} {k : Nat}

end

end Console

end LogDesk
