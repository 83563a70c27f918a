import LogDesk.Proofs.Console.Tray

/-! The timers of toasts: tasks that do not hold the console. A timer waits until its toast's time is
over, and then takes it down if it is still up. -/

namespace LogDesk.Console

variable {ς σ : Type}

/-- The timer of a toast has just been begun, or waits for the toast's time to be over. -/
inductive Timing (r : Raised) (now : Nat) : Tasks.Status Unit Stage → Prop where
  | fresh (h : r.time = now) :
    Timing r now (.ready (.expire r.id r.toast.notification.timeout))
  | waits (h : now ≤ r.due) : Timing r now (.sleeping r.due (.handle (.dismissToast r.id)))

def Timer (s : State ς σ) (i : Nat) (r : Raised) : Prop :=
  ∃ status, s.tasks[i]? = some (.handler false status) ∧ Timing r s.now status

def timedId : Tasks.Status Unit Stage → Option Uuid
  | .ready (.expire id _) | .sleeping _ (.handle (.dismissToast id)) => some id
  | _ => none

theorem Timing.timedId_eq {r : Raised} {now : Nat} {status : Tasks.Status Unit Stage}
    (h : Timing r now status) : timedId status = some r.id := by
  cases h <;> rfl

theorem Timing.id_eq {r r' : Raised} {now now' : Nat} {status : Tasks.Status Unit Stage}
    (h : Timing r now status) (h' : Timing r' now' status) : r.id = r'.id :=
  Option.some.inj (h.timedId_eq.symm.trans h'.timedId_eq)

/-- Whether a task, if it is the timer of a toast, has no turn before a moment. -/
def timerRests (moment : Nat) : Tasks.Task Unit Reload Stage → Bool
  | .handler false (.ready _) => false
  | .handler false (.sleeping till _) => moment ≤ till
  | _ => true

def TimersRest (s : State ς σ) (moment : Nat) : Prop := ∀ t ∈ s.tasks, timerRests moment t = true

/-- The timers of the toasts in `rs`, of which those in `removed` have been taken down and those in
`dismissed` by the user. -/
structure Timed (s : State ς σ) (rs : List Raised) (removed dismissed : List Uuid) : Prop where
  shape : ∀ (i : Nat) status, s.tasks[i]? = some (.handler false status) →
    (∃ answer, status = .finished answer) ∨ ∃ r ∈ rs, Timing r s.now status
  unique : ∀ r ∈ rs, ∀ i j, Timer s i r → Timer s j r → i = j
  expired : ∀ r ∈ rs, (∀ i, ¬Timer s i r) → r.due ≤ s.now ∧ r.id ∈ removed
  kept : ∀ r ∈ rs, r.id ∈ removed → ∀ i, Timer s i r → r.id ∈ dismissed
  dismissed : ∀ id ∈ dismissed, id ∈ removed

section
variable {s s' : State ς σ} {rs : List Raised} {removed dismissed : List Uuid}

/-- Raised toasts have identifiers of their own. -/
theorem raised_eq (hn : (rs.map Raised.id).Nodup) {r r' : Raised} (hr : r ∈ rs) (hr' : r' ∈ rs)
    (h : r.id = r'.id) : r = r' :=
  List.inj_on_of_nodup_map hn hr hr' h

/-- Where no timer has its turn now, a toast is up as long as its time is not over and the user has not
dismissed it. -/
theorem Timed.up_iff (h : Timed s rs removed dismissed) (hq : TimersRest s (s.now + 1)) {r : Raised}
    (hr : r ∈ rs) : r.id ∉ removed ↔ s.now < r.due ∧ r.id ∉ dismissed := by
  constructor
  · intro hm
    refine ⟨?_, fun hd => hm (h.dismissed _ hd)⟩
    by_cases ht : ∃ i, Timer s i r
    · obtain ⟨i, status, hi, ht⟩ := ht
      have hrest := hq _ (List.mem_of_getElem? hi)
      cases ht with
      | fresh => cases hrest
      | waits => simpa [timerRests] using hrest
    · exact absurd (h.expired r hr (not_exists.mp ht)).2 hm
  · rintro ⟨hnow, hd⟩ hm
    by_cases ht : ∃ i, Timer s i r
    · obtain ⟨i, ht⟩ := ht
      exact hd (h.kept r hr hm i ht)
    · have hle := (h.expired r hr (not_exists.mp ht)).1
      omega

/-- The same timers, perhaps later. -/
theorem Timed.keep (h : Timed s rs removed dismissed) (hn : s.now ≤ s'.now)
    (hshape : ∀ (i : Nat) status, s'.tasks[i]? = some (.handler false status) →
      (∃ answer, status = .finished answer) ∨ ∃ r ∈ rs, Timing r s'.now status)
    (ht : ∀ r ∈ rs, ∀ i, Timer s' i r ↔ Timer s i r) : Timed s' rs removed dismissed where
  shape := hshape
  unique r hr i j hi hj := h.unique r hr i j ((ht r hr i).mp hi) ((ht r hr j).mp hj)
  expired r hr hno := by
    obtain ⟨hd, hm⟩ := h.expired r hr fun i hi => hno i ((ht r hr i).mpr hi)
    exact ⟨hd.trans hn, hm⟩
  kept r hr hm i hi := h.kept r hr hm i ((ht r hr i).mp hi)
  dismissed := h.dismissed

theorem Timed.same (h : Timed s rs removed dismissed) (hn : s'.now = s.now)
    (ht : ∀ (i : Nat) status, s'.tasks[i]? = some (.handler false status) ↔
      s.tasks[i]? = some (.handler false status)) : Timed s' rs removed dismissed := by
  refine h.keep (Nat.le_of_eq hn.symm) (fun i status hi => ?_) fun r _ i => ?_
  · rw [hn]
    exact h.shape i status ((ht i status).mp hi)
  · simp only [Timer, ht, hn]

/-- Time passes, but not beyond the moment at which a timer has its turn. -/
theorem Timed.wait (h : Timed s rs removed dismissed) {ms : Nat}
    (hw : ms = 0 ∨ TimersRest s (s.now + ms)) :
    Timed { s with now := s.now + ms } rs removed dismissed := by
  have later {i : Nat} {status : Tasks.Status Unit Stage} {r : Raised}
      (hi : s.tasks[i]? = some (.handler false status)) :
      Timing r (s.now + ms) status ↔ Timing r s.now status := by
    rcases hw with rfl | hw
    · exact Iff.rfl
    · have hrest := hw _ (List.mem_of_getElem? hi)
      constructor
      · intro ht
        cases ht with
        | fresh => cases hrest
        | waits hle => exact .waits (Nat.le_of_add_right_le hle)
      · intro ht
        cases ht with
        | fresh => cases hrest
        | waits => exact .waits (by simpa [timerRests] using hrest)
  refine h.keep (Nat.le_add_right _ _) (fun i status hi => ?_) fun r _ i => ?_
  · rcases h.shape i status hi with hf | ⟨r, hr, ht⟩
    · exact .inl hf
    · exact .inr ⟨r, hr, (later hi).mpr ht⟩
  · constructor
    · rintro ⟨status, hi, ht⟩
      exact ⟨status, hi, (later hi).mp ht⟩
    · rintro ⟨status, hi, ht⟩
      exact ⟨status, hi, (later hi).mpr ht⟩

/-- The timer of a toast begins to wait. -/
theorem Timed.begins (h : Timed s rs removed dismissed) (hn : (rs.map Raised.id).Nodup) {k : Nat}
    {r : Raised} (hr : r ∈ rs) (ht : Timer s k r) (hnow : s'.now = s.now) (hle : s.now ≤ r.due)
    (hk : s'.tasks[k]? = some (.handler false (.sleeping r.due (.handle (.dismissToast r.id)))))
    (ho : ∀ i, i ≠ k → ∀ status, s'.tasks[i]? = some (.handler false status) ↔
      s.tasks[i]? = some (.handler false status)) : Timed s' rs removed dismissed := by
  have hself : Timing r s'.now (.sleeping r.due (.handle (.dismissToast r.id))) :=
    .waits (hnow.symm ▸ hle)
  refine h.keep (Nat.le_of_eq hnow.symm) (fun i status hi => ?_) fun r' hr' i => ?_
  · by_cases hik : i = k
    · subst hik
      rw [hk] at hi
      cases hi
      exact .inr ⟨r, hr, hself⟩
    · rw [hnow]
      exact h.shape i status ((ho i hik status).mp hi)
  · by_cases hik : i = k
    · subst hik
      constructor
      · rintro ⟨status, hi, ht'⟩
        rw [hk] at hi
        cases hi
        exact raised_eq hn hr hr' (hself.id_eq ht') ▸ ht
      · rintro ⟨status, hi, ht'⟩
        obtain ⟨status₀, hi₀, ht₀⟩ := ht
        rw [hi] at hi₀
        cases hi₀
        exact raised_eq hn hr hr' (ht₀.id_eq ht') ▸ ⟨_, hk, hself⟩
    · simp only [Timer, ho i hik, hnow]

/-- The timer of a toast has its last turn. -/
theorem Timed.ends (h : Timed s rs removed dismissed) (hn : (rs.map Raised.id).Nodup) {k : Nat}
    {r : Raised} (hr : r ∈ rs) (ht : Timer s k r) (hnow : s'.now = s.now) (hdue : r.due ≤ s.now)
    {answer : Bool} (hk : s'.tasks[k]? = some (.handler false (.finished answer)))
    (ho : ∀ i, i ≠ k → ∀ status, s'.tasks[i]? = some (.handler false status) ↔
      s.tasks[i]? = some (.handler false status)) {removed' : List Uuid}
    (hm : ∀ id, id ∈ removed' ↔ id ∈ removed ∨ id = r.id) : Timed s' rs removed' dismissed := by
  have other (r' : Raised) (i : Nat) : Timer s' i r' ↔ i ≠ k ∧ Timer s i r' := by
    by_cases hik : i = k
    · subst hik
      simp only [ne_eq, not_true, false_and, iff_false]
      rintro ⟨status, hi, ht'⟩
      rw [hk] at hi
      cases hi
      cases ht'
    · simp only [Timer, ho i hik, hnow, ne_eq, hik, not_false_eq_true, true_and]
  refine ⟨fun i status hi => ?_, fun r' hr' i j hi hj => ?_, fun r' hr' hno => ?_,
    fun r' hr' hm' i hi => ?_, fun id hid => (hm id).mpr (.inl (h.dismissed id hid))⟩
  · by_cases hik : i = k
    · subst hik
      rw [hk] at hi
      cases hi
      exact .inl ⟨_, rfl⟩
    · rw [hnow]
      exact h.shape i status ((ho i hik status).mp hi)
  · exact h.unique r' hr' i j ((other r' i).mp hi).2 ((other r' j).mp hj).2
  · rw [hnow, hm]
    by_cases he : r' = r
    · subst he
      exact ⟨hdue, .inr rfl⟩
    · obtain ⟨hd, hm'⟩ := h.expired r' hr' fun i hi => by
        by_cases hik : i = k
        · subst hik
          obtain ⟨status, hi, ht'⟩ := hi
          obtain ⟨status₀, hi₀, ht₀⟩ := ht
          rw [hi] at hi₀
          cases hi₀
          exact he (raised_eq hn hr' hr (ht'.id_eq ht₀))
        · exact hno i ((other r' i).mpr ⟨hik, hi⟩)
      exact ⟨hd, .inl hm'⟩
  · obtain ⟨hik, hi⟩ := (other r' i).mp hi
    rcases (hm _).mp hm' with hm' | he
    · exact h.kept r' hr' hm' i hi
    · obtain rfl := raised_eq hn hr' hr he
      exact absurd (h.unique r' hr' i k hi ht) hik

/-- A task that is no timer has its turn. It may dismiss a toast, and raises new ones. -/
theorem Timed.acts (h : Timed s rs removed dismissed) {new : List Raised}
    (hn : ((rs ++ new).map Raised.id).Nodup) (hnow : s'.now = s.now) (htime : ∀ r ∈ new, r.time = s.now)
    (ht : ∀ (i : Nat) status, s'.tasks[i]? = some (.handler false status) ↔
      s.tasks[i]? = some (.handler false status) ∨ ∃ n r, new[n]? = some r ∧
        i = s.tasks.length + n ∧ status = .ready (.expire r.id r.toast.notification.timeout))
    {gone : Option Uuid} {removed' dismissed' : List Uuid} (hr : ∀ id ∈ removed, id ∈ rs.map Raised.id)
    (hr' : ∀ id, id ∈ removed' ↔ id ∈ removed ∨ gone = some id ∧ id ∈ rs.map Raised.id)
    (hd' : ∀ id, id ∈ dismissed' ↔ id ∈ dismissed ∨ gone = some id ∧ id ∈ rs.map Raised.id) :
    Timed s' (rs ++ new) removed' dismissed' := by
  have hfresh : ∀ r ∈ new, r.id ∉ rs.map Raised.id := by
    intro r hr hm
    rw [List.map_append, List.nodup_append] at hn
    exact hn.2.2 _ hm _ (List.mem_map_of_mem hr) rfl
  have old {r : Raised} {i : Nat} (hmem : r ∈ rs ++ new) (hi : Timer s i r) :
      r ∈ rs ∧ i < s.tasks.length := by
    obtain ⟨status, hi, hs⟩ := hi
    refine ⟨?_, (List.getElem?_eq_some_iff.mp hi).1⟩
    rcases h.shape i status hi with ⟨answer, rfl⟩ | ⟨r₀, hr₀, hs₀⟩
    · cases hs
    · exact raised_eq hn (List.mem_append_left _ hr₀) hmem (hs₀.id_eq hs) ▸ hr₀
  have timer {r : Raised} (hmem : r ∈ rs ++ new) (i : Nat) :
      Timer s' i r ↔ Timer s i r ∨ ∃ n, new[n]? = some r ∧ i = s.tasks.length + n := by
    constructor
    · rintro ⟨status, hi, hs⟩
      rcases (ht i status).mp hi with hi | ⟨n, r₀, hr₀, hin, rfl⟩
      · exact .inl ⟨status, hi, hnow ▸ hs⟩
      · have hmem₀ := List.mem_append_right rs (List.mem_of_getElem? hr₀)
        have hid : r₀.id = r.id := Option.some.inj hs.timedId_eq
        exact .inr ⟨n, raised_eq hn hmem₀ hmem hid ▸ hr₀, hin⟩
    · rintro (⟨status, hi, hs⟩ | ⟨n, hr, rfl⟩)
      · exact ⟨status, (ht i status).mpr (.inl hi), hnow.symm ▸ hs⟩
      · refine ⟨_, (ht _ _).mpr (.inr ⟨n, r, hr, rfl, rfl⟩), .fresh ?_⟩
        rw [hnow, htime r (List.mem_of_getElem? hr)]
  refine ⟨fun i status hi => ?_, fun r hmem i j hi hj => ?_, fun r hmem hno => ?_,
    fun r hmem hrem i hi => ?_, fun id hid => ?_⟩
  · rcases (ht i status).mp hi with hi | ⟨n, r, hr, -, rfl⟩
    · rw [hnow]
      exact (h.shape i status hi).imp id fun ⟨r, hr, hs⟩ => ⟨r, List.mem_append_left _ hr, hs⟩
    · have hmem := List.mem_of_getElem? hr
      exact .inr ⟨r, List.mem_append_right _ hmem, .fresh (by rw [hnow, htime r hmem])⟩
  · rcases (timer hmem i).mp hi with hi | ⟨n, hr, rfl⟩ <;>
      rcases (timer hmem j).mp hj with hj | ⟨n', hr', rfl⟩
    · exact h.unique r (old hmem hi).1 i j hi hj
    · exact absurd (List.mem_map_of_mem (old hmem hi).1) (hfresh r (List.mem_of_getElem? hr'))
    · exact absurd (List.mem_map_of_mem (old hmem hj).1) (hfresh r (List.mem_of_getElem? hr))
    · have hnew : new.Nodup := (List.Nodup.of_map _ hn).of_append_right
      obtain ⟨hlt, -⟩ := List.getElem?_eq_some_iff.mp hr
      rw [(List.getElem?_inj hlt hnew).mp (hr.trans hr'.symm)]
  · rcases List.mem_append.mp hmem with hold | hnew
    · obtain ⟨hdue, hrem⟩ := h.expired r hold fun i hi => hno i ((timer hmem i).mpr (.inl hi))
      exact ⟨hnow.symm ▸ hdue, (hr' _).mpr (.inl hrem)⟩
    · obtain ⟨n, hlt, hget⟩ := List.getElem_of_mem hnew
      exact absurd ((timer hmem _).mpr (.inr ⟨n, hget ▸ List.getElem?_eq_getElem hlt, rfl⟩)) (hno _)
  · have hrs : r.id ∈ rs.map Raised.id := ((hr' _).mp hrem).elim (hr _) (·.2)
    have hi' : Timer s i r := by
      rcases (timer hmem i).mp hi with hi | ⟨n, hget, -⟩
      · exact hi
      · exact absurd hrs (hfresh r (List.mem_of_getElem? hget))
    exact (hd' _).mpr (((hr' _).mp hrem).imp_left fun hrem => h.kept r (old hmem hi').1 hrem i hi')
  · exact (hr' id).mpr (((hd' id).mp hid).imp_left (h.dismissed id))

end

end LogDesk.Console
