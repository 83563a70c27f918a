import LogDesk.Metronome
import LogDesk.Proofs.Tasks.Schedule

/-! How far there is one loop of the timer at a time. A start keeps the timer to itself until the loop
before has ended, so that starts never make two loops run. A stop gives the timer up as soon as it has
taken the loop out of the slot: until that loop has ended, a start can put another one beside it. -/

namespace LogDesk.Tasks

variable {ω β τ σ : Type}

def Task.Live : Task β τ σ → Prop
  | handler .. => False
  | loop _ _ .over => False
  | loop .. => True

theorem Task.Live.eq_loop {t : Task β τ σ} (h : t.Live) : ∃ beat c phase, t = .loop beat c phase := by
  cases t with
  | handler => exact h.elim
  | loop beat c phase => exact ⟨beat, c, phase, rfl⟩

/-- What a turn may make of a task without a change to who has which loop. -/
inductive Quiet : Option (Task β τ σ) → Option (Task β τ σ) → Prop where
  | same (t : Option (Task β τ σ)) : Quiet t t
  | turned (beat : β) {c c' : Bool} {phase phase' : Phase τ} (hc : c = true → c' = true)
    (h : (Task.loop beat c' phase' : Task β τ σ).Live → (Task.loop beat c phase : Task β τ σ).Live) :
    Quiet (some (.loop beat c phase)) (some (.loop beat c' phase'))
  | moved (holds : Bool) {status status' : Status β σ} (h : ∀ l d r, status ≠ .halting l d r)
    (h' : ∀ l d r, status' ≠ .halting l d r) :
    Quiet (some (.handler holds status)) (some (.handler holds status'))
  | begun (holds : Bool) (stage : σ) : Quiet none (some (.handler holds (.ready stage)))

namespace Quiet

variable {t t' : Option (Task β τ σ)}

/-- A loop stays the loop that it is, and told to end if it was. -/
theorem loop {beat : β} {c : Bool} {phase : Phase τ} (h : Quiet (some (.loop beat c phase)) t') :
    ∃ c' phase', t' = some (.loop beat c' phase') ∧ (c = true → c' = true) := by
  cases h with
  | same => exact ⟨c, phase, rfl, id⟩
  | turned beat hc _ => exact ⟨_, _, rfl, hc⟩

theorem halting (h : Quiet t t') {holds : Bool} {l d : Nat} {r : Request β σ} :
    t' = some (.handler holds (.halting l d r)) ↔ t = some (.handler holds (.halting l d r)) := by
  cases h with
  | same => exact Iff.rfl
  | turned => simp
  | moved holds hst hst' => simp [hst, hst']
  | begun => simp

theorem live {x : Task β τ σ} (h : Quiet t (some x)) (hx : x.Live) : ∃ y, t = some y ∧ y.Live := by
  cases h with
  | same => exact ⟨x, rfl, hx⟩
  | turned beat hc hphase => exact ⟨_, rfl, hphase hx⟩
  | moved => exact hx.elim
  | begun => exact hx.elim

end Quiet

namespace State

def Halts (s : State ω β τ σ) (i l deadline : Nat) (r : Request β σ) : Prop :=
  ∃ holds, s.tasks[i]? = some (.handler holds (.halting l deadline r))

def Told (s : State ω β τ σ) (l : Nat) : Prop :=
  ∃ beat phase, s.tasks[l]? = some (.loop beat true phase)

def Unclaimed (s : State ω β τ σ) : Prop :=
  ∀ i l deadline beat next, ¬ s.Halts i l deadline (.start beat next)

/-- A stop has told the loop to end and waits for that, but not for long. -/
def Stopping (s : State ω β τ σ) (l : Nat) : Prop :=
  s.Told l ∧ ∃ i deadline a b, s.Halts i l deadline (.stop a b) ∧ deadline ≤ s.now + haltTimeout

/-- Each loop is in the slot or someone waits for its end. -/
structure Single (s : State ω β τ σ) : Prop where
  slotted : ∀ l, s.slot = some l → ∃ beat c phase, s.tasks[l]? = some (.loop beat c phase)
  kept : ∀ l t, s.tasks[l]? = some t → t.Live → s.slot = some l ∨ ∃ i d r, s.Halts i l d r
  told : ∀ i l d r, s.Halts i l d r → s.Told l
  soon : ∀ i l d r, s.Halts i l d r → d ≤ s.now + haltTimeout
  /-- A start that waits has the timer to itself. -/
  claimed : ∀ i l d beat next, s.Halts i l d (.start beat next) →
    s.slot = none ∧ s.lock.head? = some i
  asked : ∀ i l d a b, ¬ s.Halts i l d (.inspect a b)

variable {s s' : State ω β τ σ}

theorem halts_unique {i l l' d d' : Nat} {r r' : Request β σ} (h : s.Halts i l d r)
    (h' : s.Halts i l' d' r') : l = l' := by
  obtain ⟨holds, h⟩ := h
  obtain ⟨holds', h'⟩ := h'
  rw [h] at h'
  cases h'
  rfl

/-- What a loop is held by: a stop, the slot, or the start that has the timer to itself. -/
theorem Single.holder (h : s.Single) {l : Nat} {t : Task β τ σ} (ht : s.tasks[l]? = some t)
    (hl : t.Live) : s.Stopping l ∨ s.slot = some l ∨
      (s.slot = none ∧ ∃ i d beat next, s.Halts i l d (.start beat next) ∧ s.lock.head? = some i) := by
  rcases h.kept l t ht hl with hs | ⟨i, d, r, hi⟩
  · exact .inr (.inl hs)
  · cases r with
    | start beat next =>
      obtain ⟨hs, hk⟩ := h.claimed i l d beat next hi
      exact .inr (.inr ⟨hs, i, d, beat, next, hi, hk⟩)
    | stop a b => exact .inl ⟨h.told i l d _ hi, i, d, a, b, hi, h.soon i l d _ hi⟩
    | inspect a b => exact absurd hi (h.asked i l d a b)

/-- Of two loops that have not ended, a stop waits for one. -/
theorem Single.stopping (h : s.Single) {l l' : Nat} {t t' : Task β τ σ} (hne : l ≠ l')
    (ht : s.tasks[l]? = some t) (hl : t.Live) (ht' : s.tasks[l']? = some t') (hl' : t'.Live) :
    s.Stopping l ∨ s.Stopping l' := by
  rcases h.holder ht hl with hs | hs | ⟨hn, i, d, beat, next, hi, hk⟩
  · exact .inl hs
  · rcases h.holder ht' hl' with hs' | hs' | ⟨hn, -⟩
    · exact .inr hs'
    · rw [hs] at hs'
      exact absurd (Option.some.inj hs') hne
    · rw [hs] at hn
      cases hn
  · rcases h.holder ht' hl' with hs' | hs' | ⟨-, i', d', beat', next', hi', hk'⟩
    · exact .inr hs'
    · rw [hn] at hs'
      cases hs'
    -- Both are waited for by the first in the queue, who waits for one loop only.
    · rw [hk] at hk'
      cases hk'
      exact absurd (halts_unique hi hi') hne

theorem Single.quiet (h : s.Single) (ht : ∀ j : Nat, Quiet s.tasks[j]? s'.tasks[j]?)
    (hs : s'.slot = s.slot) (hk : ∀ i, s.lock.head? = some i → s'.lock.head? = some i)
    (hn : s.now ≤ s'.now) : s'.Single := by
  have loops {l : Nat} {beat : β} {c : Bool} {phase : Phase τ}
      (hl : s.tasks[l]? = some (.loop beat c phase)) :
      ∃ c' phase', s'.tasks[l]? = some (.loop beat c' phase') ∧ (c = true → c' = true) :=
    (hl ▸ ht l).loop
  have halts (i l d : Nat) (r : Request β σ) : s'.Halts i l d r ↔ s.Halts i l d r :=
    exists_congr fun _ => (ht i).halting
  constructor
  · intro l hl
    obtain ⟨beat, c, phase, hloop⟩ := h.slotted l (hs ▸ hl)
    obtain ⟨c', phase', hloop', -⟩ := loops hloop
    exact ⟨beat, c', phase', hloop'⟩
  · intro l x hl hlive
    obtain ⟨y, hl', hlive'⟩ := (hl ▸ ht l).live hlive
    rw [hs]
    simpa only [halts] using h.kept l y hl' hlive'
  · intro i l d r hi
    obtain ⟨beat, phase, hloop⟩ := h.told i l d r ((halts i l d r).mp hi)
    obtain ⟨c', phase', hloop', hc⟩ := loops hloop
    obtain rfl := hc rfl
    exact ⟨beat, phase', hloop'⟩
  · intro i l d r hi
    have := h.soon i l d r ((halts i l d r).mp hi)
    omega
  · intro i l d beat next hi
    obtain ⟨hnone, hhead⟩ := h.claimed i l d beat next ((halts ..).mp hi)
    exact ⟨hs.trans hnone, hk i hhead⟩
  · intro i l d a b hi
    exact h.asked i l d a b ((halts ..).mp hi)

theorem Single.setTask (h : s.Single) {i : Nat} {t₀ t : Task β τ σ} (hi : s.tasks[i]? = some t₀)
    (hq : Quiet (some t₀) (some t)) : (s.setTask i t).Single := by
  refine h.quiet (fun j => ?_) rfl (fun _ hk => hk) (Nat.le_refl _)
  by_cases hj : j = i
  · subst hj
    rwa [s.setTask_get_self t hi, hi]
  · rw [s.setTask_get_ne t hj]
    exact .same _

theorem Single.withWorld (h : s.Single) (world : ω) : ({ s with world }).Single :=
  h.quiet (fun _ => .same _) rfl (fun _ hk => hk) (Nat.le_refl _)

theorem Single.wait (h : s.Single) (ms : Nat) : ({ s with now := s.now + ms }).Single :=
  h.quiet (fun _ => .same _) rfl (fun _ hk => hk) (Nat.le_add_right _ _)

theorem Single.lineUp (h : s.Single) (i : Nat) : ({ s with lock := s.lock ++ [i] }).Single := by
  refine h.quiet (fun _ => .same _) rfl (fun j hj => ?_) (Nat.le_refl _)
  simp [List.head?_append, hj]

theorem Single.spawn (h : s.Single) (x : Spawn σ) : (s.spawn x).Single := by
  refine h.quiet (fun j => ?_) rfl (fun _ hk => hk) (Nat.le_refl _)
  have htasks : (s.spawn x).tasks = s.tasks ++ [.handler x.holds (.ready x.stage)] := rfl
  rw [htasks]
  rcases Nat.lt_trichotomy j s.tasks.length with hj | rfl | hj
  · rw [List.getElem?_append_left hj]
    exact .same _
  · rw [List.getElem?_concat_length, List.getElem?_eq_none (Nat.le_refl _)]
    exact .begun _ _
  · rw [List.getElem?_eq_none (by omega), List.getElem?_eq_none (by simp; omega)]
    exact .same _

theorem Single.spawns (xs : List (Spawn σ)) (h : s.Single) : (xs.foldl State.spawn s).Single := by
  induction xs generalizing s with
  | nil => exact h
  | cons x xs ih => exact ih (h.spawn x)

theorem Single.cancel (h : s.Single) (l : Nat) : (s.cancel l).Single := by
  unfold State.cancel
  split
  next beat c phase hl => exact h.setTask hl (.turned beat (fun _ => rfl) (by cases phase <;> exact id))
  next => exact h

theorem Single.abort (h : s.Single) (l : Nat) : (s.abort l).Single := by
  unfold State.abort
  split
  next beat c phase hl => exact h.setTask hl (.turned beat id False.elim)
  next => exact h

theorem halts_setTask {i : Nat} {t₀ t : Task β τ σ} (hi : s.tasks[i]? = some t₀) {j l d : Nat}
    {r : Request β σ} : (s.setTask i t).Halts j l d r ↔
      (j = i ∧ ∃ holds, t = .handler holds (.halting l d r)) ∨ (j ≠ i ∧ s.Halts j l d r) := by
  unfold Halts
  by_cases hj : j = i
  · subst hj
    simp [s.setTask_get_self t hi]
  · simp [s.setTask_get_ne t hj, hj]

/-- A turn of a handler has to do with no loop but by the timer. -/
theorem setTask_loop {i l : Nat} {holds holds' : Bool} {status status' : Status β σ}
    (hi : s.tasks[i]? = some (.handler holds status)) {beat : β} {c : Bool} {phase : Phase τ} :
    (s.setTask i (.handler holds' status')).tasks[l]? = some (.loop beat c phase) ↔
      s.tasks[l]? = some (.loop beat c phase) := by
  by_cases hl : l = i
  · subst hl
    simp [s.setTask_get_self _ hi, hi]
  · rw [s.setTask_get_ne _ hl]

theorem Single.release (h : s.Single) (hu : s.Unclaimed) : s.release.Single where
  slotted := h.slotted
  kept := h.kept
  told := h.told
  soon := h.soon
  claimed i l d beat next hi := absurd hi (hu i l d beat next)
  asked := h.asked

theorem Single.startLoop (h : s.Single) (hu : s.Unclaimed) (hn : s.slot = none) (beat : β) :
    (s.startLoop beat).Single := by
  have old {j : Nat} {t : Task β τ σ} (hj : s.tasks[j]? = some t) :
      (s.startLoop beat).tasks[j]? = some t := s.startLoop_get_some beat hj
  have new {j : Nat} {t : Task β τ σ} (hj : (s.startLoop beat).tasks[j]? = some t) :
      s.tasks[j]? = some t ∨ (j = s.tasks.length ∧ t = .loop beat false .fresh) :=
    (s.addTask_get _).mp hj
  have halts (i l d : Nat) (r : Request β σ) :
      (s.startLoop beat).Halts i l d r ↔ s.Halts i l d r := by
    constructor
    · rintro ⟨holds, hi⟩
      rcases new hi with hi | ⟨-, hi⟩
      · exact ⟨holds, hi⟩
      · cases hi
    · rintro ⟨holds, hi⟩
      exact ⟨holds, old hi⟩
  constructor
  · intro l hl
    cases hl
    exact ⟨beat, false, .fresh, List.getElem?_concat_length⟩
  · intro l t hl hlive
    rcases new hl with hl | ⟨rfl, -⟩
    · rcases h.kept l t hl hlive with hs | hh
      · rw [hn] at hs
        cases hs
      · simpa only [halts] using Or.inr hh
    · exact .inl rfl
  · intro i l d r hi
    obtain ⟨beat', phase, hl⟩ := h.told i l d r ((halts ..).mp hi)
    exact ⟨beat', phase, old hl⟩
  · intro i l d r hi
    exact h.soon i l d r ((halts ..).mp hi)
  · intro i l d beat' next hi
    exact absurd ((halts ..).mp hi) (hu i l d beat' next)
  · intro i l d a b hi
    exact h.asked i l d a b ((halts ..).mp hi)

/-- A handler takes the loop out of the slot and waits for its end. -/
theorem Single.take (h : s.Single) {i l : Nat} {holds : Bool} {r : Request β σ} (hs : s.slot = some l)
    (hl : s.Told l) (hi : s.tasks[i]? = some (.handler holds (.queued r)))
    (hr : ∀ beat next, r = .start beat next → s.lock.head? = some i) (ha : ∀ a b, r ≠ .inspect a b) :
    (({ s with slot := none }).setTask i
      (.handler holds (.halting l (s.now + haltTimeout) r))).Single := by
  set s' := ({ s with slot := none }).setTask i (.handler holds (.halting l (s.now + haltTimeout) r))
  -- The handlers that wait are those that waited before, and this one.
  have hi' : ({ s with slot := none }).tasks[i]? = some (.handler holds (.queued r)) := hi
  have mine : s'.Halts i l (s.now + haltTimeout) r := (halts_setTask hi').mpr (.inl ⟨rfl, holds, rfl⟩)
  have others {j m d : Nat} {r' : Request β σ} (hj : s.Halts j m d r') : s'.Halts j m d r' := by
    refine (halts_setTask hi').mpr (.inr ⟨?_, hj⟩)
    rintro rfl
    obtain ⟨holds', hj⟩ := hj
    rw [hi] at hj
    cases hj
  have halts {j m d : Nat} {r' : Request β σ} (hj : s'.Halts j m d r') :
      (j = i ∧ m = l ∧ d = s.now + haltTimeout ∧ r' = r) ∨ s.Halts j m d r' := by
    rcases (halts_setTask hi').mp hj with ⟨rfl, holds', ht⟩ | ⟨-, hj⟩
    · cases ht
      exact .inl ⟨rfl, rfl, rfl, rfl⟩
    · exact .inr hj
  have told {m : Nat} (hm : s.Told m) : s'.Told m := by
    obtain ⟨beat, phase, hm⟩ := hm
    exact ⟨beat, phase, (setTask_loop hi').mpr hm⟩
  constructor
  · intro m hm
    cases hm
  · intro m t hm hlive
    obtain ⟨beat, c, phase, rfl⟩ := hlive.eq_loop
    rcases h.kept m _ ((setTask_loop hi').mp hm) hlive with hk | ⟨j, d, r', hj⟩
    -- The slot held the loop that is waited for now, and no other.
    · rw [hs] at hk
      cases hk
      exact .inr ⟨i, _, r, mine⟩
    · exact .inr ⟨j, d, r', others hj⟩
  · intro j m d r' hj
    rcases halts hj with ⟨-, rfl, -, -⟩ | hj
    · exact told hl
    · exact told (h.told j m d r' hj)
  · intro j m d r' hj
    rcases halts hj with ⟨-, -, rfl, -⟩ | hj
    · exact Nat.le_refl _
    · exact h.soon j m d r' hj
  · intro j m d beat next hj
    rcases halts hj with ⟨rfl, -, -, hrr⟩ | hj
    · exact ⟨rfl, hr beat next hrr.symm⟩
    · obtain ⟨hn, -⟩ := h.claimed j m d beat next hj
      rw [hs] at hn
      cases hn
  · intro j m d a b hj
    rcases halts hj with ⟨-, -, -, hrr⟩ | hj
    · exact ha a b hrr.symm
    · exact h.asked j m d a b hj

/-- A handler goes on whose loop has ended. -/
theorem Single.leave (h : s.Single) {i l d : Nat} {holds : Bool} {r : Request β σ}
    (hi : s.tasks[i]? = some (.handler holds (.halting l d r)))
    (hl : ∀ t, s.tasks[l]? = some t → ¬ t.Live) (next : σ) :
    (s.setTask i (.handler holds (.ready next))).Single := by
  have halts {j m d' : Nat} {r' : Request β σ} :
      (s.setTask i (.handler holds (.ready next))).Halts j m d' r' ↔ j ≠ i ∧ s.Halts j m d' r' := by
    simp [halts_setTask hi]
  constructor
  · intro m hm
    obtain ⟨beat, c, phase, hloop⟩ := h.slotted m hm
    exact ⟨beat, c, phase, (setTask_loop hi).mpr hloop⟩
  · intro m t hm hlive
    obtain ⟨beat, c, phase, rfl⟩ := hlive.eq_loop
    have hm' := (setTask_loop hi).mp hm
    rcases h.kept m _ hm' hlive with hk | ⟨j, d', r', hj⟩
    · exact .inl hk
    · refine .inr ⟨j, d', r', halts.mpr ⟨?_, hj⟩⟩
      rintro rfl
      rw [halts_unique hj ⟨holds, hi⟩] at hm'
      exact hl _ hm' hlive
  · intro j m d' r' hj
    obtain ⟨beat, phase, hloop⟩ := h.told j m d' r' (halts.mp hj).2
    exact ⟨beat, phase, (setTask_loop hi).mpr hloop⟩
  · intro j m d' r' hj
    exact h.soon j m d' r' (halts.mp hj).2
  · intro j m d' beat next' hj
    exact h.claimed j m d' beat next' (halts.mp hj).2
  · intro j m d' a b hj
    exact h.asked j m d' a b (halts.mp hj).2

theorem abort_not_live (s : State ω β τ σ) (l : Nat) :
    ∀ t, (s.abort l).tasks[l]? = some t → ¬ t.Live := by
  intro t ht hlive
  unfold State.abort at ht
  split at ht
  next beat c phase hl =>
    rw [s.setTask_get_self _ hl] at ht
    cases ht
    exact hlive
  next hno =>
    obtain ⟨beat, c, phase, rfl⟩ := hlive.eq_loop
    exact hno beat c phase ht

theorem startLoop_setTask {i : Nat} {t₀ : Task β τ σ} (hi : s.tasks[i]? = some t₀) (t : Task β τ σ)
    (beat : β) : (s.startLoop beat).release.setTask i t = (s.setTask i t).release.startLoop beat := by
  obtain ⟨hlt, -⟩ := List.getElem?_eq_some_iff.mp hi
  simp [State.startLoop, State.release, State.setTask, State.addTask, List.set_append_left _ _ hlt]

theorem Single.unclaimed_of_slot (h : s.Single) {l : Nat} (hs : s.slot = some l) : s.Unclaimed := by
  intro i m d beat next hi
  obtain ⟨hn, -⟩ := h.claimed i m d beat next hi
  rw [hs] at hn
  cases hn

theorem Single.unclaimed_of_head (h : s.Single) {i : Nat} (hk : s.lock.head? = some i)
    (hi : ∀ l d beat next, ¬ s.Halts i l d (.start beat next)) : s.Unclaimed := by
  intro j m d beat next hj
  obtain ⟨-, hk'⟩ := h.claimed j m d beat next hj
  rw [hk] at hk'
  cases hk'
  exact hi m d beat next hj

theorem Single.halt (h : s.Single) {i l : Nat} {holds : Bool} {r : Request β σ} (hs : s.slot = some l)
    (hi : s.tasks[i]? = some (.handler holds (.queued r)))
    (hr : ∀ beat next, r = .start beat next → s.lock.head? = some i) (ha : ∀ a b, r ≠ .inspect a b) :
    ((({ s with slot := none }).cancel l).setTask i
      (.handler holds (.halting l (s.now + haltTimeout) r))).Single := by
  obtain ⟨beat, c, phase, hl⟩ := h.slotted l hs
  have hc : s.cancel l = s.setTask l (.loop beat true phase) := by rw [State.cancel, hl]
  have hc' : ({ s with slot := none }).cancel l = { s.cancel l with slot := none } := by
    rw [hc, State.cancel, hl]
    rfl
  have hsc : (s.cancel l).slot = some l := by
    rw [hc]
    exact hs
  have hlc : (s.cancel l).Told l := by
    rw [hc]
    exact ⟨beat, phase, s.setTask_get_self _ hl⟩
  have hrc (beat' : β) (next : σ) (he : r = .start beat' next) : (s.cancel l).lock.head? = some i := by
    rw [hc]
    exact hr beat' next he
  rw [hc', ← s.cancel_now l]
  exact (h.cancel l).take hsc hlc (s.cancel_get_handler l hi) hrc ha

theorem Single.grant (h : s.Single) {i : Nat} {holds : Bool} {r : Request β σ}
    (hi : s.tasks[i]? = some (.handler holds (.queued r))) (hk : s.lock.head? = some i) :
    (s.grant i holds r).Single := by
  have hq (next : σ) : Quiet (some (.handler holds (.queued r) : Task β τ σ))
      (some (.handler holds (.ready next))) := .moved holds (by simp) (by simp)
  have unclaimed (next : σ) : (s.setTask i (.handler holds (.ready next))).Unclaimed := by
    apply (h.setTask hi (hq next)).unclaimed_of_head hk
    simp [halts_setTask hi]
  have ready (next : σ) : (s.setTask i (.handler holds (.ready next))).release.Single :=
    (h.setTask hi (hq next)).release (unclaimed next)
  unfold State.grant
  split
  next beat next l hs => exact h.halt hs hi (fun _ _ _ => hk) (by simp)
  next beat next hs =>
    dsimp only
    rw [startLoop_setTask hi]
    exact (ready next).startLoop (unclaimed next) hs beat
  next a b l hs => exact (h.release (h.unclaimed_of_slot hs)).halt hs hi (by simp) (by simp)
  next a b hs => exact ready b
  next a b _ => exact ready _

theorem Single.proceed (h : s.Single) {i l d : Nat} {holds : Bool} {r : Request β σ}
    (hi : s.tasks[i]? = some (.handler holds (.halting l d r))) :
    ((s.abort l).proceed i holds r).Single := by
  have hia := s.abort_get_handler l hi
  have ready (next : σ) : ((s.abort l).setTask i (.handler holds (.ready next))).Single :=
    (h.abort l).leave hia (s.abort_not_live l) next
  cases r with
  | start beat next =>
    obtain ⟨hs, hk⟩ := (h.abort l).claimed i l d beat next ⟨holds, hia⟩
    have hu : ((s.abort l).setTask i (.handler holds (.ready next))).Unclaimed := by
      apply (ready next).unclaimed_of_head hk
      simp [halts_setTask hia]
    rw [State.proceed, startLoop_setTask hia]
    exact ((ready next).release hu).startLoop hu hs beat
  | stop a b => exact ready a
  | inspect a b => exact ready b

theorem Single.oblige (h : s.Single) {i : Nat} {holds : Bool} {status : Status β σ}
    (hi : s.tasks[i]? = some (.handler holds status)) (hst : ∀ l d r, status ≠ .halting l d r)
    (w : Wish β σ) : (s.oblige i holds w).Single := by
  have hput {status' : Status β σ} (hst' : ∀ l d r, status' ≠ .halting l d r) :
      (s.setTask i (.handler holds status')).Single := h.setTask hi (.moved holds hst hst')
  cases w with
  | finish | sleep => exact hput (by simp)
  | start | stop | inspect => exact (hput (by simp)).lineUp i

end State

namespace Program

open State

variable (p : Program ω β τ σ) {s : State ω β τ σ}

theorem perform_single (h : s.Single) {i : Nat} {holds : Bool} {status : Status β σ}
    (hi : s.tasks[i]? = some (.handler holds status)) (hst : ∀ l d r, status ≠ .halting l d r)
    (stage : σ) : (p.perform s i holds stage).Single := by
  unfold perform
  split
  · exact h.setTask hi (.moved holds hst (by simp))
  · exact .spawns _ ((h.withWorld (p.act s.now i stage s.world).world).oblige hi hst _)

theorem turn_single (h : s.Single) {i : Nat} {beat : β} {c : Bool} {phase : Phase τ}
    (hi : s.tasks[i]? = some (.loop beat c phase)) : (p.turn s i beat c phase).Single := by
  cases phase with
  | fresh => exact h.setTask hi (.turned beat id fun _ => trivial)
  | idle due =>
    unfold turn
    dsimp only
    split
    · exact h.setTask hi (.turned beat (fun _ => rfl) fun _ => trivial)
    next hc =>
      have hc' : c = false := by simpa using hc
      split
      · exact h.setTask hi (.turned beat (by simp [hc']) fun _ => trivial)
      · exact (h.withWorld _).setTask hi (.turned beat (by simp [hc']) fun _ => trivial)
  | ticking next till work => exact (h.withWorld _).setTask hi (.turned beat id fun _ => trivial)
  | «over» => exact h

theorem resume_single (h : s.Single) (i : Nat) : (p.resume s i).Single := by
  unfold resume
  split
  · exact h
  next he =>
    split
    next holds stage hi => exact p.perform_single h hi (by simp) stage
    next holds till stage hi => exact p.perform_single h hi (by simp) stage
    next holds r hi => exact h.grant hi (by simpa [State.enabled, hi] using he)
    next holds l deadline r hi => exact h.proceed hi
    next beat c phase hi => exact p.turn_single h hi
    next => exact h

theorem move_single (h : s.Single) (m : Move σ) : (p.move s m).Single := by
  cases m with
  | resume i => exact p.resume_single h i
  | spawn x => exact h.spawn x
  | wait ms => exact h.wait ms

theorem moves_single (ms : List (Move σ)) (h : s.Single) : (p.moves s ms).Single := by
  induction ms generalizing s with
  | nil => exact h
  | cons m ms ih => exact ih (p.move_single h m)

/-- Before anything has begun. -/
theorem single_start (w : ω) : ({ world := w } : State ω β τ σ).Single := by
  constructor <;> simp [Halts]

theorem live_of_workAt {l : Nat} (h : (s.workAt l).isSome) : ∃ t, s.tasks[l]? = some t ∧ t.Live := by
  obtain ⟨work, hw⟩ := Option.isSome_iff_exists.mp h
  obtain ⟨t, ht, hw⟩ := Option.bind_eq_some_iff.mp hw
  refine ⟨t, ht, ?_⟩
  unfold Task.work? at hw
  split at hw
  · trivial
  · cases hw

/-- Whatever is asked of the timer and in whatever order the turns are taken: of two ticks that are
under way at once, one is of a loop that a stop has told to end and waits for. -/
theorem stopping_of_two_ticks (w : ω) (ms : List (Move σ)) {l l' : Nat} (hne : l ≠ l')
    (h : ((p.moves { world := w } ms).workAt l).isSome)
    (h' : ((p.moves { world := w } ms).workAt l').isSome) :
    (p.moves { world := w } ms).Stopping l ∨ (p.moves { world := w } ms).Stopping l' := by
  have hs := p.moves_single ms (single_start w)
  obtain ⟨t, ht, hl⟩ := live_of_workAt h
  obtain ⟨t', ht', hl'⟩ := live_of_workAt h'
  exact hs.stopping hne ht hl ht' hl'

/-- A stop that waits for the tick of one loop, and a start that puts another loop beside it. The calls
are the tasks 0, 2 and 3, and the loops are 1 and 4. -/
def restart : List (Move Metronome.Stage) :=
  [.spawn ⟨false, .start "a"⟩, .resume 0, .resume 0, .resume 1, .resume 1,
    .spawn ⟨false, .stop⟩, .resume 2, .resume 2,
    .spawn ⟨false, .start "b"⟩, .resume 3, .resume 3, .resume 4, .resume 4]

theorem stopping_of_two_ticks_restart :
    let s := (Metronome.program 5000).moves { world := ⟨[3000, 3000], []⟩ } restart
    s.workAt 1 = some ("a", 0) ∧ s.workAt 4 = some ("b", 0) ∧ (s.Stopping 1 ∨ s.Stopping 4) :=
  ⟨rfl, rfl, stopping_of_two_ticks _ _ restart (by decide) rfl rfl⟩

end Program

end LogDesk.Tasks
