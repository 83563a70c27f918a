import LogDesk.Proofs.Metronome.Orderly

/-! A repeating timer keeps time: when its ticks begin and end, and when its calls return. -/

namespace LogDesk.Metronome

open Tasks (haltTimeout)

theorem durations_after (period : Nat) (durations : List Nat) (run : List Move) :
    (after period (atFirst durations) run).world.durations =
      durations.drop (ticks period (atFirst durations) run).length := by
  induction run with
  | nil => rfl
  | cons m earlier ih =>
    rw [ticks, List.length_append, List.length_map, Nat.add_comm, ← List.drop_drop, ← ih]
    cases m with
    | turn i => exact turn_durations period _ i
    | ask e | wait ms => rfl

theorem begun_till {period : Nat} {s : State} {m : Move} {x : Tick} (h : begun? period s m = some x) :
    x.till = x.began + s.world.durations.head?.getD 0 := by
  cases m with
  | turn i =>
    obtain ⟨deed, -, h⟩ := Option.bind_eq_some_iff.mp h
    cases deed with
    | act | endTick => cases h
    | beginTick label =>
      cases h
      rfl
  | ask e | wait ms => cases h

theorem Tick.follow_times (s : State) (m : Move) (s' : State) (x : Tick) :
    (x.follow s m s').loop = x.loop ∧ (x.follow s m s').began = x.began ∧ (x.follow s m s').till = x.till := by
  unfold follow
  split <;> exact ⟨rfl, rfl, rfl⟩

theorem ticks_till (period : Nat) (durations : List Nat) (run : List Move) :
    ∀ (k : Nat) (x : Tick), (ticks period (atFirst durations) run).reverse[k]? = some x →
      x.till = x.began + durations[k]?.getD 0 := by
  induction run with
  | nil => simp [ticks]
  | cons m earlier ih =>
    intro k x hx
    rw [ticks, List.reverse_append, ← List.map_reverse, List.getElem?_append] at hx
    split at hx
    · rw [List.getElem?_map] at hx
      obtain ⟨y, hy, rfl⟩ := Option.map_eq_some_iff.mp hx
      obtain ⟨-, hbegan, htill⟩ := y.follow_times (after period (atFirst durations) earlier) m
        (step period (after period (atFirst durations) earlier) m)
      rw [hbegan, htill]
      exact ih k y hy
    next hk =>
      rw [List.length_map, List.length_reverse] at hk hx
      cases hnew : begun? period (after period (atFirst durations) earlier) m with
      | none => simp [hnew] at hx
      | some y =>
        rw [hnew] at hx
        obtain ⟨hzero, rfl⟩ : k - (ticks period (atFirst durations) earlier).length = 0 ∧ y = x := by
          cases hd : k - (ticks period (atFirst durations) earlier).length with
          | zero => exact ⟨rfl, by simpa [hd] using hx⟩
          | succ n => simp [hd] at hx
        have hlen : k = (ticks period (atFirst durations) earlier).length := by omega
        rw [begun_till hnew, durations_after, List.head?_drop, hlen]

section
variable {period : Nat} {s : State} {call : Option (Nat × Stand)} {past : List Tick} {cs : List Call}

def LastStop (cs : List Call) : Prop := ∃ c ∈ cs.head?, c.errand = .stop

theorem Call.follow_errand (s : State) (m : Move) (s' : State) (c : Call) :
    (c.follow s m s').errand = c.errand := by
  unfold follow
  split <;> rfl

theorem LastStop.follow (h : LastStop cs) (s : State) (m : Move) (s' : State) :
    LastStop (cs.map (·.follow s m s')) := by
  obtain ⟨c, hc, he⟩ := h
  refine ⟨c.follow s m s', ?_, (c.follow_errand s m s').trans he⟩
  rw [List.head?_map, Option.mem_def.mp hc]
  rfl

/-- The turns of a stop that finds nothing to stop. -/
theorem Turns.stopped {i : Nat} {call' : Option (Nat × Stand)} {loop' : Option Loop} {new : Option Tick}
    (ht : Turns period s i call none call' loop' new) (h : Kept period s call none none past cs)
    (hstop : LastStop cs) : loop' = none ∧ new = none := by
  obtain ⟨c, hc, hstop⟩ := hstop
  have hp := h.answers.pends
  cases ht with
  | queue | decline | stop | finish => exact ⟨rfl, rfl⟩
  | start label =>
    obtain ⟨c', rest, rfl, -, -, -, herrand, -⟩ := hp
    cases hc
    cases herrand.symm.trans hstop
  | restart label l deadline loop hd =>
    obtain ⟨c', rest, rfl, -, -, -, herrand, -⟩ := hp
    cases hc
    cases herrand.symm.trans hstop

theorem Kept.stopped (hp : 0 < period) (h : Kept period s call none none past cs) (hstop : LastStop cs)
    {m : Move} (ha : Allows s m) (hm : m.asksStart = false) :
    (begun? period s m).toList ++ past.map (·.follow s m (step period s m)) = past ∧
      ∃ call', Kept period (step period s m) call' none none past
        ((asked? s past m).toList ++ cs.map (·.follow s m (step period s m))) ∧
        LastStop ((asked? s past m).toList ++ cs.map (·.follow s m (step period s m))) := by
  have hsame : past.map (·.follow s m (step period s m)) = past := map_follow_closed h.loops.closed
  cases m with
  | turn i =>
    cases he : s.enabled i with
    | false =>
      obtain ⟨hnone, -, hturn⟩ := h.turn_none he
      rw [hnone, hsame]
      exact ⟨rfl, call, hturn, hstop.follow _ _ _⟩
    | true =>
      obtain ⟨call', loop', new, current', past', ht, hnew, hheard, hturn⟩ := h.turn hp he
      obtain ⟨rfl, rfl⟩ := ht.stopped h hstop
      obtain rfl : current' = none := hturn.loops.idle rfl
      obtain rfl : past = past' := hsame.symm.trans hheard
      rw [hnew, hsame]
      exact ⟨rfl, call', hturn, hstop.follow _ _ _⟩
  | ask e =>
    obtain ⟨-, -, hask⟩ := h.ask ha
    refine ⟨hsame, _, hask, _, rfl, ?_⟩
    cases e with
    | start label => cases hm
    | stop => rfl
  | wait ms =>
    refine ⟨hsame, call, ?_, hstop.follow _ _ _⟩
    rw [map_follow_other (by simp)]
    exact h.wait ha

end

theorem Orderly.suffix {period : Nat} {s₀ : State} {later earlier : List Move}
    (h : Orderly period s₀ (later ++ earlier)) : Orderly period s₀ earlier := by
  induction later with
  | nil => exact h
  | cons m later ih => exact ih h.1

theorem ticks_stopped {period : Nat} (hp : 0 < period) {durations : List Nat} {later earlier : List Move}
    {c : Call} {before : List Call} (h : Orderly period (atFirst durations) (later ++ earlier))
    (hcalls : calls period (atFirst durations) earlier = c :: before) (hstop : c.errand = .stop)
    (hret : c.returned.isSome = true) (hno : ∀ m ∈ later, m.asksStart = false) :
    ticks period (atFirst durations) (later ++ earlier) = ticks period (atFirst durations) earlier := by
  have hearlier : ∃ call, Kept period (after period (atFirst durations) earlier) call none none
      (ticks period (atFirst durations) earlier) (calls period (atFirst durations) earlier) := by
    obtain ⟨call, loop, current, past, hticks, hkept⟩ := kept_after hp durations earlier h.suffix
    have hpends := hkept.answers.pends
    rw [hcalls] at hpends
    match call, hpends with
    | none, ⟨_, hnone⟩ =>
      obtain rfl := hnone c rfl hstop
      obtain rfl := hkept.loops.idle rfl
      rw [hticks]
      exact ⟨none, hkept⟩
    | some (i, stand), ⟨_, _, hcs, _, hpending, _⟩ =>
      cases hcs
      rw [hpending] at hret
      cases hret
  have hall : ticks period (atFirst durations) (later ++ earlier) = ticks period (atFirst durations) earlier ∧
      ∃ call, Kept period (after period (atFirst durations) (later ++ earlier)) call none none
        (ticks period (atFirst durations) earlier) (calls period (atFirst durations) (later ++ earlier)) ∧
        LastStop (calls period (atFirst durations) (later ++ earlier)) := by
    induction later with
    | nil =>
      obtain ⟨call, hkept⟩ := hearlier
      exact ⟨rfl, call, hkept, c, by rw [List.nil_append, hcalls]; rfl, hstop⟩
    | cons m later ih =>
      obtain ⟨horderly, hallows⟩ := h
      obtain ⟨hm, hno⟩ := List.forall_mem_cons.mp hno
      obtain ⟨hticks, call, hkept, hlast⟩ := ih horderly hno
      obtain ⟨hsame, call', hkept', hlast'⟩ := hkept.stopped hp hlast hallows hm
      rw [List.cons_append, ticks, calls, hticks]
      exact ⟨hsame, call', hkept', hlast'⟩
  exact hall.1

/-- A timer that keeps time, after a run that has come to the state `s`. -/
structure Timely (period : Nat) (durations : List Nat) (run : List Move) (s : State) (xs : List Tick)
    (cs : List Call) : Prop where
  /-- Each tick takes as long as it is given. -/
  lasts : ∀ (k : Nat) (x : Tick), xs.reverse[k]? = some x → x.till = x.began + durations[k]?.getD 0
  /-- Each start puts a loop into the slot, and all ticks are of such loops. -/
  starts : ∀ c ∈ cs, c.returned.isSome = true → c.loop.isSome = c.errand.isStart
  owned : ∀ x ∈ xs, ∃ c ∈ cs, c.loop = some x.loop
  /-- The first tick of a loop begins when its start returns. -/
  first : ∀ c ∈ cs, ∀ l t, c.loop = some l → c.returned = some t →
    (∀ x, (ofLoop l xs).getLast? = some x → x.began = t) ∧ (AtRest s → ofLoop l xs ≠ [])
  /-- The ticks of a loop begin nearly a period apart at least, and when the one before has ended. -/
  apart : ∀ l, (ofLoop l xs).IsChain fun y x =>
    x.began + period ≤ y.began + Tasks.lateness ∧ x.fate = .ended x.till ∧ x.till ≤ y.began
  /-- While no tick takes longer than a period, they begin on the beat, and none is left out. -/
  punctual : ∀ c ∈ cs, ∀ l t, c.loop = some l → c.returned = some t →
    (∀ x ∈ ofLoop l xs, x.till ≤ x.began + period) →
      (ofLoop l xs).map (·.began) = (beats period t (ofLoop l xs).length).reverse ∧
        (AtRest s → s.slot = some l → s.now < t + (ofLoop l xs).length * period)
  /-- No tick begins after a stop has returned until the timer is started again. -/
  stopped : ∀ later earlier c before, run = later ++ earlier →
    calls period (atFirst durations) earlier = c :: before → c.errand = .stop → c.returned.isSome = true →
      (∀ m ∈ later, m.asksStart = false) → xs = ticks period (atFirst durations) earlier
  /-- No two ticks overlap, be they of one loop or of two. -/
  alone : xs.Pairwise Apart
  /-- A tick ends on time, if it is not broken off. -/
  ends : ∀ x ∈ xs, (∀ t, x.fate = .ended t → t = x.till) ∧ (x.fate = .underway → AtRest s → s.now < x.till)
  aborts : ∀ x ∈ xs, ∀ t, x.fate = .aborted t →
    ∃ c ∈ cs, c.busy = some { x with fate := .underway } ∧ t = c.asked + haltTimeout ∧ t ≤ x.till
  /-- A call returns when it is due, and what has become of the tick that it found under way. -/
  returns : ∀ c ∈ cs, ∀ t, c.returned = some t → t = c.due ∧ Spent c xs
  waits : ∀ c ∈ cs, c.returned = none → s.now ≤ c.due ∧ (AtRest s → s.now < c.due)
  /-- Time does not stand still for ever. -/
  settles : ∃ n, ∀ turns, Eager period s turns → turns.length ≤ n

theorem mem_opened {c : Call} {cs : List Call} {l : Nat} (hc : c ∈ cs) (hl : c.loop = some l) :
    (l, c.due) ∈ opened cs := by
  refine List.mem_filterMap.mpr ⟨c, hc, ?_⟩
  rw [hl]
  rfl

section
variable {period : Nat} {s : State} {call : Option (Nat × Stand)} {loop : Option Loop} {current : Option Tick}
  {past : List Tick} {cs : List Call}

/-- A loop that has come to rest has had its first tick. -/
theorem Kept.first (h : Kept period s call loop current past cs) (hr : AtRest s) {l start : Nat}
    (ho : (l, start) ∈ opened cs) : ofLoop l (current.toList ++ past) ≠ [] := by
  by_cases hl : ∀ L ∈ loop, L.task ≠ l
  · exact h.loops.begun _ ho hl
  have hrest := h.rest hr
  obtain ⟨L, rfl, rfl⟩ : ∃ L, loop = some L ∧ L.task = l := by simpa using hl
  have hcourse := h.loops.course L rfl start ho
  cases hphase : L.phase with
  | fresh => exact absurd hphase (hrest.fresh L rfl)
  | idle due =>
    rw [hphase] at hcourse
    obtain ⟨rfl, rfl, hfree, -, -⟩ := hcourse
    have hdue := hrest.idle L rfl _ hphase
    intro hnil
    rw [Option.toList_none, List.nil_append] at hnil
    rw [hnil] at hfree hdue
    exact absurd hfree (Nat.not_le.mpr hdue)
  | ticking next till work =>
    rw [hphase] at hcourse
    obtain ⟨x, rfl, hx, -⟩ := hcourse
    change ofLoop L.task (x :: past) ≠ []
    rw [ofLoop_cons, if_pos hx]
    exact List.cons_ne_nil _ _
  | «over» =>
    rw [hphase] at hcourse
    exact hcourse.elim

/-- A loop that has come to rest waits for its next beat. -/
theorem Kept.next (h : Kept period s call loop current past cs) (hr : AtRest s) {l start : Nat}
    (ho : (l, start) ∈ opened cs) (hslot : s.slot = some l)
    (hshort : ∀ x ∈ ofLoop l (current.toList ++ past), x.till ≤ x.began + period) :
    s.now < start + (ofLoop l (current.toList ++ past)).length * period := by
  have hrest := h.rest hr
  obtain ⟨hdue, hfree, -⟩ := (h.loops.onTime _ ho).punctual hshort
  rw [← hdue]
  obtain ⟨L, rfl, rfl⟩ : ∃ L, loop = some L ∧ L.task = l := by
    rw [h.seen.slot] at hslot
    split at hslot
    · cases hslot
    · exact Option.map_eq_some_iff.mp hslot
  have hcourse := h.loops.course L rfl start ho
  cases hphase : L.phase with
  | fresh => exact absurd hphase (hrest.fresh L rfl)
  | idle due =>
    rw [hphase] at hcourse
    obtain ⟨rfl, rfl, -⟩ := hcourse
    exact hrest.idle L rfl _ hphase
  | ticking next till work =>
    rw [hphase] at hcourse
    obtain ⟨x, rfl, hx, rfl, -⟩ := hcourse
    have htill := hrest.ticking L rfl _ _ _ hphase
    have hown : ofLoop L.task ((some x).toList ++ past) = x :: ofLoop L.task past := by
      change ofLoop L.task (x :: past) = _
      rw [ofLoop_cons, if_pos hx]
    rw [hown] at hfree ⊢
    exact htill.trans_le hfree
  | «over» =>
    rw [hphase] at hcourse
    exact hcourse.elim

theorem Kept.ends (h : Kept period s call loop current past cs) {x : Tick} (hx : x ∈ current.toList ++ past) :
    (∀ t, x.fate = .ended t → t = x.till) ∧ (x.fate = .underway → AtRest s → s.now < x.till) := by
  rcases List.mem_append.mp hx with hx | hx
  · obtain rfl : current = some x := Option.mem_toList.mp hx
    have hfate := (h.loops.underway x rfl).1
    refine ⟨fun t ht => ?_, fun _ hr => ?_⟩
    · rw [hfate] at ht
      cases ht
    · obtain ⟨L, next, work, rfl, -, hphase⟩ := h.loops.ticking
      exact (h.rest hr).ticking L rfl _ _ _ hphase
  · refine ⟨h.loops.ended x hx, fun hfate => ?_⟩
    obtain ⟨t, ht, -⟩ := h.loops.closed x hx
    rw [hfate] at ht
    cases ht

theorem Kept.waits (h : Kept period s call loop current past cs) {c : Call} (hc : c ∈ cs)
    (hret : c.returned = none) : s.now ≤ c.due ∧ (AtRest s → s.now < c.due) := by
  have hp := h.answers.pends
  have hno (hr : c.returned.isSome = true) : False := by
    rw [hret] at hr
    cases hr
  match call, hp, h with
  | none, hp, _ => exact (hno (hp.1 c hc)).elim
  | some (i, stand), ⟨c', rest, hcs, _, _, hrest, hstands⟩, h =>
    subst hcs
    rcases List.mem_cons.mp hc with rfl | hc
    · constructor
      · cases stand with
        | asked e | queued e => exact hstands.2.2.2.early
        | halting e l deadline => exact hstands.2.2.early
        | leaving answer => exact hstands.1.le
      · intro hr
        obtain ⟨e, l, deadline, rfl, hdeadline, x, rfl, htill⟩ := (h.rest hr).waits i stand rfl
        obtain ⟨-, rfl, hw⟩ := hstands
        rw [Call.due_busy (hw.busy x rfl)]
        exact Nat.lt_min.mpr ⟨htill, hdeadline⟩
    · exact (hno (hrest c hc)).elim

end

/-- However a timer is started and stopped, whatever its ticks take and in whatever order the turns are
taken: it keeps time. -/
theorem timely {period : Nat} (hp : 5 < period) (durations : List Nat) (run : List Move)
    (h : Orderly period (atFirst durations) run) :
    Timely period durations run (after period (atFirst durations) run) (ticks period (atFirst durations) run)
      (calls period (atFirst durations) run) := by
  have hpos : 0 < period := Nat.zero_lt_of_lt hp
  obtain ⟨call, loop, current, past, hticks, hkept⟩ := kept_after hpos durations run h
  have hlasts := ticks_till period durations run
  have honTime {l start : Nat} (ho : (l, start) ∈ opened (calls period (atFirst durations) run)) :
      OnTime period start (ofLoop l (current.toList ++ past)) := hkept.loops.onTime _ ho
  have hreturned {c : Call} (hc : c ∈ calls period (atFirst durations) run) {t : Nat} (ht : c.returned = some t) :
      t = c.due ∧ Done c (current.toList ++ past) :=
    (hkept.answers.returned c hc t ht).imp_right (·.mono (List.subset_append_right _ _))
  rw [hticks] at hlasts ⊢
  constructor
  · exact hlasts
  · intro c hc hr
    obtain ⟨t, ht⟩ := Option.isSome_iff_exists.mp hr
    exact (hreturned hc ht).2.started
  · intro x hx
    obtain ⟨start, ho⟩ := hkept.loops.owned x hx
    obtain ⟨c, hc, ho⟩ := List.mem_filterMap.mp ho
    obtain ⟨l, hl, ho⟩ := Option.map_eq_some_iff.mp ho
    cases ho
    exact ⟨c, hc, hl⟩
  · intro c hc l t hl ht
    obtain rfl := (hreturned hc ht).1
    have ho := mem_opened hc hl
    exact ⟨fun x hx => (honTime ho).first hx, fun hr => hkept.first hr ho⟩
  · intro l
    by_cases ho : ∃ start, (l, start) ∈ opened (calls period (atFirst durations) run)
    · obtain ⟨start, ho⟩ := ho
      exact (honTime ho).apart
    · have hnil : ofLoop l (current.toList ++ past) = [] := by
        refine List.filter_eq_nil_iff.mpr fun x hx hl => ho ?_
        obtain ⟨start, ho⟩ := hkept.loops.owned x hx
        exact ⟨start, of_decide_eq_true hl ▸ ho⟩
      rw [hnil]
      exact .nil
  · intro c hc l t hl ht hshort
    obtain rfl := (hreturned hc ht).1
    have ho := mem_opened hc hl
    exact ⟨((honTime ho).punctual hshort).2.2, fun hr hslot => hkept.next hr ho hslot hshort⟩
  · rintro later earlier c before rfl hcalls hstop hret hno
    rw [← hticks]
    exact ticks_stopped hpos h hcalls hstop hret hno
  · exact hkept.loops.apart
  · exact fun x hx => hkept.ends hx
  · intro x hx t ht
    rcases List.mem_append.mp hx with hx | hx
    · have hfate := (hkept.loops.underway x (Option.mem_toList.mp hx)).1
      rw [hfate] at ht
      cases ht
    · exact hkept.answers.aborted x hx t ht
  · intro c hc t ht
    exact (hreturned hc ht).imp_right (·.spent)
  · exact fun c hc hret => hkept.waits hc hret
  · exact ⟨_, fun turns he => hkept.seen.settles hp he⟩

/-- A timer whose first tick is a little too long, so that the second one begins 3 ms late and the third
one 997 ms after that. The timer is stopped in the third tick, and the stop waits for it. Then it is started
again, and once more in a tick that is broken off. -/
def restarted : List Move := List.reverse
  [.ask (.start "a"), .turn 0, .turn 0, .turn 0, .turn 1, .turn 1, .wait 1003, .turn 1, .turn 1, .turn 1,
    .wait 997, .turn 1, .wait 500, .ask .stop, .turn 2, .turn 2, .wait 1000, .turn 1, .turn 1, .turn 2, .turn 2,
    .wait 100, .ask (.start "b"), .turn 3, .turn 3, .turn 3, .turn 4, .turn 4, .wait 200, .ask (.start "c"),
    .turn 5, .turn 5, .wait 5000, .turn 5, .turn 5, .turn 6, .turn 6]

theorem timely_restarted :
    let s₀ := atFirst [1003, 0, 1500, 6000]
    (5 < 1000 ∧ Orderly 1000 s₀ restarted) ∧
      ticks 1000 s₀ restarted = [⟨6, 8800, 8800, .underway⟩, ⟨4, 3600, 9600, .aborted 8800⟩,
        ⟨1, 2000, 3500, .ended 3500⟩, ⟨1, 1003, 1003, .ended 1003⟩, ⟨1, 0, 1003, .ended 1003⟩] ∧
      (calls 1000 s₀ restarted).map (fun c => (c.asked, c.returned)) =
        [(3800, some 8800), (3600, some 3600), (2500, some 3500), (0, some 0)] ∧
      Timely 1000 [1003, 0, 1500, 6000] restarted (after 1000 s₀ restarted) (ticks 1000 s₀ restarted)
        (calls 1000 s₀ restarted) :=
  ⟨⟨by decide, by decide +kernel⟩, by decide +kernel, by decide +kernel,
    timely (by decide) _ restarted (by decide +kernel)⟩

end LogDesk.Metronome
