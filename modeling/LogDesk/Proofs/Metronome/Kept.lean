import LogDesk.Proofs.Metronome.Answers

/-! What every move of an orderly run keeps: the state, the ticks and the calls so far fit together. -/

namespace LogDesk.Metronome

structure Kept (period : Nat) (s : State) (call : Option (Nat × Stand))
    (loop : Option Loop) (current : Option Tick) (past : List Tick) (cs : List Call) : Prop where
  seen : Shows s call loop
  loops : Loops period s.now (opened cs) loop current past
  answers : Answers s.now call loop current past cs
  numbers : ∀ c ∈ cs, c.task < s.tasks.length ∧ ∀ l, c.loop = some l → l < s.tasks.length
  gone : ∀ c ∈ cs, c.returned.isSome = true → s.isOver c.task = true

section
variable {period : Nat} {s s' : State} {i : Nat} {call call' : Option (Nat × Stand)}
  {loop loop' : Option Loop} {current new : Option Tick} {past : List Tick} {cs rest : List Call} {c : Call}
  {m : Move}

theorem Shows.isOver_called {stand : Stand} (h : Shows s (some (i, stand)) loop) : s.isOver i = false := by
  rw [Tasks.State.isOver, h.called]
  cases stand <;> rfl

theorem Shows.isOver_looped {L : Loop} (h : Shows s call (some L)) : s.isOver L.task = false := by
  obtain ⟨hloop, hphase⟩ := h.active.looped L rfl
  rw [Tasks.State.isOver, hloop]
  obtain ⟨task, label, told, phase⟩ := L
  cases phase <;> first | exact absurd rfl hphase | rfl

theorem Shows.isOver_other {j : Nat} (h : Shows s call loop) (hc : ∀ i stand, call = some (i, stand) → j ≠ i)
    (hl : ∀ L ∈ loop, j ≠ L.task) : s.isOver j = true := by
  unfold Tasks.State.isOver
  cases ht : s.tasks[j]? with
  | none => rfl
  | some t =>
    refine h.active.rest j t ht ?_ hl
    intro c hc'
    obtain ⟨⟨i, stand⟩, hcall, rfl⟩ := Option.map_eq_some_iff.mp hc'
    exact hc i stand hcall

theorem Turns.index (ht : Turns period s i call loop call' loop' new) :
    (∀ j stand', call' = some (j, stand') → ∃ stand, call = some (j, stand)) ∧
      ∀ L' ∈ loop', (∃ L ∈ loop, L'.task = L.task) ∨ L'.task = s.tasks.length := by
  have same {call : Option (Nat × Stand)} (j : Nat) (stand : Stand) (h : call = some (j, stand)) :
      ∃ stand, call = some (j, stand) := ⟨stand, h⟩
  have stays {loop : Option Loop} (L : Loop) (h : L ∈ loop) :
      (∃ L' ∈ loop, L.task = L'.task) ∨ L.task = s.tasks.length := .inl ⟨L, h, rfl⟩
  cases ht with
  | queue e loop => exact ⟨by simp, stays⟩
  | finish answer loop => exact ⟨by simp, stays⟩
  | start | restart => exact ⟨by simp, by simp [Loop.fresh]⟩
  | halt => exact ⟨by simp, by simp⟩
  | decline | stop => exact ⟨by simp, by simp⟩
  | settle | tick | quit | tock => exact ⟨same, by simp⟩

/-- What has ended does not come back. -/
theorem Turns.isOver (ht : Turns period s i call loop call' loop' new) (h : Shows s call loop)
    (h' : Shows s' call' loop') {j : Nat} (hj : j < s.tasks.length) (hover : s.isOver j = true) :
    s'.isOver j = true := by
  obtain ⟨hcall, hloop⟩ := ht.index
  refine h'.isOver_other ?_ ?_
  · rintro j' stand' hc' rfl
    obtain ⟨stand, rfl⟩ := hcall j stand' hc'
    rw [h.isOver_called] at hover
    cases hover
  · rintro L' hL' rfl
    rcases hloop L' hL' with ⟨L, rfl, hL⟩ | hnew
    · rw [hL, h.isOver_looped] at hover
      cases hover
    · omega

theorem Turns.begun (ht : Turns period s i call loop call' loop' new) (h : Shows s call loop) :
    begun? period s (.turn i) = new := by
  have hcall {stand : Stand} {loop : Option Loop} (h : Shows s (some (i, stand)) loop) :
      begun? period s (.turn i) = none := by
    change (s.deed? i).bind (tickOf? period s i) = none
    cases hd : s.deed? i with
    | none => rfl
    | some deed =>
      obtain ⟨stage, rfl, -⟩ := Tasks.Program.handler_deed h.called hd
      rfl
  have hloop {L : Loop} (h : Shows s call (some L)) : s.tasks[L.task]? = some (.loop L.label L.told L.phase) :=
    h.looped
  change (s.deed? i).bind (tickOf? period s i) = new
  cases ht with
  | queue | start | decline | halt | restart | stop | finish => exact hcall h
  | settle call label told => simp [Tasks.State.deed?, hloop h]
  | tick call label due till work hd ht =>
    simp [Tasks.State.deed?, Tasks.State.enabled, hloop h, hd, h.alive, tickOf?, program, Metronome.beginTick, ht]
  | quit call label due => simp [Tasks.State.deed?, hloop h]
  | tock call label told next till work ht =>
    simp [Tasks.State.deed?, Tasks.State.enabled, hloop h, ht, tickOf?]

theorem turn_durations (period : Nat) (s : State) (i : Nat) : ((program period).resume s i).world.durations =
    s.world.durations.drop (begun? period s (.turn i)).toList.length := by
  rw [Tasks.Program.resume_world]
  change _ = s.world.durations.drop ((s.deed? i).bind (tickOf? period s i)).toList.length
  cases s.deed? i with
  | none => rfl
  | some deed =>
    cases deed with
    | act stage => cases stage <;> rfl
    | beginTick label => rfl
    | endTick work => rfl

theorem Shows.workAt_looped {L : Loop} {next till : Nat} {work : String × Nat} (h : Shows s call (some L))
    (hp : L.phase = .ticking next till work) : s.workAt L.task = some work := by
  rw [Tasks.State.workAt, h.looped, Loop.entry, hp]
  rfl

theorem Shows.workAt_none {l : Nat} (h : Shows s call loop)
    (hno : ∀ L ∈ loop, L.task = l → ∀ next till work, L.phase ≠ .ticking next till work) : s.workAt l = none := by
  unfold Tasks.State.workAt
  cases ht : s.tasks[l]? with
  | none => rfl
  | some t =>
    change t.work? = none
    unfold Tasks.Task.work?
    split
    next label told next till work =>
      rcases h.active.cases ht rfl with ⟨status, -, he⟩ | ⟨L, hL, rfl, he⟩
      · cases he
      · injection he with _ _ hphase
        exact absurd hphase.symm (hno L hL rfl next till work)
    next => rfl

theorem Tick.follow_closed {x : Tick} {t : Nat} (h : x.fate.time? = some t) : x.follow s m s' = x := by
  rw [follow, if_neg]
  rintro ⟨hfate, -⟩
  rw [hfate] at h
  cases h

theorem map_follow_closed {now : Nat} (h : ∀ x ∈ past, ∃ t, x.fate.time? = some t ∧ t ≤ now) :
    past.map (·.follow s m s') = past := by
  refine (List.map_congr_left fun x hx => ?_).trans (List.map_id past)
  obtain ⟨t, ht, -⟩ := h x hx
  exact Tick.follow_closed ht

/-- As long as the loop is in the same tick, nothing becomes of any. -/
theorem Loops.follow_same {opened : List (Nat × Nat)} (h : Loops period s.now opened loop current past)
    (h' : Shows s' call' loop')
    (hl : ∀ L next till work, loop = some L → L.phase = .ticking next till work →
      ∃ L' ∈ loop', L'.task = L.task ∧ L'.phase = L.phase) :
    (current.toList ++ past).map (·.follow s m s') = current.toList ++ past := by
  rw [List.map_append, map_follow_closed h.closed]
  cases current with
  | none => rfl
  | some x =>
    obtain ⟨L, next, work, rfl, hx, hphase⟩ := h.ticking
    obtain ⟨L', rfl, hL', hp'⟩ := hl L _ _ _ rfl hphase
    have hwork := h'.workAt_looped (hp'.trans hphase)
    have hsame : x.follow s m s' = x := by
      rw [Tick.follow, if_neg]
      rintro ⟨-, hnone⟩
      rw [hx, ← hL', hwork] at hnone
      cases hnone
    rw [Option.toList_some, List.map_singleton, hsame]

/-- The tick under way is over. -/
theorem Loops.follow_closes {opened : List (Nat × Nat)} {x : Tick} (h : Loops period s.now opened loop (some x) past)
    (h' : Shows s' call' loop')
    (hno : ∀ L ∈ loop', L.task = x.loop → ∀ next till work, L.phase ≠ .ticking next till work) :
    ((some x).toList ++ past).map (·.follow s m s') =
      { x with fate := if m = .turn x.loop then .ended s.now else .aborted s.now } :: past := by
  rw [List.map_append, map_follow_closed h.closed, Option.toList_some, List.map_singleton, Tick.follow,
    if_pos ⟨(h.underway x rfl).1, h'.workAt_none hno⟩]
  rfl

theorem Call.follow_other (h : m ≠ .turn c.task) : c.follow s m s' = c := by
  rw [follow, if_neg h]

theorem Call.follow_same (hs : s'.slot = s.slot) (ho : s'.isOver c.task = s.isOver c.task) :
    c.follow s m s' = c := by
  by_cases hm : m = .turn c.task
  · rw [follow, if_pos hm, if_pos hs, if_pos ho]
  · exact follow_other hm

/-- No call that has returned takes a turn. -/
theorem Kept.ne_of_returned (h : Kept period s call loop current past cs) (he : s.enabled i = true)
    (hc : c ∈ cs) (hr : c.returned.isSome = true) : Move.turn i ≠ .turn c.task := by
  rintro ⟨⟩
  obtain ⟨t, ht, hlive⟩ := live_of_enabled he
  have hgone := h.gone c hc hr
  rw [Tasks.State.isOver, ht] at hgone
  exact absurd (hgone.symm.trans hlive) (by simp)

theorem map_follow_other (h : ∀ c ∈ cs, m ≠ .turn c.task) : cs.map (·.follow s m s') = cs :=
  (List.map_congr_left fun c hc => Call.follow_other (h c hc)).trans (List.map_id cs)

/-- A turn of the loop is no call's. -/
theorem Kept.follow_loop {L : Loop} (h : Kept period s call (some L) current past cs)
    (he : s.enabled L.task = true) : cs.map (·.follow s (.turn L.task) s') = cs := by
  refine map_follow_other fun c hc => ?_
  by_cases hr : c.returned.isSome = true
  · exact h.ne_of_returned he hc hr
  have hp := h.answers.pends
  match call, hp, h.seen with
  | none, hp, _ => exact absurd (hp.1 c hc) hr
  | some (j, stand), ⟨c', rest, hcs, hj, _, hrest, _⟩, hseen =>
    subst hcs
    rcases List.mem_cons.mp hc with rfl | hc
    · intro hm
      exact hseen.active.ne ((Move.turn.inj hm).trans hj)
    · exact absurd (hrest c hc) hr

/-- A turn of a call is its own. -/
theorem Kept.follow_call {stand : Stand} (s' : State) (h : Kept period s (some (i, stand)) loop current past cs)
    (he : s.enabled i = true) : ∃ c rest, cs = c :: rest ∧ c.task = i ∧ c.returned = none ∧
      (∀ c' ∈ rest, c'.returned.isSome = true) ∧ Stands s.now loop current past c stand ∧
      cs.map (·.follow s (.turn i) s') = c.follow s (.turn i) s' :: rest := by
  obtain ⟨c, rest, rfl, hi, hret, hrest, hstands⟩ := h.answers.pends
  refine ⟨c, rest, rfl, hi, hret, hrest, hstands, ?_⟩
  rw [List.map_cons, map_follow_other fun c' hc' => ?_]
  exact h.ne_of_returned he (List.mem_cons_of_mem c hc') (hrest c' hc')

/-- A call that has not returned may have put a loop into the slot. -/
theorem Call.follow_stays {stand stand' : Stand} (h : Shows s (some (c.task, stand)) loop)
    (h' : Shows s' (some (c.task, stand')) loop') : c.follow s (.turn c.task) s' =
      { c with loop := if s'.slot = s.slot then c.loop else s'.slot } := by
  rw [follow, if_pos rfl, if_pos (h'.isOver_called.trans h.isOver_called.symm)]

theorem opened_none (h : c.loop = none) : opened (c :: rest) = opened rest := by
  rw [opened, List.filterMap_cons, h]
  rfl

/-- The ticks and calls that have been heard of fit what the timer shows. -/
def Fits (period now : Nat) (heard : List Tick) (call : Option (Nat × Stand)) (loop : Option Loop)
    (cs : List Call) : Prop :=
  ∃ current past, heard = current.toList ++ past ∧ Loops period now (opened cs) loop current past ∧
    Answers now call loop current past cs

theorem Kept.fits_queue {e : Errand} (h : Kept period s (some (i, .asked e)) loop current past cs)
    (he : s.enabled i = true) (h' : Shows s' (some (i, .queued e)) loop) :
    Fits period s.now ((current.toList ++ past).map (·.follow s (.turn i) s')) (some (i, .queued e)) loop
      (cs.map (·.follow s (.turn i) s')) := by
  obtain ⟨c, rest, rfl, rfl, -, -, -, hcs⟩ := h.follow_call s' he
  have hslot : s'.slot = s.slot := h'.slot.trans h.seen.slot.symm
  rw [hcs, Call.follow_stays h.seen h', if_pos hslot, h.loops.follow_same h' fun L _ _ _ hL _ => ⟨L, hL, rfl, rfl⟩]
  exact ⟨current, past, rfl, h.loops, h.answers.returned, h.answers.aborted, h.answers.pends⟩

theorem Kept.fits_halt {e : Errand} {L : Loop} {deadline : Nat}
    (h : Kept period s (some (i, .queued e)) (some L) current past cs)
    (he : s.enabled i = true) (hd : deadline = s.now + Tasks.haltTimeout)
    (h' : Shows s' (some (i, .halting e L.task deadline)) (some { L with told := true })) :
    Fits period s.now ((current.toList ++ past).map (·.follow s (.turn i) s'))
      (some (i, .halting e L.task deadline)) (some { L with told := true })
      (cs.map (·.follow s (.turn i) s')) := by
  obtain ⟨c, rest, rfl, rfl, -, -, hstands, hcs⟩ := h.follow_call s' he
  have hnone : c.loop = none := hstands.2.2.2.opened
  have hslot : s'.slot = none := h'.slot
  have hsame : c.follow s (.turn c.task) s' = c := by
    rw [Call.follow_stays h.seen h', hslot, ← hnone, ite_self]
  subst hd
  rw [hcs, hsame, h.loops.follow_same h' fun L' _ _ _ hL _ => ⟨_, rfl, by cases hL; rfl, by cases hL; rfl⟩]
  exact ⟨current, past, rfl, h.loops.turn (h.loops.course L rfl), h.answers.halt⟩

/-- A call goes on that starts a loop. -/
theorem Call.follow_starts {stand : Stand} {label : String} {l : Nat}
    (h : Shows s (some (c.task, stand)) loop) (h' : Shows s' (some (c.task, .leaving true)) (some (.fresh l label)))
    (hslot : s.slot = none) : c.follow s (.turn c.task) s' = { c with loop := some l } := by
  have hslot' : s'.slot = some l := h'.slot
  rw [Call.follow_stays h h', hslot, hslot', if_neg (by simp)]

/-- A call goes on that starts none. -/
theorem Call.follow_leaves {stand : Stand} {answer : Bool} (h : Shows s (some (c.task, stand)) loop)
    (h' : Shows s' (some (c.task, .leaving answer)) none) (hslot : s.slot = none) :
    c.follow s (.turn c.task) s' = c := by
  have hslot' : s'.slot = none := h'.slot
  rw [Call.follow_stays h h', if_pos (hslot'.trans hslot.symm)]

theorem Kept.fresh (h : Kept period s call loop current past cs) :
    ∀ o ∈ opened cs, o.1 ≠ s.tasks.length := by
  rintro ⟨l, start⟩ ho rfl
  obtain ⟨c, hc, ho⟩ := List.mem_filterMap.mp ho
  obtain ⟨l', hl, ho⟩ := Option.map_eq_some_iff.mp ho
  cases ho
  exact Nat.lt_irrefl _ ((h.numbers c hc).2 _ hl)

/-- What fits when a call has come to its end: as asked, it has started a loop or not. -/
theorem Kept.fits_left {past' : List Tick}
    (h : Kept period s call loop current past (c :: rest)) (hret : c.returned = none)
    (hrest : ∀ c' ∈ rest, c'.returned.isSome = true) (hnone : c.loop = none)
    (hloops : Loops period s.now (opened (c :: rest)) none none past') (he : Ends s.now past past' c) :
    (c.errand.isStart = true → ∀ label, Fits period s.now past' (some (c.task, .leaving true))
      (some (.fresh s.tasks.length label)) ({ c with loop := some s.tasks.length } :: rest)) ∧
      (c.errand.isStart = false → ∀ answer, Fits period s.now past' (some (c.task, .leaving answer)) none
        (c :: rest)) := by
  refine ⟨fun hs label => ⟨none, past', rfl, ?_, h.answers.leave hret hrest he hs.symm ?_⟩, fun hs answer => ?_⟩
  · have hopen := hloops.open h.fresh label
    rw [opened_none hnone, he.time] at hopen
    rw [he.time]
    exact hopen
  · intro hstop
    rw [hstop] at hs
    cases hs
  · have hnot : c.loop.isSome = c.errand.isStart := by
      rw [hnone, hs]
      rfl
    exact ⟨none, past', rfl, hloops, h.answers.leave hret hrest he hnot fun _ => rfl⟩

theorem Kept.fits_start {label : String}
    (h : Kept period s (some (i, .queued (.start label))) none current past cs) (he : s.enabled i = true)
    (h' : Shows s' (some (i, .leaving true)) (some (.fresh s.tasks.length label))) :
    Fits period s.now ((current.toList ++ past).map (·.follow s (.turn i) s')) (some (i, .leaving true))
      (some (.fresh s.tasks.length label)) (cs.map (·.follow s (.turn i) s')) := by
  obtain ⟨c, rest, rfl, rfl, hret, hrest, ⟨herrand, -, -, hw⟩, hcs⟩ := h.follow_call s' he
  obtain rfl : current = none := h.loops.idle rfl
  rw [hcs, Call.follow_starts h.seen h' h.seen.slot, h.loops.follow_same h' (by simp)]
  exact (h.fits_left hret hrest hw.opened h.loops hw.ends).1 (by rw [herrand]; rfl) label

theorem Kept.fits_decline (h : Kept period s (some (i, .queued .stop)) none current past cs)
    (he : s.enabled i = true) (h' : Shows s' (some (i, .leaving false)) none) :
    Fits period s.now ((current.toList ++ past).map (·.follow s (.turn i) s')) (some (i, .leaving false)) none
      (cs.map (·.follow s (.turn i) s')) := by
  obtain ⟨c, rest, rfl, rfl, hret, hrest, ⟨herrand, -, -, hw⟩, hcs⟩ := h.follow_call s' he
  obtain rfl : current = none := h.loops.idle rfl
  rw [hcs, Call.follow_leaves h.seen h' h.seen.slot, h.loops.follow_same h' (by simp)]
  exact (h.fits_left hret hrest hw.opened h.loops hw.ends).2 (by rw [herrand]; rfl) false

/-- A call that has waited goes on, and a tick that is still under way is broken off. -/
theorem Kept.broken {e : Errand} {l deadline : Nat}
    (h : Kept period s (some (i, .halting e l deadline)) loop current past cs)
    (hd : loop = none ∨ deadline ≤ s.now) (hw : Awaits s.now loop current past c)
    (hdeadline : deadline = c.asked + Tasks.haltTimeout) (h' : Shows s' call' loop')
    (hno : ∀ L ∈ loop', ∀ next till work, L.phase ≠ .ticking next till work) :
    Loops period s.now (opened cs) none none ((current.toList ++ past).map (·.follow s (.turn i) s')) ∧
      Ends s.now past ((current.toList ++ past).map (·.follow s (.turn i) s')) c := by
  cases current with
  | none =>
    have hsame : past.map (·.follow s (.turn i) s') = past := map_follow_closed h.loops.closed
    rw [Option.toList_none, List.nil_append, hsame]
    refine ⟨?_, hw.ends⟩
    cases loop with
    | none => exact h.loops
    | some L => exact h.loops.quit (hw.begun L rfl)
  | some x =>
    obtain ⟨L, next, work, rfl, hx, hphase⟩ := h.loops.ticking
    have hne : Move.turn i ≠ .turn x.loop := by
      intro hm
      exact h.seen.active.ne (hx.symm.trans (Move.turn.inj hm).symm)
    rw [h.loops.follow_closes h' fun L hL _ => hno L hL, if_neg hne]
    have hle : deadline ≤ s.now := hd.resolve_left (by simp)
    obtain ⟨hfate, htill⟩ := h.loops.underway x rfl
    exact ⟨h.loops.abort (hw.begun L rfl), hw.breaks hfate htill (hdeadline ▸ hle)⟩

theorem Kept.fits_restart {label : String} {l deadline : Nat}
    (h : Kept period s (some (i, .halting (.start label) l deadline)) loop current past cs)
    (he : s.enabled i = true) (hd : loop = none ∨ deadline ≤ s.now)
    (h' : Shows s' (some (i, .leaving true)) (some (.fresh s.tasks.length label))) :
    Fits period s.now ((current.toList ++ past).map (·.follow s (.turn i) s')) (some (i, .leaving true))
      (some (.fresh s.tasks.length label)) (cs.map (·.follow s (.turn i) s')) := by
  obtain ⟨c, rest, rfl, rfl, hret, hrest, ⟨herrand, hdeadline, hw⟩, hcs⟩ := h.follow_call s' he
  obtain ⟨hloops, hends⟩ := h.broken hd hw hdeadline h' (by simp [Loop.fresh])
  rw [hcs, Call.follow_starts h.seen h' h.seen.slot]
  exact (h.fits_left hret hrest hw.opened hloops hends).1 (by rw [herrand]; rfl) label

theorem Kept.fits_stop {l deadline : Nat}
    (h : Kept period s (some (i, .halting .stop l deadline)) loop current past cs)
    (he : s.enabled i = true) (hd : loop = none ∨ deadline ≤ s.now)
    (h' : Shows s' (some (i, .leaving true)) none) :
    Fits period s.now ((current.toList ++ past).map (·.follow s (.turn i) s')) (some (i, .leaving true)) none
      (cs.map (·.follow s (.turn i) s')) := by
  obtain ⟨c, rest, rfl, rfl, hret, hrest, ⟨herrand, hdeadline, hw⟩, hcs⟩ := h.follow_call s' he
  obtain ⟨hloops, hends⟩ := h.broken hd hw hdeadline h' (by simp)
  rw [hcs, Call.follow_leaves h.seen h' h.seen.slot]
  exact (h.fits_left hret hrest hw.opened hloops hends).2 (by rw [herrand]; rfl) true

theorem Kept.fits_finish {answer : Bool}
    (h : Kept period s (some (i, .leaving answer)) loop current past cs) (he : s.enabled i = true)
    (h' : Shows s' none loop) :
    Fits period s.now ((current.toList ++ past).map (·.follow s (.turn i) s')) none loop
      (cs.map (·.follow s (.turn i) s')) := by
  obtain ⟨c, rest, rfl, rfl, -, -, -, hcs⟩ := h.follow_call s' he
  have hover : s'.isOver c.task = true := by
    refine h'.isOver_other (by simp) fun L hL => ?_
    subst hL
    exact h.seen.active.ne.symm
  have hself : c.follow s (.turn c.task) s' = { c with returned := some s.now } := by
    rw [Call.follow, if_pos rfl, if_pos (h'.slot.trans h.seen.slot.symm), if_neg]
    rw [hover, h.seen.isOver_called]
    simp
  rw [hcs, hself, h.loops.follow_same h' fun L _ _ _ hL _ => ⟨L, hL, rfl, rfl⟩]
  exact ⟨current, past, rfl, h.loops, h.answers.finish⟩

theorem Kept.fits_settle {label : String} {told : Bool}
    (h : Kept period s call (some ⟨i, label, told, .fresh⟩) current past cs) (he : s.enabled i = true)
    (h' : Shows s' call (some ⟨i, label, told, .idle s.now⟩)) :
    Fits period s.now ((current.toList ++ past).map (·.follow s (.turn i) s')) call
      (some ⟨i, label, told, .idle s.now⟩) (cs.map (·.follow s (.turn i) s')) := by
  rw [h.follow_loop he, h.loops.follow_same h' (by rintro L next till work ⟨⟩ ⟨⟩)]
  exact ⟨current, past, rfl, h.loops.settle, h.answers.turn fun hw => by cases hw⟩

theorem Kept.fits_tick {label : String} {due till : Nat} {work : String × Nat}
    (h : Kept period s call (some ⟨i, label, false, .idle due⟩) current past cs)
    (he : s.enabled i = true) (hd : due ≤ s.now) (ht : s.now ≤ till)
    (h' : Shows s' call (some ⟨i, label, false, .ticking ((program period).nextTick s.now due) till work⟩)) :
    Fits period s.now (⟨i, s.now, till, .underway⟩ :: (current.toList ++ past).map (·.follow s (.turn i) s')) call
      (some ⟨i, label, false, .ticking ((program period).nextTick s.now due) till work⟩)
      (cs.map (·.follow s (.turn i) s')) := by
  rw [h.follow_loop he, h.loops.follow_same h' (by rintro L next till work ⟨⟩ ⟨⟩)]
  obtain rfl := h.loops.none_of_idle
  exact ⟨some _, past, rfl, h.loops.tick hd ht, h.answers.tick hd (h.seen.told _ rfl).symm⟩

/-- A loop that has been told to end has had a tick. -/
theorem Kept.begun {L : Loop} (h : Kept period s call (some L) current past cs) (ht : L.told = true) :
    ofLoop L.task (current.toList ++ past) ≠ [] := by
  have htold := (h.seen.told L rfl).symm.trans ht
  match call, htold, h.answers.pends with
  | some (_, .halting ..), _, ⟨c, _, _, _, _, _, _, _, hw⟩ => exact hw.begun L rfl

theorem Kept.fits_quit {label : String} {due : Nat}
    (h : Kept period s call (some ⟨i, label, true, .idle due⟩) current past cs) (he : s.enabled i = true)
    (h' : Shows s' call none) :
    Fits period s.now ((current.toList ++ past).map (·.follow s (.turn i) s')) call none
      (cs.map (·.follow s (.turn i) s')) := by
  rw [h.follow_loop he, h.loops.follow_same h' (by rintro L next till work ⟨⟩ ⟨⟩)]
  obtain rfl := h.loops.none_of_idle
  exact ⟨none, past, rfl, h.loops.quit (h.begun rfl), h.answers.quit⟩

theorem Kept.fits_tock {label : String} {told : Bool} {next till : Nat} {work : String × Nat}
    (h : Kept period s call (some ⟨i, label, told, .ticking next till work⟩) current past cs)
    (he : s.enabled i = true) (ht : till ≤ s.now) (h' : Shows s' call (some ⟨i, label, told, .idle next⟩)) :
    Fits period s.now ((current.toList ++ past).map (·.follow s (.turn i) s')) call
      (some ⟨i, label, told, .idle next⟩) (cs.map (·.follow s (.turn i) s')) := by
  obtain ⟨x, rfl, hx, htill, hloops⟩ := h.loops.tock ht
  rw [h.follow_loop he, h.loops.follow_closes h' (by rintro L ⟨⟩ - next till work ⟨⟩), if_pos (by rw [hx])]
  exact ⟨none, _, rfl, hloops, h.answers.tock ht htill⟩

theorem Kept.fits (h : Kept period s call loop current past cs) (he : s.enabled i = true)
    (ht : Turns period s i call loop call' loop' new) (h' : Shows s' call' loop') :
    Fits period s.now (new.toList ++ (current.toList ++ past).map (·.follow s (.turn i) s')) call' loop'
      (cs.map (·.follow s (.turn i) s')) := by
  cases ht with
  | queue e loop => exact h.fits_queue he h'
  | start label => exact h.fits_start he h'
  | decline => exact h.fits_decline he h'
  | halt e L => exact h.fits_halt he rfl h'
  | restart label l deadline loop hd => exact h.fits_restart he hd h'
  | stop l deadline loop hd => exact h.fits_stop he hd h'
  | finish answer loop => exact h.fits_finish he h'
  | settle call label told => exact h.fits_settle he h'
  | tick call label due till work hd ht => exact h.fits_tick he hd (by omega) h'
  | quit call label due => exact h.fits_quit he h'
  | tock call label told next till work ht => exact h.fits_tock he ht h'

/-- Calls keep to their tasks, and each loop is one of the tasks. -/
theorem Kept.numbers_turn (h : Kept period s call loop current past cs) (h' : Shows s' call' loop')
    (hlen : s.tasks.length ≤ s'.tasks.length) : ∀ c ∈ cs.map (·.follow s m s'),
      c.task < s'.tasks.length ∧ ∀ l, c.loop = some l → l < s'.tasks.length := by
  intro c' hc'
  obtain ⟨c, hc, rfl⟩ := List.mem_map.mp hc'
  obtain ⟨htask, hloop⟩ := h.numbers c hc
  have hold : ∀ l, c.loop = some l → l < s'.tasks.length := fun l hl => (hloop l hl).trans_le hlen
  unfold Call.follow
  split
  · refine ⟨htask.trans_le hlen, fun l hl => ?_⟩
    dsimp only at hl
    split at hl
    · exact hold l hl
    · rw [h'.slot] at hl
      split at hl
      · cases hl
      · obtain ⟨L, rfl, rfl⟩ := Option.map_eq_some_iff.mp hl
        obtain ⟨hlt, -⟩ := List.getElem?_eq_some_iff.mp h'.looped
        exact hlt
  · exact ⟨htask.trans_le hlen, hold⟩

/-- A call that has returned has ended. -/
theorem Kept.gone_turn (h : Kept period s call loop current past cs) (he : s.enabled i = true)
    (ht : Turns period s i call loop call' loop' new) (h' : Shows s' call' loop') :
    ∀ c ∈ cs.map (·.follow s (.turn i) s'), c.returned.isSome = true → s'.isOver c.task = true := by
  intro c' hc' hr
  obtain ⟨c, hc, rfl⟩ := List.mem_map.mp hc'
  have hold (hr : c.returned.isSome = true) : s'.isOver c.task = true :=
    ht.isOver h.seen h' (h.numbers c hc).1 (h.gone c hc hr)
  unfold Call.follow at hr ⊢
  split at hr
  next hm =>
    rw [if_pos hm]
    dsimp only at hr ⊢
    split at hr
    · exact hold hr
    next hchanged =>
      cases hm
      obtain ⟨t, htask, hlive⟩ := live_of_enabled he
      have hs : s.isOver c.task = false := by
        rw [Tasks.State.isOver, htask]
        exact hlive
      rw [hs] at hchanged
      simpa using hchanged
  next hm =>
    rw [if_neg hm]
    exact hold hr

end

end LogDesk.Metronome
