import LogDesk.Proofs.Metronome.Kept
import LogDesk.Proofs.Tasks.Schedule

/-! Orderly runs. Each of their moves keeps what is known of the timer (`kept_after`); when no task can take
a turn, whoever has not ended waits for a later moment (`Kept.rest`); and no more than a few turns can be
taken at a time (`Shows.settles`). -/

namespace LogDesk.Metronome

section
variable {period : Nat} {s s' : State} {i : Nat} {call : Option (Nat × Stand)} {loop : Option Loop}
  {current : Option Tick} {past : List Tick} {cs : List Call}

theorem turn_length (period : Nat) (s : State) (i : Nat) :
    s.tasks.length ≤ ((program period).resume s i).tasks.length := by
  by_contra hlt
  have hlt := Nat.lt_of_not_le hlt
  obtain ⟨t, ht⟩ := Tasks.Program.resume_some (program period) (k := i) (List.getElem?_eq_getElem hlt)
  exact Nat.lt_irrefl _ (List.getElem?_eq_some_iff.mp ht).1

theorem Kept.find_underway (h : Kept period s call loop current past cs) :
    (current.toList ++ past).find? (·.fate = .underway) = current := by
  have hpast : past.find? (·.fate = .underway) = none := by
    refine List.find?_eq_none.mpr fun x hx => ?_
    obtain ⟨t, ht, -⟩ := h.loops.closed x hx
    intro hfate
    rw [of_decide_eq_true hfate] at ht
    cases ht
  cases current with
  | none => exact hpast
  | some x => exact List.find?_cons_of_pos (decide_eq_true (h.loops.underway x rfl).1)

theorem Kept.turn (hp : 0 < period) (h : Kept period s call loop current past cs) (he : s.enabled i = true) :
    ∃ call' loop' new current' past', Turns period s i call loop call' loop' new ∧
      begun? period s (.turn i) = new ∧
      new.toList ++ (current.toList ++ past).map (·.follow s (.turn i) (step period s (.turn i))) =
        current'.toList ++ past' ∧
      Kept period (step period s (.turn i)) call' loop' current' past'
        (cs.map (·.follow s (.turn i) (step period s (.turn i)))) := by
  obtain ⟨call', loop', new, ht, hseen⟩ := h.seen.turn hp he
  obtain ⟨current', past', hheard, hloops, hanswers⟩ := h.fits he ht hseen
  have hnow : (step period s (.turn i)).now = s.now := Tasks.resume_now _ s i
  refine ⟨call', loop', new, current', past', ht, ht.begun h.seen, hheard, hseen, ?_, ?_,
    h.numbers_turn hseen (turn_length period s i), h.gone_turn he ht hseen⟩
  · rw [hnow]
    exact hloops
  · rw [hnow]
    exact hanswers

/-- A task that cannot take a turn changes nothing. -/
theorem Kept.turn_none (h : Kept period s call loop current past cs) (he : s.enabled i = false) :
    begun? period s (.turn i) = none ∧
      (current.toList ++ past).map (·.follow s (.turn i) (step period s (.turn i))) = current.toList ++ past ∧
      Kept period (step period s (.turn i)) call loop current past
        (cs.map (·.follow s (.turn i) (step period s (.turn i)))) := by
  have hsame : step period s (.turn i) = s := by simp [step, Tasks.Program.move, Tasks.Program.resume, he]
  have hcs : cs.map (·.follow s (.turn i) s) = cs :=
    (List.map_congr_left fun c _ => Call.follow_same rfl rfl).trans (List.map_id cs)
  rw [hsame, hcs, h.loops.follow_same h.seen fun L _ _ _ hL _ => ⟨L, hL, rfl, rfl⟩]
  exact ⟨by simp [begun?, Tasks.State.deed?, he], rfl, h⟩

/-- A call is made only when those before it have returned. -/
theorem Shows.free (h : Shows s call loop) {e : Errand} (ha : Allows s (.ask e)) :
    call = none ∧ ∀ L ∈ loop, wavers s.now L.entry = false := by
  constructor
  · cases call with
    | none => rfl
    | some c =>
      obtain ⟨i, stand⟩ := c
      obtain ⟨hanswered, -⟩ := ha _ (List.mem_of_getElem? h.called)
      cases stand <;> cases hanswered
  · rintro L rfl
    exact (ha _ (List.mem_of_getElem? h.looped)).2

theorem Kept.ask (h : Kept period s call loop current past cs) {e : Errand} (ha : Allows s (.ask e)) :
    call = none ∧
      (current.toList ++ past).map (·.follow s (.ask e) (step period s (.ask e))) = current.toList ++ past ∧
      Kept period (step period s (.ask e)) (some (s.tasks.length, .asked e)) loop current past
        ((asked? s (current.toList ++ past) (.ask e)).toList ++
          cs.map (·.follow s (.ask e) (step period s (.ask e)))) := by
  obtain ⟨rfl, hcalm⟩ := h.seen.free ha
  have hseen : Shows (step period s (.ask e)) (some (s.tasks.length, .asked e)) loop :=
    ⟨h.seen.active.addCall _, h.seen.held, h.seen.slot, h.seen.lock, h.seen.told, by simp⟩
  have hask := h.answers.ask h.loops hcalm s.tasks.length e
  rw [h.loops.follow_same hseen fun L _ _ _ hL _ => ⟨L, hL, rfl, rfl⟩, map_follow_other (by simp)]
  refine ⟨rfl, rfl, hseen, ?_, ?_, ?_, ?_⟩
  · exact h.loops
  · rw [asked?, h.find_underway]
    exact hask
  · have hlen : (step period s (.ask e)).tasks.length = s.tasks.length + 1 := List.length_append
    rw [hlen]
    refine List.forall_mem_cons.mpr ⟨⟨Nat.lt_succ_self _, by simp⟩, fun c hc => ?_⟩
    obtain ⟨htask, hloop⟩ := h.numbers c hc
    exact ⟨Nat.lt_succ_of_lt htask, fun l hl => Nat.lt_succ_of_lt (hloop l hl)⟩
  · refine List.forall_mem_cons.mpr ⟨by simp, fun c hc hr => ?_⟩
    obtain ⟨htask, -⟩ := h.numbers c hc
    refine hseen.isOver_other ?_ ?_
    · rintro i stand ⟨⟩
      exact Nat.ne_of_lt htask
    · rintro L rfl hL
      have hgone := h.gone c hc hr
      rw [hL, h.seen.isOver_looped] at hgone
      cases hgone

/-- When no task can take a turn, the loop waits for a later moment, and a call waits for a tick. -/
structure Resting (now : Nat) (call : Option (Nat × Stand)) (loop : Option Loop) (current : Option Tick) :
    Prop where
  fresh : ∀ L ∈ loop, L.phase ≠ .fresh
  idle : ∀ L ∈ loop, ∀ due, L.phase = .idle due → now < due
  ticking : ∀ L ∈ loop, ∀ next till work, L.phase = .ticking next till work → now < till
  waits : ∀ i stand, call = some (i, stand) → ∃ e l deadline, stand = .halting e l deadline ∧ now < deadline ∧
    ∃ x, current = some x ∧ now < x.till

theorem AtRest.eq_false (h : AtRest s) {t : Task} (ht : s.tasks[i]? = some t) : s.enabled i = false :=
  h i (List.getElem?_eq_some_iff.mp ht).1

theorem Kept.rest (h : Kept period s call loop current past cs) (hr : AtRest s) :
    Resting s.now call loop current := by
  have hloop (L : Loop) (hL : L ∈ loop) :
      L.phase ≠ .fresh ∧ (∀ due, L.phase = .idle due → L.told = false ∧ s.now < due) ∧
        ∀ next till work, L.phase = .ticking next till work → s.now < till := by
    subst hL
    have he := hr.eq_false h.seen.looped
    rw [Tasks.State.enabled, h.seen.looped] at he
    obtain ⟨task, label, told, phase⟩ := L
    cases phase with
    | fresh => cases he
    | idle due =>
      have hdue : told = false ∧ s.now < due := by simpa [Loop.entry] using he
      exact ⟨by simp, by rintro _ ⟨⟩; exact hdue, by simp⟩
    | ticking next till work =>
      have htill : s.now < till := by simpa [Loop.entry] using he
      exact ⟨by simp, by simp, by rintro _ _ _ ⟨⟩; exact htill⟩
    | «over» => exact ⟨by simp, by simp, by simp⟩
  refine ⟨fun L hL => (hloop L hL).1, fun L hL due hd => ((hloop L hL).2.1 due hd).2,
    fun L hL => (hloop L hL).2.2, ?_⟩
  rintro i stand rfl
  have he := hr.eq_false h.seen.called
  rw [Tasks.State.enabled, h.seen.called] at he
  cases stand with
  | asked e | leaving answer => cases he
  | queued e =>
    have hlock : s.lock = [i] := h.seen.lock
    simp [Stand.status, hlock] at he
  | halting e l deadline =>
    have hwaits : s.isOver l = false ∧ s.now < deadline := by simpa [Stand.status] using he
    obtain ⟨hlive, hdeadline⟩ := hwaits
    refine ⟨e, l, deadline, rfl, hdeadline, ?_⟩
    cases loop with
    | none =>
      rw [(h.seen.target i e l deadline rfl).2 rfl] at hlive
      cases hlive
    | some L =>
      obtain ⟨start, ho⟩ := h.loops.started L rfl
      have hcourse := h.loops.course L rfl start ho
      obtain ⟨hfresh, hidle, hticking⟩ := hloop L rfl
      cases hphase : L.phase with
      | fresh => exact absurd hphase hfresh
      | idle due =>
        have htold := (hidle due hphase).1
        rw [h.seen.told L rfl] at htold
        cases htold
      | ticking next till work =>
        rw [hphase] at hcourse
        obtain ⟨x, hx, -, rfl, -⟩ := hcourse
        exact ⟨x, hx, hticking _ _ _ hphase⟩
      | «over» =>
        rw [hphase] at hcourse
        exact hcourse.elim

theorem Kept.wait (h : Kept period s call loop current past cs) {ms : Nat} (ha : Allows s (.wait ms)) :
    Kept period (step period s (.wait ms)) call loop current past cs := by
  obtain ⟨hr, hdue⟩ := ha
  have hrest := h.rest hr
  refine ⟨⟨h.seen.active, h.seen.held, h.seen.slot, h.seen.lock, h.seen.told, h.seen.target⟩, ?_, ?_, h.numbers,
    h.gone⟩
  · refine h.loops.wait fun L hL => ?_
    subst hL
    have hmem := List.mem_of_getElem? h.seen.looped
    refine ⟨hrest.fresh L rfl, fun due hphase => ?_, fun next till work hphase => ?_⟩
    · refine hdue _ hmem due ?_ (hrest.idle L rfl due hphase)
      rw [Loop.entry, hphase]
      rfl
    · refine hdue _ hmem till ?_ (hrest.ticking L rfl next till work hphase)
      rw [Loop.entry, hphase]
      rfl
  · refine h.answers.wait ?_
    rintro i stand rfl
    obtain ⟨e, l, deadline, rfl, hdeadline, x, rfl, htill⟩ := hrest.waits i stand rfl
    refine ⟨e, l, deadline, rfl, ?_, x, rfl, ?_⟩
    · exact hdue _ (List.mem_of_getElem? h.seen.called) deadline rfl hdeadline
    · obtain ⟨L, next, work, rfl, -, hphase⟩ := h.loops.ticking
      refine hdue _ (List.mem_of_getElem? h.seen.looped) x.till ?_ htill
      rw [Loop.entry, hphase]
      rfl

end

theorem kept_start (period : Nat) (durations : List Nat) :
    Kept period (atFirst durations) none none none [] [] where
  seen := ⟨⟨by simp, by simp, by simp [atFirst]⟩, rfl, rfl, rfl, by simp, by simp⟩
  loops := ⟨by simp, by simp [opened], by simp, by simp, by simp, by simp, by simp, by simp, fun _ => rfl,
    by simp [opened]⟩
  answers := ⟨by simp, by simp, by simp [Pends]⟩
  numbers := by simp
  gone := by simp

/-- What every orderly run comes to. -/
theorem kept_after {period : Nat} (hp : 0 < period) (durations : List Nat) (run : List Move)
    (h : Orderly period (atFirst durations) run) :
    ∃ call loop current past, ticks period (atFirst durations) run = current.toList ++ past ∧
      Kept period (after period (atFirst durations) run) call loop current past
        (calls period (atFirst durations) run) := by
  induction run with
  | nil => exact ⟨none, none, none, [], rfl, kept_start period durations⟩
  | cons m earlier ih =>
    obtain ⟨horderly, hallows⟩ := h
    obtain ⟨call, loop, current, past, hticks, hkept⟩ := ih horderly
    rw [ticks, calls, hticks]
    cases m with
    | turn i =>
      cases he : (after period (atFirst durations) earlier).enabled i with
      | false =>
        obtain ⟨hnone, hsame, hturn⟩ := hkept.turn_none he
        refine ⟨call, loop, current, past, ?_, hturn⟩
        rw [hnone]
        exact hsame
      | true =>
        obtain ⟨call', loop', new, current', past', -, hnew, hheard, hturn⟩ := hkept.turn hp he
        refine ⟨call', loop', current', past', ?_, hturn⟩
        rw [hnew]
        exact hheard
    | ask e =>
      obtain ⟨-, hsame, hask⟩ := hkept.ask hallows
      exact ⟨_, loop, current, past, hsame, hask⟩
    | wait ms =>
      have hwait := hkept.wait hallows
      refine ⟨call, loop, current, past, ?_, ?_⟩
      · exact hkept.loops.follow_same hwait.seen fun L _ _ _ hL _ => ⟨L, hL, rfl, rfl⟩
      · rw [map_follow_other (by simp)]
        exact hwait

def Stand.effort : Stand → Nat
  | asked _ => 8
  | queued _ => 7
  | halting .. => 6
  | leaving _ => 1

def Loop.effort (now : Nat) (L : Loop) : Nat :=
  match L.phase with
  | .fresh => 4
  | .idle due => if due ≤ now then 3 else 1
  | .ticking next _ _ => if next ≤ now then 4 else 2
  | .over => 0

def effort (now : Nat) (call : Option (Nat × Stand)) (loop : Option Loop) : Nat :=
  (call.map (·.2.effort)).getD 0 + (loop.map (·.effort now)).getD 0

/-- With a period longer than the tolerance, no two ticks can begin at one time. -/
theorem lt_nextTick {period : Nat} (hp : 5 < period) (now due : Nat) :
    now < (program period).nextTick now due := by
  rw [nextTick_eq]
  split <;> omega

theorem Turns.effort_lt {period i : Nat} {s : State} {call call' : Option (Nat × Stand)} {loop loop' : Option Loop}
    {new : Option Tick} (hp : 5 < period) (ht : Turns period s i call loop call' loop' new) :
    effort s.now call' loop' < effort s.now call loop := by
  cases ht with
  | queue e loop => simp [effort, Stand.effort]
  | start label => simp [effort, Stand.effort, Loop.effort, Loop.fresh]
  | decline => simp [effort, Stand.effort]
  | halt e L => simp [effort, Stand.effort, Loop.effort]
  | restart label l deadline loop hd =>
    simp only [effort, Stand.effort, Loop.effort, Loop.fresh, Option.map_some, Option.getD_some]
    omega
  | stop l deadline loop hd =>
    simp only [effort, Stand.effort, Option.map_some, Option.map_none, Option.getD_some, Option.getD_none]
    omega
  | finish answer loop => simp [effort, Stand.effort]
  | settle call label told => simp [effort, Loop.effort]
  | tick call label due till work hd ht =>
    have hnext : ¬(program period).nextTick s.now due ≤ s.now := Nat.not_le.mpr (lt_nextTick hp s.now due)
    simp [effort, Loop.effort, hd, hnext]
  | quit call label due =>
    simp only [effort, Loop.effort, Option.map_some, Option.map_none, Option.getD_some, Option.getD_none]
    split <;> omega
  | tock call label told next till work ht =>
    simp only [effort, Loop.effort, Option.map_some, Option.getD_some]
    split <;> omega

/-- Turns come to an end before time goes on. -/
theorem Shows.settles {period : Nat} (hp : 5 < period) {turns : List Nat} {s : State}
    {call : Option (Nat × Stand)} {loop : Option Loop} (h : Shows s call loop) (he : Eager period s turns) :
    turns.length ≤ effort s.now call loop := by
  induction turns generalizing s call loop with
  | nil => exact Nat.zero_le _
  | cons i turns ih =>
    obtain ⟨henabled, hrest⟩ := he
    obtain ⟨call', loop', new, ht, h'⟩ := h.turn (Nat.zero_lt_of_lt hp) henabled
    have hlen := ih h' hrest
    have hlt := ht.effort_lt hp
    rw [Tasks.resume_now] at hlen
    rw [List.length_cons]
    omega

end LogDesk.Metronome
