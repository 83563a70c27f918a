import LogDesk.Proofs.Console.Course

/-! The timer against the flag that says whether it should run. Each switch of the timer comes before
the write of the flag, and stays where that write fails. -/

namespace LogDesk

theorem switchedTo_append (on : Bool) (es fs : List Event) :
    switchedTo on (es ++ fs) = switchedTo (switchedTo on es) fs :=
  List.foldl_append

theorem switchedTo_calm (on : Bool) {es : List Event} (h : ∀ e ∈ es, e.switch? = none) :
    switchedTo on es = on := by
  induction es generalizing on with
  | nil => rfl
  | cons e es ih =>
    change switchedTo (e.switch?.getD on) es = on
    rw [h e List.mem_cons_self]
    exact ih on fun e' he => h e' (List.mem_cons_of_mem e he)

/-- Some events hold a last one that switches the timer, or none. -/
theorem last_switch (es : List Event) : (∀ e ∈ es, e.switch? = none) ∨
    ∃ before on after, es = before ++ .setAutoRefresh on :: after ∧ ∀ e ∈ after, e.switch? = none := by
  induction es with
  | nil => exact .inl (by simp)
  | cons e es ih =>
    rcases ih with h | ⟨before, on, after, rfl, h⟩
    · cases e with
      | setAutoRefresh on => exact .inr ⟨[], on, es, rfl, h⟩
      | _ => exact .inl (List.forall_mem_cons.mpr ⟨rfl, h⟩)
    · exact .inr ⟨e :: before, on, after, rfl, h⟩

namespace Settings

variable {σ : Type} [PreferenceStore σ]

theorem take_flag (c : Settings σ) {e : Event} (h : e.switch? = none) :
    (c.take e).preferences.autoRefresh = c.preferences.autoRefresh := by
  rw [take_preferences]
  cases e with
  | setAutoRefresh => cases h
  | _ => split <;> rfl

theorem takeAll_flag (c : Settings σ) {es : List Event} (h : ∀ e ∈ es, e.switch? = none) :
    (c.takeAll es).preferences.autoRefresh = c.preferences.autoRefresh := by
  induction es generalizing c with
  | nil => rfl
  | cons e es ih =>
    change ((c.take e).takeAll es).preferences.autoRefresh = _
    rw [ih (c.take e) fun e' he => h e' (List.mem_cons_of_mem e he), c.take_flag (h e List.mem_cons_self)]

/-- The flag is the last one that was written, if that write did not fail. -/
theorem takeAll_switched (c : Settings σ) (before : List Event) (on : Bool) {after : List Event}
    (h : ∀ e ∈ after, e.switch? = none) :
    (c.takeAll (before ++ .setAutoRefresh on :: after)).preferences.autoRefresh =
      if (c.takeAll before).keeps (.setAutoRefresh on) then on
      else (c.takeAll before).preferences.autoRefresh := by
  rw [takeAll_append]
  change (((c.takeAll before).take (.setAutoRefresh on)).takeAll after).preferences.autoRefresh = _
  rw [takeAll_flag _ h, take_preferences]
  split <;> rfl

/-- Timer and flag agree just where the last switch was kept, or changed nothing of the flag. -/
theorem switched_iff (c : Settings σ) (es : List Event) :
    switchedTo c.preferences.autoRefresh es = (c.takeAll es).preferences.autoRefresh ↔
      ∀ before on after, es = before ++ .setAutoRefresh on :: after →
        (∀ e ∈ after, e.switch? = none) → (c.takeAll before).keeps (.setAutoRefresh on) = true ∨
          (c.takeAll before).preferences.autoRefresh = on := by
  have hlast {before : List Event} {on : Bool} {after : List Event}
      (h : ∀ e ∈ after, e.switch? = none) :
      switchedTo c.preferences.autoRefresh (before ++ .setAutoRefresh on :: after) = on := by
    rw [switchedTo_append]
    exact switchedTo_calm on h
  constructor
  · rintro heq before on after rfl h
    rw [hlast h, c.takeAll_switched before on h] at heq
    split at heq
    next hk => exact .inl hk
    next => exact .inr heq.symm
  · intro hall
    rcases last_switch es with h | ⟨before, on, after, rfl, h⟩
    · rw [switchedTo_calm _ h, c.takeAll_flag h]
    · rw [hlast h, c.takeAll_switched before on h]
      rcases hall before on after rfl h with hk | hsame
      · rw [if_pos hk]
      · rw [hsame, ite_self]

end Settings

namespace Console

variable {ς σ : Type} [LogService ς] [PreferenceStore σ]

theorem step_unbroken {s : State ς σ} (hs : s.Single) (hu : s.Unbroken) (m : Move) :
    (step s m).Single ∧ (step s m).Unbroken := by
  cases m with
  | turn i => exact ⟨program.resume_single hs i, program.resume_unbroken (Nat.zero_lt_succ _) hs hu i⟩
  | ask e =>
    exact ⟨hs.spawn _, hu.spawns [⟨true, e.stage⟩]⟩
  | wait ms => exact ⟨hs.wait ms, hu⟩
  | scroll position => exact ⟨hs.withWorld _, hu⟩
  | drop => exact ⟨hs.quiet (fun _ => .same _) rfl (fun _ h => h) (Nat.le_refl _), hu⟩

theorem unbroken_after {s : State ς σ} (hs : s.Single) (hu : s.Unbroken) (ms : List Move) :
    (after s ms).Single ∧ (after s ms).Unbroken := by
  induction ms with
  | nil => exact ⟨hs, hu⟩
  | cons m ms ih => exact step_unbroken ih.1 ih.2 m

theorem start_unbroken {service : ς} {store : σ} {scroll : UInt32} {r : Runner ς σ}
    (h : start service store scroll = .ok r) : r.state.Single ∧ r.state.Unbroken := by
  obtain ⟨d, first, -, -, hr⟩ := start_after h
  rw [hr]
  exact unbroken_after (Tasks.Program.single_start d) (Tasks.State.unbroken_of_none rfl) first

/-- The state of a console between two events of a script, of which some are through. -/
structure Between (c₀ : Settings σ) (events through rest : List Event) (s : State ς σ) : Prop where
  read : events = through ++ rest
  quit : .quit ∉ through
  settings : s.world.settings = c₀.takeAll through
  running : s.running = switchedTo c₀.preferences.autoRefresh through
  agree : s.running = s.world.preferences.autoRefresh ↔
    ∀ before on after, through = before ++ .setAutoRefresh on :: after →
      (∀ e ∈ after, e.switch? = none) → (c₀.takeAll before).keeps (.setAutoRefresh on) = true ∨
        (c₀.takeAll before).preferences.autoRefresh = on

/-- Between two events the timer runs just where the last switch has set it on. It agrees with its flag
unless the write of that switch failed and the flag was another before. -/
theorem running_between {service : ς} {store : σ} {scroll : UInt32} {d : Desk ς σ} {r : Runner ς σ}
    (hd : openDesk service store scroll = .ok d) (h : start service store scroll = .ok r)
    {events rest : List Event} {opening ms : List Move} (ho : ∀ m ∈ opening, m.internal = true)
    (hm : ∀ m ∈ ms, m.internal = true)
    (hrest : .script rest ∈ (after r.state (ms ++ .ask (.script events) :: opening)).stagesAt
      (after r.state opening).tasks.length) :
    ∃ through, Between d.settings events through rest
      (after r.state (ms ++ .ask (.script events) :: opening)) := by
  obtain ⟨through, place, settings, -, -⟩ := taking_after (ready_start hd h) events ho hm
  obtain ⟨read, quit, timer⟩ := place.timer hrest
  obtain ⟨single, unbroken⟩ := start_unbroken h
  have running := (unbroken_after single unbroken _).2.running.trans timer
  have hflag := congrArg (·.preferences.autoRefresh) settings
  refine ⟨through, read, quit, settings, running, ?_⟩
  rw [running, ← d.settings.switched_iff through, ← hflag]
  rfl

/-- The timer is switched on, and the write of that fails. -/
theorem running_between_failing :
    let store : MemoryStore := ⟨[("autoRefresh", "false"), ("seconds", "5")], some .writes⟩
    let d : Desk Deck MemoryStore := { dealt ⟨[]⟩ with store }
    let r : Runner Deck MemoryStore := { state := { world := d } }
    let events : List Event := [.setAutoRefresh true]
    let ms : List Move := [.turn 0, .turn 0, .turn 0]
    let s := after r.state (ms ++ .ask (.script events) :: [])
    openDesk ⟨[]⟩ store 0 = .ok d ∧ start ⟨[]⟩ store 0 = .ok r ∧ .script [] ∈ s.stagesAt 0 ∧
      (∃ through, Between d.settings events through [] s) ∧ s.running = true ∧
      s.world.preferences.autoRefresh = false := by
  intro store d r events ms s
  have hd : openDesk ⟨[]⟩ store 0 = .ok d := rfl
  have h : start ⟨[]⟩ store 0 = .ok r := rfl
  have ho : ∀ m ∈ ([] : List Move), m.internal = true := by simp
  have hm : ∀ m ∈ ms, m.internal = true := by decide
  have hrest : .script [] ∈ s.stagesAt 0 := by
    have he : s.stagesAt 0 = [.script []] := rfl
    simp [he]
  exact ⟨hd, h, hrest, running_between hd h ho hm hrest, by decide +kernel, by decide +kernel⟩

end Console

end LogDesk
