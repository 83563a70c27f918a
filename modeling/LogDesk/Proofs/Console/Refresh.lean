import LogDesk.Proofs.Console.Stage

/-! Refreshes that overlap. Each is numbered when it begins and is carried by one task until it ends
or is broken off, so no number ends twice, and the table always stands at the newest of those that
have brought records. -/

namespace LogDesk.Console

variable {ς σ : Type}

/-- Task `i` is to end the refresh `r` when it goes on. -/
def Carries (s : State ς σ) (i : Nat) (r : Reload) : Prop :=
  (∃ news, .reloaded r news ∈ s.stagesAt i) ∨ s.workAt i = some r

theorem Carries.lt {s : State ς σ} {i : Nat} {r : Reload} (h : Carries s i r) :
    i < s.tasks.length := by
  by_contra hi
  have hn : s.tasks[i]? = none := List.getElem?_eq_none (by omega)
  rcases h with ⟨news, h⟩ | h
  · simp [Tasks.State.stagesAt, hn] at h
  · simp [Tasks.State.workAt, hn] at h

variable [LogService ς]

/-- A refresh gets the next number, and stands for how far down the view is when it begins. -/
theorem began_eq {s : State ς σ} {m : Move} {r : Reload} (h : happening s m = some (.began r)) :
    r.generation = s.world.refreshes + 1 ∧ r.scroll = s.world.scroll := by
  unfold happening at h
  split at h
  · split at h
    · cases happening_began h
      exact ⟨rfl, rfl⟩
    · cases h
      exact ⟨rfl, rfl⟩
    · cases h
    · cases h
  · cases h

variable [PreferenceStore σ]

/-- A refresh is ended by the task that carries it. -/
theorem ended_carried {s : State ς σ} {m : Move} {r : Reload}
    (h : happening s m = some (.ended r)) : ∃ i, m = .turn i ∧ Carries s i r := by
  unfold happening at h
  split at h
  next i =>
    refine ⟨i, rfl, ?_⟩
    split at h
    · next stage hd =>
      obtain ⟨news, rfl⟩ := happening_ended h
      obtain ⟨hs, -⟩ := program.act_stagesAt hd
      exact .inl ⟨news, by simp [hs]⟩
    · cases h
    · next work hd =>
      cases h
      exact .inr (program.endTick_workAt hd).2.1
    · cases h
  next => cases h

/-- A task carries what it did before, unless it has just put that down, or what it has just begun. -/
theorem carries_step {s : State ς σ} {m : Move} {i : Nat} {r : Reload} (h : Carries (step s m) i r) :
    (Carries s i r ∧ (m = .turn i → happening s m = none)) ∨
      (m = .turn i ∧ happening s m = some (.began r)) := by
  rcases h with ⟨news, h⟩ | h
  · cases stage_comes h with
    | stays h idle =>
      refine .inl ⟨.inl ⟨news, h⟩, ?_⟩
      rintro rfl
      simp [happening, idle rfl]
    | goes stage turn deed h =>
      cases h with
      | reloads _ _ _ hb =>
        subst turn
        exact .inr ⟨rfl, by simpa [happening, deed] using hb⟩
    | begins _ _ _ _ _ _ _ h => cases h
    | asked e _ _ he => cases e <;> cases he
  · rcases work_comes h with ⟨h, idle⟩ | ⟨rfl, beat, hd, rfl⟩
    · refine .inl ⟨.inr h, ?_⟩
      rintro rfl
      simp [happening, idle rfl]
    · exact .inr ⟨rfl, by simp [happening, hd]⟩

/-- What breaks a refresh off has no deed of its own. -/
theorem broken_happening {s : State ς σ} {m : Move} {i : Nat} {r : Reload} (hc : Carries s i r)
    (hm : m ≠ .turn i) (hc' : ¬Carries (step s m) i r) : happening s m = none := by
  cases m with
  | turn k =>
    have hi : i ≠ k := fun he => hm (he ▸ rfl)
    cases hd : s.deed? k with
    | none => simp [happening, hd]
    | some deed =>
      have ht : (step s (.turn k)).tasks[i]? = s.tasks[i]? := program.deed_get hd hi hc.lt
      refine absurd ?_ hc'
      simpa only [Carries, Tasks.State.stagesAt, Tasks.State.workAt, ht] using hc
  | _ => rfl

def begun (s : State ς σ) : List Move → List Reload
  | [] => []
  | m :: earlier =>
    match happening (after s earlier) m with
    | some (.began r) => r :: begun s earlier
    | _ => begun s earlier

def ended (s : State ς σ) : List Move → List Reload
  | [] => []
  | m :: earlier =>
    match happening (after s earlier) m with
    | some (.ended r) => r :: ended s earlier
    | _ => ended s earlier

/-- Every refresh has a number of its own, the next one when it begins, and ends once at most. -/
structure Numbered (s : State ς σ) (ms : List Move) : Prop where
  begun : (begun s ms).map (·.generation) =
    (List.range' 1 (after s ms).world.refreshes).reverse
  carried : ∀ i r, Carries (after s ms) i r →
    r ∈ Console.begun s ms ∧ ∀ r' ∈ ended s ms, r'.generation ≠ r.generation
  apart : ∀ i j r r', Carries (after s ms) i r → Carries (after s ms) j r' →
    r.generation = r'.generation → i = j ∧ r = r'
  ended : ∀ r ∈ ended s ms, r ∈ Console.begun s ms
  once : (Console.ended s ms).Pairwise fun r r' => r.generation ≠ r'.generation

theorem Numbered.le {s : State ς σ} {ms : List Move} (hn : Numbered s ms) {r : Reload}
    (hr : r ∈ Console.begun s ms) :
    1 ≤ r.generation ∧ r.generation ≤ (after s ms).world.refreshes := by
  have hm : r.generation ∈ (Console.begun s ms).map (·.generation) := List.mem_map_of_mem hr
  rw [hn.begun, List.mem_reverse, List.mem_range'_1] at hm
  omega

theorem Numbered.fresh {s : State ς σ} {ms : List Move} (hn : Numbered s ms) {m : Move} {r : Reload}
    (hr : r ∈ Console.begun s ms) : happening (after s ms) m ≠ some (.began r) := by
  intro h
  have hl := hn.le hr
  obtain ⟨hg, -⟩ := began_eq h
  omega

theorem refreshes_cons (s : State ς σ) (m : Move) (ms : List Move) :
    (after s (m :: ms)).world.refreshes =
      (after s ms).world.refreshes + (happening (after s ms) m).elim 0 Happening.asks := by
  have ht := congrArg Table.refreshes (step_table (after s ms) m)
  change (after s (m :: ms)).world.refreshes = _ at ht
  rw [ht]
  cases happening (after s ms) m with
  | none => rfl
  | some h =>
    cases h with
    | ended r =>
      simp only [Option.elim_some, Table.take]
      split <;> rfl
    | _ => rfl

/-- Another number is given out. -/
theorem numbered_began {s : State ς σ} {ms : List Move} {m : Move} {r : Reload}
    (hn : Numbered s ms) (hh : happening (after s ms) m = some (.began r)) :
    Numbered s (m :: ms) := by
  have hb : begun s (m :: ms) = r :: begun s ms := by simp [begun, hh]
  have he : ended s (m :: ms) = ended s ms := by simp [ended, hh]
  have href := refreshes_cons s m ms
  obtain ⟨hg, -⟩ := began_eq hh
  rw [hh] at href
  -- what was carried before has a lower number
  have hold {i : Nat} {r' : Reload} (hc : Carries (after s ms) i r') : r'.generation < r.generation := by
    have hl := hn.le (hn.carried i r' hc).1
    omega
  have hstep {i : Nat} {r' : Reload} (hc : Carries (after s (m :: ms)) i r') :
      Carries (after s ms) i r' ∨ m = .turn i ∧ r' = r := by
    rcases carries_step hc with ⟨hc, -⟩ | ⟨hm, hr⟩
    · exact .inl hc
    · rw [hh] at hr
      cases hr
      exact .inr ⟨hm, rfl⟩
  refine ⟨?_, ?_, ?_, ?_, he ▸ hn.once⟩
  · rw [hb, List.map_cons, hn.begun, href, hg]
    simp only [Option.elim_some, Happening.asks, List.range'_concat, List.reverse_append,
      List.reverse_singleton, List.singleton_append, Nat.one_mul, Nat.add_comm 1]
  · intro i r' hc
    rw [hb, he]
    rcases hstep hc with hc | ⟨-, rfl⟩
    · exact ⟨List.mem_cons_of_mem r (hn.carried i r' hc).1, (hn.carried i r' hc).2⟩
    · refine ⟨List.mem_cons_self, fun r'' hr => ?_⟩
      have hl := hn.le (hn.ended r'' hr)
      omega
  · intro i j r₁ r₂ h₁ h₂ heq
    rcases hstep h₁ with h₁ | ⟨hi, rfl⟩ <;> rcases hstep h₂ with h₂ | ⟨hj, rfl⟩
    · exact hn.apart i j r₁ r₂ h₁ h₂ heq
    · have := hold h₁
      omega
    · have := hold h₂
      omega
    · cases hi.symm.trans hj
      exact ⟨rfl, rfl⟩
  · intro r' hr
    rw [he] at hr
    rw [hb]
    exact List.mem_cons_of_mem r (hn.ended r' hr)

/-- A number is used up. -/
theorem numbered_ended {s : State ς σ} {ms : List Move} {m : Move} {r : Reload}
    (hn : Numbered s ms) (hh : happening (after s ms) m = some (.ended r)) :
    Numbered s (m :: ms) := by
  have hb : begun s (m :: ms) = begun s ms := by simp [begun, hh]
  have he : ended s (m :: ms) = r :: ended s ms := by simp [ended, hh]
  have href := refreshes_cons s m ms
  rw [hh] at href
  obtain ⟨k, hm, hk⟩ := ended_carried hh
  have hstep {i : Nat} {r' : Reload} (hc : Carries (after s (m :: ms)) i r') :
      Carries (after s ms) i r' ∧ r.generation ≠ r'.generation := by
    rcases carries_step hc with ⟨hc, hi⟩ | ⟨-, hr⟩
    · refine ⟨hc, fun heq => ?_⟩
      obtain ⟨rfl, rfl⟩ := hn.apart k i r r' hk hc heq
      rw [hi hm] at hh
      cases hh
    · rw [hh] at hr
      cases hr
  refine ⟨by rw [hb, hn.begun, href]; rfl, ?_, ?_, ?_, ?_⟩
  · intro i r' hc
    obtain ⟨hc, hr⟩ := hstep hc
    rw [hb, he]
    refine ⟨(hn.carried i r' hc).1, fun r'' hmem => ?_⟩
    rcases List.mem_cons.mp hmem with rfl | hmem
    · exact hr
    · exact (hn.carried i r' hc).2 r'' hmem
  · intro i j r₁ r₂ h₁ h₂
    exact hn.apart i j r₁ r₂ (hstep h₁).1 (hstep h₂).1
  · intro r' hr
    rw [he] at hr
    rw [hb]
    rcases List.mem_cons.mp hr with rfl | hr
    · exact (hn.carried k _ hk).1
    · exact hn.ended r' hr
  · rw [he, List.pairwise_cons]
    exact ⟨fun r' hr => ((hn.carried k r hk).2 r' hr).symm, hn.once⟩

/-- Moves that neither begin nor end a refresh leave the numbers alone. -/
theorem numbered_other {s : State ς σ} {ms : List Move} {m : Move} (hn : Numbered s ms)
    (hb : begun s (m :: ms) = begun s ms) (he : ended s (m :: ms) = ended s ms)
    (hr : (after s (m :: ms)).world.refreshes = (after s ms).world.refreshes)
    (hh : ∀ r, happening (after s ms) m ≠ some (.began r)) : Numbered s (m :: ms) := by
  have hstep {i : Nat} {r : Reload} (hc : Carries (after s (m :: ms)) i r) :
      Carries (after s ms) i r := by
    rcases carries_step hc with ⟨hc, -⟩ | ⟨-, hb⟩
    · exact hc
    · exact absurd hb (hh r)
  refine ⟨by rw [hb, hn.begun, hr], ?_, ?_, ?_, he ▸ hn.once⟩
  · intro i r hc
    rw [hb, he]
    exact hn.carried i r (hstep hc)
  · intro i j r₁ r₂ h₁ h₂
    exact hn.apart i j r₁ r₂ (hstep h₁) (hstep h₂)
  · rw [hb, he]
    exact hn.ended

theorem numbered_step {s : State ς σ} {ms : List Move} (m : Move) (hn : Numbered s ms) :
    Numbered s (m :: ms) := by
  have href := refreshes_cons s m ms
  cases hh : happening (after s ms) m with
  | none =>
    exact numbered_other hn (by simp [begun, hh]) (by simp [ended, hh]) (by simpa [hh] using href)
      (by simp [hh])
  | some h =>
    cases h with
    | began r => exact numbered_began hn hh
    | ended r => exact numbered_ended hn hh
    | expanded pos | collapsed pos =>
      exact numbered_other hn (by simp [begun, hh]) (by simp [ended, hh])
        (by simpa [hh, Happening.asks] using href) (by simp [hh])

theorem begun_later {s : State ς σ} {ms : List Move} {r : Reload} (h : r ∈ begun s ms)
    (later : List Move) : r ∈ begun s (later ++ ms) := by
  induction later with
  | nil => exact h
  | cons m later ih =>
    rw [List.cons_append, begun]
    split
    · exact List.mem_cons_of_mem _ ih
    · exact ih

/-- A refresh that has begun and that no task carries is not taken up again. -/
theorem dropped_later {s : State ς σ} (hn : ∀ ms, Numbered s ms) {ms : List Move} {r : Reload}
    (hb : r ∈ begun s ms) (hc : ∀ i, ¬Carries (after s ms) i r) (later : List Move) (i : Nat) :
    ¬Carries (after s (later ++ ms)) i r := by
  induction later generalizing i with
  | nil => exact hc i
  | cons m later ih =>
    intro h
    rcases carries_step h with ⟨h, -⟩ | ⟨-, hh⟩
    · exact ih i h
    · exact (hn (later ++ ms)).fresh (begun_later hb later) hh

/-- A refresh whose task is made to put it down by another task does not end. -/
theorem ended_broken {s : State ς σ} (hn : ∀ ms, Numbered s ms) {ms : List Move} {m : Move} {i : Nat}
    {r : Reload} (hc : Carries (after s ms) i r) (hm : m ≠ .turn i)
    (hc' : ¬Carries (after s (m :: ms)) i r) (later : List Move) :
    r ∉ ended s (later ++ m :: ms) := by
  have hb : r ∈ begun s (m :: ms) := begun_later ((hn ms).carried i r hc).1 [m]
  have hnone (j : Nat) : ¬Carries (after s (m :: ms)) j r := by
    intro h
    rcases carries_step h with ⟨h, -⟩ | ⟨-, hh⟩
    · obtain ⟨rfl, -⟩ := (hn ms).apart i j r r hc h rfl
      exact hc' ‹_›
    · exact (hn ms).fresh ((hn ms).carried i r hc).1 hh
  induction later with
  | nil =>
    intro h
    rw [List.nil_append, ended] at h
    split at h
    next r' hh =>
      rcases List.mem_cons.mp h with rfl | h
      · obtain ⟨j, rfl, hj⟩ := ended_carried hh
        obtain ⟨rfl, -⟩ := (hn ms).apart i j r r hc hj rfl
        exact hm rfl
      · exact ((hn ms).carried i r hc).2 r h rfl
    next => exact ((hn ms).carried i r hc).2 r h rfl
  | cons m' later ih =>
    intro h
    rw [List.cons_append, ended] at h
    split at h
    next r' hh =>
      rcases List.mem_cons.mp h with rfl | h
      · obtain ⟨j, -, hj⟩ := ended_carried hh
        exact dropped_later hn hb hnone later j hj
      · exact ih h
    next => exact ih h

variable {service : ς} {store : σ} {scroll : UInt32} {d : Desk ς σ}

theorem numbered_start (hd : openDesk service store scroll = .ok d) :
    Numbered ({ world := d } : State ς σ) [] := by
  obtain ⟨ht, -, -⟩ := openDesk_eq hd
  have hr : d.refreshes = 0 := congrArg Table.refreshes ht
  have hc (i : Nat) (r : Reload) : ¬Carries ({ world := d } : State ς σ) i r := by
    rintro (⟨news, h⟩ | h)
    · simp [Tasks.State.stagesAt] at h
    · simp [Tasks.State.workAt] at h
  refine ⟨by simp [begun, after, hr], fun i r h => absurd h (hc i r),
    fun i j r r' h => absurd h (hc i r), by simp [ended], by simp [ended]⟩

theorem numbered (hd : openDesk service store scroll = .ok d) (ms : List Move) :
    Numbered ({ world := d } : State ς σ) ms := by
  induction ms with
  | nil => exact numbered_start hd
  | cons m ms ih => exact numbered_step m ih

/-- The server was asked for its records once for each refresh. -/
theorem refreshes_asked (hd : openDesk service store scroll = .ok d) (ms : List Move) :
    (after ({ world := d } : State ς σ) ms).world.refreshes =
      (after ({ world := d } : State ς σ) ms).world.asked := by
  induction ms with
  | nil =>
    obtain ⟨ht, -, ha⟩ := openDesk_eq hd
    exact (congrArg Table.refreshes ht).trans ha.symm
  | cons m ms ih => rw [refreshes_cons, ih, after, (step_does _ m).asked]

end LogDesk.Console
