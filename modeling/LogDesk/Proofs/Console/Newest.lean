import LogDesk.Proofs.Console.Refresh

/-! Which of several refreshes the table is left with. One that is late changes nothing, one that is
not is shown as a whole, so the table always stands at the newest of those that have come. -/

namespace LogDesk

/-- Whether a call is of those that only new records give rise to. -/
def ViewCall.redraws : ViewCall → Bool
  | .renderLogs _ | .scrollTo _ => true
  | _ => false

/-- The records are those of the newest refresh that brought any. -/
def Newest (rs : List Reload) (records : List Record) : Prop :=
  (records = [] ∧ ∀ r ∈ rs, ∀ rows, r.outcome ≠ .ok rows) ∨
    ∃ r ∈ rs, r.outcome = .ok records ∧
      ∀ r' ∈ rs, ∀ rows, r'.outcome = .ok rows → r'.generation ≤ r.generation

namespace Table

variable {t : Table} {r : Reload} {records : List Record}

theorem brought_eq (h : t.brought? r = some records) :
    r.outcome = .ok records ∧ t.generation ≤ r.generation := by
  unfold brought? at h
  split at h
  · cases h
  next rows ho =>
    split at h
    · cases h
    next hg =>
      cases h
      exact ⟨ho, Nat.le_of_not_lt hg⟩

theorem brought_none (h : t.brought? r = none) {rows : List Record} (ho : r.outcome = .ok rows) :
    r.generation < t.generation := by
  simpa [brought?, ho] using h

theorem told_redraws (t : Table) (r : Reload) :
    (t.told (.ended r)).any ViewCall.redraws = (t.brought? r).isSome := by
  cases hb : t.brought? r with
  | none => simp only [told, hb]; rfl
  | some records => simp only [told, hb]; rfl

end Table

namespace Console

variable {ς σ : Type} [LogService ς] [PreferenceStore σ]

/-- The refreshes at whose end the log was rendered. -/
def rendered (s : State ς σ) : List Move → List Reload
  | [] => []
  | m :: earlier =>
    match happening (after s earlier) m with
    | some (.ended r) =>
      if (calls (after s earlier) m).any ViewCall.redraws then r :: rendered s earlier
      else rendered s earlier
    | _ => rendered s earlier

theorem rendered_ended {s : State ς σ} {ms : List Move} {m : Move} {r : Reload}
    (h : happening (after s ms) m = some (.ended r)) :
    rendered s (m :: ms) =
      if ((after s ms).world.table.brought? r).isSome then r :: rendered s ms else rendered s ms := by
  obtain ⟨toasts, hc⟩ := ended_calls h
  have ht : (toasts.map ViewCall.showToast).any ViewCall.redraws = false := by
    simp [ViewCall.redraws]
  simp only [rendered, h, hc, List.any_append, Table.told_redraws, ht, Bool.or_false]

theorem rendered_other {s : State ς σ} {ms : List Move} {m : Move}
    (h : ∀ r, happening (after s ms) m ≠ some (.ended r)) :
    rendered s (m :: ms) = rendered s ms := by
  rw [rendered]
  split
  next r hr => exact absurd hr (h r)
  next => rfl

theorem ended_other {s : State ς σ} {ms : List Move} {m : Move}
    (h : ∀ r, happening (after s ms) m ≠ some (.ended r)) : ended s (m :: ms) = ended s ms := by
  rw [ended]
  split
  next r hr => exact absurd hr (h r)
  next => rfl

/-- The table stands at the newest refresh that has come, and every one before it was shown before
it. -/
structure Settled (s : State ς σ) (ms : List Move) : Prop where
  stands : ((after s ms).world.table.records = [] ∧ (after s ms).world.table.generation = 0) ∨
    ∃ r ∈ ended s ms, r.outcome = .ok (after s ms).world.table.records ∧
      r.generation = (after s ms).world.table.generation
  newest : ∀ r ∈ ended s ms, ∀ rows, r.outcome = .ok rows →
    r.generation ≤ (after s ms).world.table.generation
  order : (rendered s ms).Pairwise fun later earlier => earlier.generation < later.generation
  below : ∀ r ∈ rendered s ms, r.generation ≤ (after s ms).world.table.generation

/-- What brings records is newer than all that the table has stood at. -/
theorem brought_newer {s : State ς σ} {ms : List Move} {m : Move} {r : Reload} {records : List Record}
    (hs : Settled s ms) (hn : Numbered s (m :: ms)) (hh : happening (after s ms) m = some (.ended r))
    (hb : (after s ms).world.table.brought? r = some records) :
    (after s ms).world.table.generation < r.generation := by
  have he : ended s (m :: ms) = r :: ended s ms := by simp [ended, hh]
  obtain ⟨-, hle⟩ := Table.brought_eq hb
  rcases hs.stands with ⟨-, hg⟩ | ⟨r', hr', -, hg⟩
  · have := (hn.le (hn.ended r (by rw [he]; exact List.mem_cons_self))).1
    omega
  · have ho := hn.once
    rw [he, List.pairwise_cons] at ho
    have := ho.1 r' hr'
    omega

/-- A refresh that has failed or is late leaves the table where it stands. -/
theorem settled_fallen {s : State ς σ} {ms : List Move} {m : Move} {r : Reload} (hs : Settled s ms)
    (hh : happening (after s ms) m = some (.ended r))
    (hb : (after s ms).world.table.brought? r = none) : Settled s (m :: ms) := by
  have he : ended s (m :: ms) = r :: ended s ms := by simp [ended, hh]
  have ht : (after s (m :: ms)).world.table = (after s ms).world.table := table_fallen hh hb
  have hr : rendered s (m :: ms) = rendered s ms := by rw [rendered_ended hh, hb]; rfl
  refine ⟨?_, ?_, hr ▸ hs.order, by rw [hr, ht]; exact hs.below⟩
  · rw [ht, he]
    rcases hs.stands with h | ⟨r', hr', h⟩
    · exact .inl h
    · exact .inr ⟨r', List.mem_cons_of_mem r hr', h⟩
  · intro r' hr' rows ho
    rw [he] at hr'
    rw [ht]
    rcases List.mem_cons.mp hr' with rfl | hr'
    · exact Nat.le_of_lt (Table.brought_none hb ho)
    · exact hs.newest r' hr' rows ho

/-- A refresh that is in time takes the table on. -/
theorem settled_brought {s : State ς σ} {ms : List Move} {m : Move} {r : Reload}
    {records : List Record} (hs : Settled s ms) (hn : Numbered s (m :: ms))
    (hh : happening (after s ms) m = some (.ended r))
    (hb : (after s ms).world.table.brought? r = some records) : Settled s (m :: ms) := by
  have he : ended s (m :: ms) = r :: ended s ms := by simp [ended, hh]
  have hr : rendered s (m :: ms) = r :: rendered s ms := by rw [rendered_ended hh, hb]; rfl
  have hrec : (after s (m :: ms)).world.table.records = records :=
    congrArg Table.records (table_brought hh hb)
  have hgen : (after s (m :: ms)).world.table.generation = r.generation :=
    congrArg Table.generation (table_brought hh hb)
  obtain ⟨ho, -⟩ := Table.brought_eq hb
  have hlt := brought_newer hs hn hh hb
  refine ⟨.inr ⟨r, ?_, ?_, hgen.symm⟩, ?_, ?_, ?_⟩
  · rw [he]
    exact List.mem_cons_self
  · rw [hrec, ho]
  · intro r' hr' rows ho'
    rw [he] at hr'
    rw [hgen]
    rcases List.mem_cons.mp hr' with rfl | hr'
    · exact Nat.le_refl _
    · have := hs.newest r' hr' rows ho'
      omega
  · rw [hr, List.pairwise_cons]
    refine ⟨fun r' hr' => ?_, hs.order⟩
    have := hs.below r' hr'
    omega
  · intro r' hr'
    rw [hr] at hr'
    rw [hgen]
    rcases List.mem_cons.mp hr' with rfl | hr'
    · exact Nat.le_refl _
    · have := hs.below r' hr'
      omega

theorem settled_other {s : State ς σ} {ms : List Move} {m : Move} (hs : Settled s ms)
    (hh : ∀ r, happening (after s ms) m ≠ some (.ended r)) : Settled s (m :: ms) := by
  obtain ⟨hrec, -, hgen⟩ := table_kept hh
  change (after s (m :: ms)).world.table.records = (after s ms).world.table.records at hrec
  change (after s (m :: ms)).world.table.generation = (after s ms).world.table.generation at hgen
  refine ⟨?_, ?_, ?_, ?_⟩
  · rw [hrec, hgen, ended_other hh]
    exact hs.stands
  · rw [hgen, ended_other hh]
    exact hs.newest
  · rw [rendered_other hh]
    exact hs.order
  · rw [hgen, rendered_other hh]
    exact hs.below

theorem settled_step {s : State ς σ} {ms : List Move} (m : Move) (hs : Settled s ms)
    (hn : Numbered s (m :: ms)) : Settled s (m :: ms) := by
  by_cases hh : ∃ r, happening (after s ms) m = some (.ended r)
  · obtain ⟨r, hh⟩ := hh
    cases hb : (after s ms).world.table.brought? r with
    | none => exact settled_fallen hs hh hb
    | some records => exact settled_brought hs hn hh hb
  · exact settled_other hs fun r hr => hh ⟨r, hr⟩

/-- A move neither changes what the table shows nor makes a call that has to do with it. -/
structure Untouched (s : State ς σ) (m : Move) : Prop where
  records : (step s m).world.records = s.world.records
  expansion : (step s m).world.expansion = s.world.expansion
  calls : ∀ c ∈ calls s m, c.onTable = false

theorem untouched_none {s : State ς σ} {m : Move} (h : happening s m = none) : Untouched s m := by
  have ht := table_none h
  refine ⟨congrArg Table.records ht, congrArg Table.expansion ht, fun c hc => ?_⟩
  rcases calls_told hc with hc | ⟨p, hp, -⟩
  · exact hc
  · rw [h] at hp
    cases hp

theorem untouched_began {s : State ς σ} {m : Move} {r : Reload}
    (h : happening s m = some (.began r)) : Untouched s m := by
  have ht := table_began h
  refine ⟨congrArg Table.records ht, congrArg Table.expansion ht, fun c hc => ?_⟩
  rcases calls_told hc with hc | ⟨p, hp, hc⟩
  · exact hc
  · rw [h] at hp
    cases hp
    cases hc

/-- Only the end of a refresh redraws. -/
theorem redraws_other {s : State ς σ} {m : Move} (h : ∀ r, happening s m ≠ some (.ended r))
    {c : ViewCall} (hc : c ∈ calls s m) : c.redraws = false := by
  rcases calls_told hc with hc | ⟨p, hp, hc⟩
  · cases c <;> first | rfl | cases hc
  · cases p with
    | began r => cases hc
    | ended r => exact absurd hp (h r)
    | expanded pos =>
      simp only [Table.told, Desk.opening, Option.mem_toList, Option.map_eq_some_iff] at hc
      obtain ⟨_, -, rfl⟩ := hc
      rfl
    | collapsed pos =>
      rw [List.mem_singleton.mp hc]
      rfl

variable {service : ς} {store : σ} {scroll : UInt32} {d : Desk ς σ}

theorem settled (hd : openDesk service store scroll = .ok d) (ms : List Move) :
    Settled ({ world := d } : State ς σ) ms := by
  induction ms with
  | nil =>
    obtain ⟨ht, -, -⟩ := openDesk_eq hd
    refine ⟨.inl ⟨congrArg Table.records ht, congrArg Table.generation ht⟩, ?_, ?_, ?_⟩
    · simp [ended]
    · simp [rendered]
    · simp [rendered]
  | cons m ms ih => exact settled_step m ih (numbered hd (m :: ms))

/-- How a refresh ends after others have: it is shown in one piece, or it is let fall because it has
failed or something newer has come. Only news of what it was begun for may follow. -/
inductive Ends (s : State ς σ) (earlier : List Reload) (m : Move) (r : Reload) : Prop where
  | shown (records : List Record) (toasts : List Toast) (outcome : r.outcome = .ok records)
      (newest : ∀ r' ∈ earlier, ∀ rows, r'.outcome = .ok rows → r'.generation < r.generation)
      (records_eq : (step s m).world.records = records)
      (expansion : (step s m).world.expansion = s.world.expansion.reindex records.length)
      (calls : calls s m =
        [.renderLogs (Row.ofRecords 0 records)] ++
          (step s m).world.expansion.positions.filterMap (Desk.opening records) ++
            [.scrollTo r.scroll] ++ toasts.map .showToast)
  | fallen (toasts : List Toast)
      (late : ∀ rows, r.outcome = .ok rows →
        ∃ r' ∈ earlier, ∃ rows', r'.outcome = .ok rows' ∧ r.generation < r'.generation)
      (records : (step s m).world.records = s.world.records)
      (expansion : (step s m).world.expansion = s.world.expansion)
      (calls : calls s m = toasts.map .showToast)

theorem ended_ends {s : State ς σ} {ms : List Move} {m : Move} {r : Reload} (hs : Settled s ms)
    (hn : Numbered s (m :: ms)) (hh : happening (after s ms) m = some (.ended r)) :
    Ends (after s ms) (ended s ms) m r := by
  obtain ⟨toasts, hc⟩ := ended_calls hh
  cases hb : (after s ms).world.table.brought? r with
  | none =>
    have ht := table_fallen hh hb
    refine .fallen toasts (fun rows ho => ?_) (congrArg Table.records ht)
      (congrArg Table.expansion ht) ?_
    · have hlt := Table.brought_none hb ho
      rcases hs.stands with ⟨-, hg⟩ | ⟨r', hr', ho', hg⟩
      · omega
      · exact ⟨r', hr', _, ho', by omega⟩
    · rw [hc]
      simp [Table.told, hb]
  | some records =>
    obtain ⟨ho, -⟩ := Table.brought_eq hb
    have hlt := brought_newer hs hn hh hb
    have ht := table_brought hh hb
    have he : (step (after s ms) m).world.expansion =
        (after s ms).world.expansion.reindex records.length := congrArg Table.expansion ht
    refine .shown records toasts ho (fun r' hr' rows ho' => ?_) (congrArg Table.records ht) he ?_
    · have := hs.newest r' hr' rows ho'
      omega
    · rw [hc, he]
      simp only [Table.told, hb]
      rfl

/-- What holds of refreshes after some moves, however they overlap. -/
structure Orderly (s : State ς σ) (ms : List Move) : Prop where
  /-- Refreshes are numbered in the order in which the server is asked for its records. -/
  begun : (begun s ms).map (·.generation) = (List.range' 1 (after s ms).world.asked).reverse
  /-- A refresh keeps in mind how far down the view was when it began. -/
  scroll : ∀ m r, happening (after s ms) m = some (.began r) → r.scroll = (after s ms).world.scroll
  ended : ∀ r ∈ ended s ms, r ∈ Console.begun s ms
  once : (Console.ended s ms).Pairwise fun r r' => r.generation ≠ r'.generation
  newest : Newest (Console.ended s ms) (after s ms).world.records
  rendered : (rendered s ms).Pairwise fun later earlier => earlier.generation < later.generation
  whole : ∀ m r, happening (after s ms) m = some (.ended r) →
    Ends (after s ms) (Console.ended s ms) m r
  /-- Nothing but the end of a refresh brings records or redraws. -/
  between : ∀ m, (∀ r, happening (after s ms) m ≠ some (.ended r)) →
    (after s (m :: ms)).world.records = (after s ms).world.records ∧
      (after s (m :: ms)).world.expansion.lastTotal = (after s ms).world.expansion.lastTotal ∧
        ∀ c ∈ calls (after s ms) m, c.redraws = false
  /-- What is no end of a refresh either and expands or collapses no row does not show. -/
  untouched : ∀ m,
    (happening (after s ms) m = none ∨ ∃ r, happening (after s ms) m = some (.began r)) →
      Untouched (after s ms) m
  /-- Nothing shows of a refresh that another task has its own put down, and it does not end. -/
  broken : ∀ i m r, Carries (after s ms) i r → m ≠ .turn i → ¬Carries (after s (m :: ms)) i r →
    Untouched (after s ms) m ∧ ∀ later, r ∉ Console.ended s (later ++ m :: ms)

theorem Settled.newest_records {s : State ς σ} {ms : List Move} (hs : Settled s ms)
    (hn : Numbered s ms) : Newest (ended s ms) (after s ms).world.records := by
  rcases hs.stands with ⟨hr, hg⟩ | ⟨r, hr, ho, hg⟩
  · left
    refine ⟨hr, fun r hr rows ho => ?_⟩
    have hle := hs.newest r hr rows ho
    have := (hn.le (hn.ended r hr)).1
    omega
  · right
    exact ⟨r, hr, ho, fun r' hr' rows ho' => hg ▸ hs.newest r' hr' rows ho'⟩

/-- The table always shows the newest refresh that has come, and no half of any. -/
theorem refreshes_orderly (hd : openDesk service store scroll = .ok d) (ms : List Move) :
    Orderly ({ world := d } : State ς σ) ms where
  begun := by rw [(numbered hd ms).begun, refreshes_asked hd]
  scroll := fun _ _ hh => (began_eq hh).2
  ended := (numbered hd ms).ended
  once := (numbered hd ms).once
  newest := (settled hd ms).newest_records (numbered hd ms)
  rendered := (settled hd ms).order
  whole := fun m _ hh => ended_ends (settled hd ms) (numbered hd (m :: ms)) hh
  between := fun _ hh => ⟨(table_kept hh).1, (table_kept hh).2.1, fun _ hc => redraws_other hh hc⟩
  untouched := by
    rintro m (hh | ⟨r, hh⟩)
    · exact untouched_none hh
    · exact untouched_began hh
  broken := fun _ _ _ hc hm hc' =>
    ⟨untouched_none (broken_happening hc hm hc'), ended_broken (numbered hd) hc hm hc'⟩

/-- A refresh by the timer that never comes back, one that comes back late, one in time, and one that
fails. -/
theorem refreshes_orderly_overlapping :
    let deck : Deck := ⟨[(.ok [], 9000), (.ok [{ message := "a" }], 30),
      (.ok [{ message := "b" }, { message := "a" }], 10), (.error (.status 500 ""), 20)]⟩
    let s : State Deck MemoryStore := { world := dealt deck }
    let ms : List Move := [.turn 1, .wait 4000, .turn 5, .wait 5000, .turn 5, .turn 5, .ask .stopTimer,
      .turn 2, .wait 10, .turn 4, .wait 10, .turn 3, .wait 10, .turn 4, .turn 3, .turn 2,
      .ask (.handle .refresh), .ask (.handle .refresh), .ask (.handle .refresh),
      .turn 1, .turn 1, .turn 0, .turn 0, .ask .startTimer]
    openDesk deck ({} : MemoryStore) 0 = .ok (dealt deck) ∧
      (begun s ms).map (·.generation) = [4, 3, 2, 1] ∧
      (ended s ms).map (·.generation) = [2, 4, 3] ∧ (rendered s ms).map (·.generation) = [3] ∧
      Orderly s ms := by
  intro deck s ms
  have hd : openDesk deck ({} : MemoryStore) 0 = .ok (dealt deck) := rfl
  exact ⟨hd, by decide +kernel, by decide +kernel, by decide +kernel, refreshes_orderly hd ms⟩

end Console

end LogDesk
