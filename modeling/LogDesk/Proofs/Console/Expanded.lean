import LogDesk.Proofs.Console.Screen

/-! Which rows are expanded. New records come in at the front, so a row is known by its distance from
the end. The rows that are expanded are those that the user has expanded and not collapsed since,
whichever refreshes came between. -/

namespace LogDesk

/-- Of any two refreshes that brought records, the one that began later brought those of the other,
with more before them or with none. -/
def Growing (rs : List Reload) : Prop :=
  ∀ r ∈ rs, ∀ r' ∈ rs, r.generation < r'.generation →
    ∀ rows ∈ r.outcome.toOption, ∀ rows' ∈ r'.outcome.toOption, rows <:+ rows'

instance (rs : List Reload) : Decidable (Growing rs) :=
  inferInstanceAs (Decidable (∀ r ∈ rs, ∀ r' ∈ rs, r.generation < r'.generation →
    ∀ rows ∈ r.outcome.toOption, ∀ rows' ∈ r'.outcome.toOption, rows <:+ rows'))

theorem Growing.sublist {rs rs' : List Reload} (h : Growing rs') (hs : rs.Sublist rs') : Growing rs :=
  fun r hr r' hr' => h r (hs.subset hr) r' (hs.subset hr')

namespace Console

variable {ς σ : Type} [LogService ς] [PreferenceStore σ]

/-- The user has expanded the row of a record, `k`th from the end, and has not collapsed it since. -/
inductive Kept (s : State ς σ) (k : Nat) (rec : Record) : List Move → Prop where
  | expanded {m : Move} {ms : List Move} {pos : Nat}
      (move : happening (after s ms) m = some (.expanded pos))
      (place : pos + k = (after s ms).world.records.length)
      (row : (after s ms).world.records[pos]? = some rec) : Kept s k rec (m :: ms)
  | stays {m : Move} {ms : List Move} (before : Kept s k rec ms)
      (move : ∀ pos, happening (after s ms) m = some (.collapsed pos) →
        pos + k ≠ (after s ms).world.records.length) : Kept s k rec (m :: ms)

theorem kept_cons {s : State ς σ} {k : Nat} {rec : Record} {m : Move} {ms : List Move} :
    Kept s k rec (m :: ms) ↔
      (∃ pos, happening (after s ms) m = some (.expanded pos) ∧
        pos + k = (after s ms).world.records.length ∧
          (after s ms).world.records[pos]? = some rec) ∨
      (Kept s k rec ms ∧ ∀ pos, happening (after s ms) m = some (.collapsed pos) →
        pos + k ≠ (after s ms).world.records.length) := by
  constructor
  · intro h
    cases h with
    | expanded move place row => exact .inl ⟨_, move, place, row⟩
    | stays before move => exact .inr ⟨before, move⟩
  · rintro (⟨pos, move, place, row⟩ | ⟨before, move⟩)
    · exact .expanded move place row
    · exact .stays before move

/-- The expanded positions in range are those of the rows that the user keeps expanded. -/
structure Followed (s : State ς σ) (ms : List Move) : Prop where
  kept : ∀ k rec, Kept s k rec ms → ∃ p ∈ (after s ms).world.expansion.positions,
    p + k = (after s ms).world.records.length ∧ (after s ms).world.records[p]? = some rec
  only : ∀ p ∈ (after s ms).world.expansion.positions, p < (after s ms).world.records.length →
    ∃ k rec, p + k = (after s ms).world.records.length ∧ Kept s k rec ms

theorem followed_same {s : State ς σ} {ms : List Move} {m : Move} (hf : Followed s ms)
    (hr : (after s (m :: ms)).world.records = (after s ms).world.records)
    (he : (after s (m :: ms)).world.expansion = (after s ms).world.expansion)
    (hx : ∀ pos, happening (after s ms) m ≠ some (.expanded pos))
    (hc : ∀ pos, happening (after s ms) m ≠ some (.collapsed pos)) : Followed s (m :: ms) := by
  have hk {k : Nat} {rec : Record} : Kept s k rec (m :: ms) ↔ Kept s k rec ms := by
    rw [kept_cons]
    constructor
    · rintro (⟨pos, h, -⟩ | ⟨h, -⟩)
      · exact absurd h (hx pos)
      · exact h
    · exact fun h => .inr ⟨h, fun pos hp => absurd hp (hc pos)⟩
  refine ⟨fun k rec h => ?_, fun p hp hlt => ?_⟩
  · rw [hr, he]
    exact hf.kept k rec (hk.mp h)
  · rw [he] at hp
    rw [hr] at hlt ⊢
    obtain ⟨k, rec, hpk, h⟩ := hf.only p hp hlt
    exact ⟨k, rec, hpk, hk.mpr h⟩

theorem followed_expanded {s : State ς σ} {ms : List Move} {m : Move} {pos : Nat}
    (hf : Followed s ms) (hh : happening (after s ms) m = some (.expanded pos)) :
    Followed s (m :: ms) := by
  have hr : (after s (m :: ms)).world.records = (after s ms).world.records :=
    congrArg Table.records (table_expanded hh)
  have he : (after s (m :: ms)).world.expansion = (after s ms).world.expansion.expand pos :=
    congrArg Table.expansion (table_expanded hh)
  refine ⟨fun k rec h => ?_, fun p hp hlt => ?_⟩
  · rw [hr, he]
    rcases kept_cons.mp h with ⟨pos', hh', hk, hrow⟩ | ⟨h, -⟩
    · rw [hh] at hh'
      cases hh'
      exact ⟨pos, Expansion.mem_expand.mpr (.inl rfl), hk, hrow⟩
    · obtain ⟨p, hp, hk, hrow⟩ := hf.kept k rec h
      exact ⟨p, Expansion.mem_expand.mpr (.inr hp), hk, hrow⟩
  · rw [he] at hp
    rw [hr] at hlt ⊢
    rcases Expansion.mem_expand.mp hp with rfl | hp
    · exact ⟨(after s ms).world.records.length - p, _, by omega,
        .expanded hh (by omega) (List.getElem?_eq_getElem hlt)⟩
    · obtain ⟨k, rec, hk, h⟩ := hf.only p hp hlt
      exact ⟨k, rec, hk, .stays h (by simp [hh])⟩

theorem followed_collapsed {s : State ς σ} {ms : List Move} {m : Move} {pos : Nat}
    (hf : Followed s ms) (hh : happening (after s ms) m = some (.collapsed pos)) :
    Followed s (m :: ms) := by
  have hr : (after s (m :: ms)).world.records = (after s ms).world.records :=
    congrArg Table.records (table_collapsed hh)
  have he : (after s (m :: ms)).world.expansion = (after s ms).world.expansion.collapse pos :=
    congrArg Table.expansion (table_collapsed hh)
  refine ⟨fun k rec h => ?_, fun p hp hlt => ?_⟩
  · rw [hr, he]
    rcases kept_cons.mp h with ⟨pos', hh', -⟩ | ⟨h, hne⟩
    · rw [hh] at hh'
      cases hh'
    · obtain ⟨p, hp, hk, hrow⟩ := hf.kept k rec h
      have := hne pos hh
      exact ⟨p, Expansion.mem_collapse.mpr ⟨hp, by omega⟩, hk, hrow⟩
  · rw [he] at hp
    rw [hr] at hlt ⊢
    obtain ⟨hp, hne⟩ := Expansion.mem_collapse.mp hp
    obtain ⟨k, rec, hk, h⟩ := hf.only p hp hlt
    refine ⟨k, rec, hk, .stays h fun pos' hh' => ?_⟩
    rw [hh] at hh'
    cases hh'
    omega

/-- A refresh that puts records before those there are moves every row back, and the expanded
positions with them. -/
theorem followed_grown {s : State ς σ} {ms : List Move} {m : Move} {r : Reload}
    {front : List Record} (hf : Followed s ms) (hh : happening (after s ms) m = some (.ended r))
    (hl : (after s ms).world.expansion.lastTotal = (after s ms).world.records.length)
    (hr : (after s (m :: ms)).world.records = front ++ (after s ms).world.records)
    (he : (after s (m :: ms)).world.expansion = (after s ms).world.expansion.reindex
      (front ++ (after s ms).world.records).length) : Followed s (m :: ms) := by
  have hlen : (front ++ (after s ms).world.records).length -
      (after s ms).world.expansion.lastTotal = front.length := by
    rw [hl, List.length_append]
    omega
  refine ⟨fun k rec h => ?_, fun p hp hlt => ?_⟩
  · rw [hr, he]
    rcases kept_cons.mp h with ⟨pos', hh', -⟩ | ⟨h, -⟩
    · rw [hh] at hh'
      cases hh'
    · obtain ⟨p, hp, hk, hrow⟩ := hf.kept k rec h
      obtain ⟨hlt, -⟩ := List.getElem?_eq_some_iff.mp hrow
      refine ⟨p + front.length, Expansion.mem_reindex.mpr ⟨p, hp, by rw [hlen], ?_⟩, ?_, ?_⟩
      · rw [List.length_append]
        omega
      · rw [List.length_append]
        omega
      · rw [List.getElem?_append_right (by omega), Nat.add_sub_cancel]
        exact hrow
  · rw [he] at hp
    rw [hr] at hlt ⊢
    obtain ⟨q, hq, rfl, -⟩ := Expansion.mem_reindex.mp hp
    rw [hlen, List.length_append] at hlt
    obtain ⟨k, rec, hk, h⟩ := hf.only q hq (by omega)
    refine ⟨k, rec, ?_, .stays h (by simp [hh])⟩
    rw [hlen, List.length_append]
    omega

/-- Where the log only grows, what a refresh brings ends in what the table has held. -/
theorem brought_suffix {s : State ς σ} {ms : List Move} {m : Move} {r : Reload}
    {records : List Record} (hs : Settled s ms) (hn : Numbered s (m :: ms))
    (hg : Growing (ended s (m :: ms))) (hh : happening (after s ms) m = some (.ended r))
    (hb : (after s ms).world.table.brought? r = some records) :
    (after s ms).world.records <:+ records := by
  have hlt := brought_newer hs hn hh hb
  obtain ⟨ho, -⟩ := Table.brought_eq hb
  have he : ended s (m :: ms) = r :: ended s ms := by simp [ended, hh]
  rw [he] at hg
  rcases hs.stands with ⟨hr, -⟩ | ⟨r', hr', ho', hgen⟩
  · change (after s ms).world.records = [] at hr
    rw [hr]
    exact List.nil_suffix
  · refine hg r' (List.mem_cons_of_mem r hr') r List.mem_cons_self (by omega) _ ?_ _ ?_
    · rw [ho']
      rfl
    · rw [ho]
      rfl

theorem followed_step {s : State ς σ} {ms : List Move} (m : Move) (hf : Followed s ms)
    (hs : Settled s ms) (hn : Numbered s (m :: ms)) (hg : Growing (ended s (m :: ms)))
    (hl : (after s ms).world.expansion.lastTotal = (after s ms).world.records.length) :
    Followed s (m :: ms) := by
  cases hh : happening (after s ms) m with
  | none =>
    have hu := untouched_none hh
    exact followed_same hf hu.records hu.expansion (by simp [hh]) (by simp [hh])
  | some p =>
    cases p with
    | began r =>
      have hu := untouched_began hh
      exact followed_same hf hu.records hu.expansion (by simp [hh]) (by simp [hh])
    | ended r =>
      cases hb : (after s ms).world.table.brought? r with
      | none =>
        have ht := table_fallen hh hb
        exact followed_same hf (congrArg Table.records ht) (congrArg Table.expansion ht)
          (by simp [hh]) (by simp [hh])
      | some records =>
        obtain ⟨front, rfl⟩ := brought_suffix hs hn hg hh hb
        have ht := table_brought hh hb
        exact followed_grown hf hh hl (congrArg Table.records ht) (congrArg Table.expansion ht)
    | expanded pos => exact followed_expanded hf hh
    | collapsed pos => exact followed_collapsed hf hh

theorem opening_eq {records : List Record} {q pos : Nat} {html : String}
    (h : Desk.opening records q = some (.openDetail pos html)) : q = pos ∧ pos < records.length := by
  simp only [Desk.opening, Option.map_eq_some_iff, ViewCall.openDetail.injEq] at h
  obtain ⟨_, hq, rfl, -⟩ := h
  exact ⟨rfl, (List.getElem?_eq_some_iff.mp hq).1⟩

/-- A refresh that is rendered opens details at positions that are expanded after it. -/
theorem told_opened {t : Table} {r : Reload} {records : List Record} {pos : Nat} {html : String}
    (hb : t.brought? r = some records) (h : .openDetail pos html ∈ t.told (.ended r)) :
    pos ∈ (t.expansion.reindex records.length).positions ∧ pos < records.length := by
  simp only [Table.told, hb, Desk.redraw, List.mem_append, List.mem_filterMap, List.mem_singleton,
    reduceCtorEq, false_or, or_false] at h
  obtain ⟨q, hq, ho⟩ := h
  obtain ⟨rfl, hlt⟩ := opening_eq ho
  exact ⟨hq, hlt⟩

/-- Details are opened only where there is a row afterwards. -/
theorem opened_lt {s : State ς σ} {m : Move} {pos : Nat} {html : String}
    (h : .openDetail pos html ∈ calls s m) : pos < (step s m).world.records.length := by
  rcases calls_told h with h | ⟨p, hh, h⟩
  · cases h
  · cases p with
    | began r => cases h
    | collapsed q => cases List.mem_singleton.mp h
    | expanded q =>
      have hr : (step s m).world.records = s.world.records := congrArg Table.records (table_expanded hh)
      rw [hr]
      exact (opening_eq (Option.mem_toList.mp h)).2
    | ended r =>
      cases hb : s.world.table.brought? r with
      | none => simp [Table.told, hb] at h
      | some records =>
        have hr : (step s m).world.records = records := congrArg Table.records (table_brought hh hb)
        rw [hr]
        exact (told_opened hb h).2

/-- Where no refresh is rendered the rows stay as they are. -/
theorem records_unrendered {s : State ς σ} {ms : List Move} {m : Move}
    (h : rendered s (m :: ms) = rendered s ms) :
    (after s (m :: ms)).world.records = (after s ms).world.records := by
  by_cases hh : ∃ r, happening (after s ms) m = some (.ended r)
  · obtain ⟨r, hh⟩ := hh
    cases hb : (after s ms).world.table.brought? r with
    | none => exact congrArg Table.records (table_fallen hh hb)
    | some records =>
      rw [rendered_ended hh, hb] at h
      have hlen := congrArg List.length h
      simp at hlen
  · exact (table_kept fun r hr => hh ⟨r, hr⟩).1

/-- What is rendered is never taken back. -/
theorem rendered_suffix (s : State ς σ) (later earlier : List Move) :
    rendered s earlier <:+ rendered s (later ++ earlier) := by
  induction later with
  | nil => exact List.suffix_refl _
  | cons m later ih =>
    refine ih.trans ?_
    rw [List.cons_append, rendered]
    split
    · split
      · exact List.suffix_cons _ _
      · exact List.suffix_refl _
    · exact List.suffix_refl _

/-- Until a refresh is rendered, no detail is opened at a position where there is no row. -/
theorem unopened {s : State ς σ} {earlier later : List Move} {pos : Nat}
    (hpos : (after s earlier).world.records.length ≤ pos)
    (h : rendered s (later ++ earlier) = rendered s earlier) :
    (after s (later ++ earlier)).world.records = (after s earlier).world.records ∧
      ∃ cs, (after s (later ++ earlier)).world.shown = (after s earlier).world.shown ++ cs ∧
        ∀ html, .openDetail pos html ∉ cs := by
  induction later with
  | nil => exact ⟨rfl, [], by simp, by simp⟩
  | cons m later ih =>
    have hle := (rendered_suffix s later earlier).length_le
    have hle' := (rendered_suffix s [m] (later ++ earlier)).length_le
    have hlen := congrArg List.length h
    simp only [List.cons_append, List.nil_append] at hle' hlen
    have heq : rendered s (later ++ earlier) = rendered s earlier :=
      ((rendered_suffix s later earlier).eq_of_length (by omega)).symm
    obtain ⟨hr, cs, hs, hcs⟩ := ih heq
    have hr' : (after s (m :: (later ++ earlier))).world.records =
        (after s (later ++ earlier)).world.records := records_unrendered (by rw [heq]; exact h)
    refine ⟨hr'.trans hr, cs ++ calls (after s (later ++ earlier)) m, ?_, fun html hmem => ?_⟩
    · rw [← List.append_assoc, ← hs]
      exact step_shown _ m
    · rcases List.mem_append.mp hmem with hmem | hmem
      · exact hcs html hmem
      · have hlt := opened_lt hmem
        change pos < (after s (m :: (later ++ earlier))).world.records.length at hlt
        rw [hr', hr] at hlt
        omega

/-- What is rendered opens details at expanded positions only. -/
theorem rendered_positions {s : State ς σ} {m : Move} {r : Reload}
    (hl : s.world.expansion.lastTotal = s.world.records.length)
    (hh : happening s m = some (.ended r)) (hv : (calls s m).any ViewCall.redraws = true) :
    (step s m).world.expansion.positions =
        ((s.world.expansion.positions.filter (· < s.world.records.length)).map
          (· + ((step s m).world.records.length - s.world.records.length))).filter
            (· < (step s m).world.records.length) ∧
      ∀ q html, .openDetail q html ∈ calls s m → q ∈ (step s m).world.expansion.positions := by
  cases hb : s.world.table.brought? r with
  | none =>
    obtain ⟨toasts, hc⟩ := ended_calls hh
    simp [hc, Table.told, hb, ViewCall.redraws] at hv
  | some records =>
    have hr : (step s m).world.records = records := congrArg Table.records (table_brought hh hb)
    have he : (step s m).world.expansion = s.world.expansion.reindex records.length :=
      congrArg Table.expansion (table_brought hh hb)
    rw [hr, he]
    refine ⟨hl ▸ Expansion.reindex_inRange _ _, fun q html hq => ?_⟩
    rcases calls_told hq with hq | ⟨p, hp, hq⟩
    · cases hq
    · rw [hh] at hp
      cases hp
      exact (told_opened hb hq).1

/-- What becomes of a position that was out of range when it was expanded, while no refresh has been
rendered since. -/
structure Unseen (s : State ς σ) (earlier ms : List Move) (pos : Nat) : Prop where
  /-- There is still no row, and no detail has been opened for it. -/
  unopened : (after s ms).world.records.length ≤ pos ∧
    ∃ cs, (after s ms).world.shown = (after s earlier).world.shown ++ cs ∧
      ∀ html, .openDetail pos html ∉ cs
  /-- The next refresh that is rendered takes along only positions where there was a row, and opens
  no others. -/
  gone : ∀ m r, happening (after s ms) m = some (.ended r) →
    (calls (after s ms) m).any ViewCall.redraws = true →
      (after s (m :: ms)).world.expansion.positions =
          (((after s ms).world.expansion.positions.filter
              (· < (after s ms).world.records.length)).map
            (· + ((after s (m :: ms)).world.records.length -
              (after s ms).world.records.length))).filter
                (· < (after s (m :: ms)).world.records.length) ∧
        ∀ q html, .openDetail q html ∈ calls (after s ms) m →
          q ∈ (after s (m :: ms)).world.expansion.positions

variable {service : ς} {store : σ} {scroll : UInt32} {d : Desk ς σ}

theorem lastTotal_eq (hd : openDesk service store scroll = .ok d) (ms : List Move) :
    (after ({ world := d } : State ς σ) ms).world.expansion.lastTotal =
      (after ({ world := d } : State ς σ) ms).world.records.length :=
  (onScreen hd ms).lastTotal

theorem followed (hd : openDesk service store scroll = .ok d) (ms : List Move)
    (hg : Growing (ended ({ world := d } : State ς σ) ms)) :
    Followed ({ world := d } : State ς σ) ms := by
  induction ms with
  | nil =>
    obtain ⟨ht, -, -⟩ := openDesk_eq hd
    have he : d.expansion = {} := congrArg Table.expansion ht
    refine ⟨fun k rec h => (nomatch h), fun p hp => ?_⟩
    change p ∈ d.expansion.positions at hp
    rw [he] at hp
    cases hp
  | cons m ms ih =>
    refine followed_step m (ih (hg.sublist ?_)) (settled hd ms) (numbered hd (m :: ms)) hg
      (lastTotal_eq hd ms)
    rw [ended]
    split
    · exact List.sublist_cons_self _ _
    · exact List.Sublist.refl _

/-- Where the log only grows, every row that the user keeps expanded is expanded at the place of its
record, and no other row is; a position that is expanded out of range is never seen, and is gone with
the next refresh that is rendered. -/
theorem expanded_rows_followed (hd : openDesk service store scroll = .ok d) (ms : List Move)
    (hg : Growing (ended ({ world := d } : State ς σ) ms)) :
    Followed ({ world := d } : State ς σ) ms ∧
      ∀ later m earlier pos, ms = later ++ m :: earlier →
        happening (after ({ world := d } : State ς σ) earlier) m = some (.expanded pos) →
          (after ({ world := d } : State ς σ) earlier).world.records.length ≤ pos →
            rendered ({ world := d } : State ς σ) ms = rendered ({ world := d } : State ς σ) earlier →
              Unseen ({ world := d } : State ς σ) earlier ms pos := by
  refine ⟨followed hd ms hg, ?_⟩
  rintro later m earlier pos rfl - hpos hr
  rw [List.append_cons] at hr ⊢
  obtain ⟨hrec, hcs⟩ := unopened hpos hr
  exact ⟨⟨hrec ▸ hpos, hcs⟩, fun m' r hh hv => rendered_positions (lastTotal_eq hd _) hh hv⟩

def position? : Happening → Option Nat
  | .expanded pos => some pos
  | _ => none

theorem expanded_of_position? {x : Happening} {pos : Nat} (h : position? x = some pos) :
    x = .expanded pos := by
  cases x with
  | expanded => exact congrArg _ (Option.some.inj h)
  | _ => cases h

/-- One row is expanded, then two refreshes come that bring more, the later one first, and one that
fails. A position out of range is expanded after that. -/
theorem expanded_rows_followed_late :
    let a : Record := { message := "a" }
    let b : Record := { message := "b" }
    let c : Record := { message := "c" }
    let deck : Deck := ⟨[(.ok [a], 0), (.ok [b, a], 10), (.error (.status 500 ""), 0),
      (.ok [c, b, a], 0)]⟩
    let s : State Deck MemoryStore := { world := dealt deck }
    let earlier : List Move := [.ask (.handle (.expandRow 9)), .turn 2, .wait 10, .turn 4, .turn 3,
      .turn 4, .turn 3, .turn 2, .ask (.handle .refresh), .ask (.handle .refresh),
      .ask (.handle .refresh), .turn 1, .ask (.handle (.expandRow 0)), .turn 0, .turn 0,
      .ask (.handle .refresh)]
    let ms : List Move := .turn 5 :: earlier
    openDesk deck ({} : MemoryStore) 0 = .ok (dealt deck) ∧ Growing (ended s ms) ∧
      (ended s ms).map (·.generation) = [2, 4, 3, 1] ∧
      (after s ms).world.expansion.positions = [2, 9] ∧
      Followed s ms ∧ Unseen s earlier ms 9 := by
  intro a b c deck s earlier ms
  have hd : openDesk deck ({} : MemoryStore) 0 = .ok (dealt deck) := rfl
  have hg : Growing (ended s ms) := by decide +kernel
  obtain ⟨hf, hu⟩ := expanded_rows_followed hd ms hg
  have hh : happening (after s earlier) (.turn 5) = some (.expanded 9) := by
    have h : (happening (after s earlier) (.turn 5)).bind position? = some 9 := by decide +kernel
    obtain ⟨x, hx, hpos⟩ := Option.bind_eq_some_iff.mp h
    rw [hx, expanded_of_position? hpos]
  have hr : rendered s ms = rendered s earlier := rendered_other (by simp [hh])
  refine ⟨hd, hg, by decide +kernel, by decide +kernel, hf, ?_⟩
  exact hu [] (.turn 5) earlier 9 rfl hh (by decide +kernel) hr

end Console

end LogDesk
