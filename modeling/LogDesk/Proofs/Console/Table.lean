import LogDesk.Proofs.Console.Run

/-! The log table of a console. Every turn does at most one thing to it, a `Happening`, and
`step_table` says what that makes of the table and which calls of the view come of it. What a turn
does beside is told before or after those calls, and does not touch the table. -/

namespace LogDesk

inductive Happening where
  | began (r : Reload)
  /-- A refresh ends, whatever comes of it. -/
  | ended (r : Reload)
  | expanded (pos : Nat)
  | collapsed (pos : Nat)

structure Table where
  records : List Record
  expansion : Expansion
  generation : Nat
  refreshes : Nat

namespace Table

/-- The records that a refresh brings, if it has not failed and no later one has come before it. -/
def brought? (t : Table) (r : Reload) : Option (List Record) :=
  match r.outcome with
  | .error _ => none
  | .ok records => if r.generation < t.generation then none else some records

def take (t : Table) : Happening → Table
  | .began _ => { t with refreshes := t.refreshes + 1 }
  | .ended r =>
    match t.brought? r with
    | none => t
    | some records =>
      { t with records, expansion := t.expansion.reindex records.length, generation := r.generation }
  | .expanded pos => { t with expansion := t.expansion.expand pos }
  | .collapsed pos => { t with expansion := t.expansion.collapse pos }

def told (t : Table) : Happening → List ViewCall
  | .began _ => []
  | .ended r =>
    match t.brought? r with
    | none => []
    | some records =>
      Desk.redraw records (t.expansion.reindex records.length).positions r.scroll
  | .expanded pos => (Desk.opening t.records pos).toList
  | .collapsed pos => [.closeDetail pos]

end Table

def ViewCall.onTable : ViewCall → Bool
  | .renderLogs _ | .openDetail _ _ | .closeDetail _ | .scrollTo _ => true
  | _ => false

def Act.call? : Act → Option ViewCall
  | .shown v => some v
  | .asked _ => none

def Act.asksRecords : Act → Bool
  | .asked .listRecords => true
  | _ => false

def callsOf (es : List Entry) : List ViewCall := es.reverse.filterMap (·.act.call?)

theorem callsOf_append (later earlier : List Entry) :
    callsOf (later ++ earlier) = callsOf earlier ++ callsOf later := by
  simp [callsOf]

namespace Desk

variable {ς σ : Type}

def table (d : Desk ς σ) : Table := ⟨d.records, d.expansion, d.generation, d.refreshes⟩

def shown (d : Desk ς σ) : List ViewCall := callsOf d.log

def asked (d : Desk ς σ) : Nat := d.log.countP (·.act.asksRecords)

end Desk

def Happening.asks : Happening → Nat
  | began _ => 1
  | _ => 0

/-- What stands in the log for something done to a table: the calls that come of it in one piece, and
around them only calls that have nothing to do with the table. -/
def Tells (t : Table) (es : List Entry) (h : Option Happening) : Prop :=
  es.countP (·.act.asksRecords) = h.elim 0 Happening.asks ∧
    ∃ first last, callsOf es = first ++ h.elim [] t.told ++ last ∧
      ∀ c ∈ first ++ last, c.onTable = false

/-- From one desk to another, just this is done to the log table. -/
structure Does {ς σ : Type} (d d' : Desk ς σ) (h : Option Happening) : Prop where
  table : d'.table = h.elim d.table d.table.take
  log : ∃ es, d'.log = es ++ d.log ∧ Tells d.table es h

namespace Does

variable {ς σ : Type} {d d' d'' : Desk ς σ} {h : Option Happening}

/-- Nothing is done where neither the table nor the log is touched. -/
theorem nothing (ht : d'.table = d.table) (hl : d'.log = d.log) : Does d d' none :=
  ⟨ht, [], hl, rfl, [], [], rfl, by simp⟩

/-- The table was let alone first. -/
theorem after (h₁ : Does d d' none) (h₂ : Does d' d'' h) : Does d d'' h := by
  obtain ⟨ht₁, es₁, hl₁, hn₁, f₁, g₁, hc₁, ho₁⟩ := h₁
  obtain ⟨ht₂, es₂, hl₂, hn₂, f₂, g₂, hc₂, ho₂⟩ := h₂
  have ht : d'.table = d.table := ht₁
  refine ⟨by rw [ht₂, ht], es₂ ++ es₁, by rw [hl₂, hl₁, List.append_assoc], ?_,
    f₁ ++ g₁ ++ f₂, g₂, ?_, ?_⟩
  · simpa [List.countP_append, hn₁] using hn₂
  · rw [callsOf_append, hc₁, hc₂, ht]
    simp
  · rw [List.append_assoc]
    exact List.forall_mem_append.mpr ⟨ho₁, ho₂⟩

/-- The table was let alone afterwards. -/
theorem before (h₁ : Does d d' h) (h₂ : Does d' d'' none) : Does d d'' h := by
  obtain ⟨ht₁, es₁, hl₁, hn₁, f₁, g₁, hc₁, ho₁⟩ := h₁
  obtain ⟨ht₂, es₂, hl₂, hn₂, f₂, g₂, hc₂, ho₂⟩ := h₂
  refine ⟨ht₂.trans ht₁, es₂ ++ es₁, by rw [hl₂, hl₁, List.append_assoc], ?_,
    f₁, g₁ ++ f₂ ++ g₂, ?_, ?_⟩
  · simpa [List.countP_append, hn₁] using hn₂
  · rw [callsOf_append, hc₁, hc₂]
    simp
  · rw [List.append_assoc, ← List.append_assoc]
    exact List.forall_mem_append.mpr ⟨ho₁, ho₂⟩

/-- The log, and with it what the view was told, only grows. -/
theorem shown (h₁ : Does d d' h) : ∃ first last,
    d'.shown = d.shown ++ (first ++ h.elim [] d.table.told ++ last) ∧
      ∀ c ∈ first ++ last, c.onTable = false := by
  obtain ⟨-, es, hl, -, f, g, hc, ho⟩ := h₁
  exact ⟨f, g, by rw [Desk.shown, hl, callsOf_append, hc, Desk.shown], ho⟩

theorem asked (h₁ : Does d d' h) : d'.asked = d.asked + h.elim 0 Happening.asks := by
  obtain ⟨-, es, hl, hn, -⟩ := h₁
  rw [Desk.asked, hl, List.countP_append, hn, Desk.asked, Nat.add_comm]

end Does

namespace Desk

variable {ς σ : Type}

theorem note_does (d : Desk ς σ) (t : Turn) {a : Act} (ha : a.asksRecords = false)
    (hv : ∀ v, a.call? = some v → v.onTable = false) : Does d (d.note t a) none := by
  refine ⟨rfl, [⟨t, a⟩], rfl, by simp [ha], callsOf [⟨t, a⟩], [], by simp, ?_⟩
  intro c hc
  simp only [callsOf, List.reverse_singleton, List.append_nil, List.mem_filterMap,
    List.mem_singleton] at hc
  obtain ⟨_, rfl, he⟩ := hc
  exact hv c he

theorem display_does (d : Desk ς σ) (t : Turn) {v : ViewCall} (hv : v.onTable = false) :
    Does d (d.display t v) none :=
  d.note_does t rfl (by simp [Act.call?, hv])

theorem raise_does (d : Desk ς σ) (t : Turn) (n : Notification) : Does d (d.raise t n).1 none :=
  (Does.nothing rfl rfl : Does d { d with tray := d.tray.push n } none).after
    (display_does _ t rfl)

theorem dismiss_does (d : Desk ς σ) (t : Turn) (id : Uuid) : Does d (d.dismiss t id) none := by
  unfold dismiss
  split
  · exact (Does.nothing rfl rfl : Does d { d with tray := d.tray.remove id } none).after
      (display_does _ t rfl)
  · exact .nothing rfl rfl

theorem ask_does [LogService ς] (d : Desk ς σ) (t : Turn) {c : Call}
    (hc : (Act.asked c).asksRecords = false) : Does d (d.ask t c).1 none :=
  (Does.nothing rfl rfl : Does d { d with service := (LogService.ask d.service c).1 } none).after
    (note_does _ t hc (by simp [Act.call?]))

theorem setAutoRefresh_does [PreferenceStore σ] (d : Desk ς σ) (on : Bool) :
    Does d (d.setAutoRefresh on).1 none :=
  .nothing rfl rfl

theorem setInterval_does [PreferenceStore σ] (d : Desk ς σ) (t : Turn) (seconds : UInt32) :
    Does d (d.setInterval t seconds).1 none := by
  have hd (s : σ) (p : Preferences) : Does d { d with store := s, preferences := p } none :=
    .nothing rfl rfl
  unfold setInterval
  dsimp only
  split
  · exact hd _ _
  · exact (hd _ _).after (display_does _ t rfl)

theorem beginReload_does [LogService ς] (d : Desk ς σ) (t : Turn) (r : Reload) :
    Does d (d.beginReload t).1 (some (.began r)) :=
  ⟨rfl, [⟨t, .asked .listRecords⟩], rfl, rfl, [], [], rfl, by simp⟩

theorem displayAll_log (d : Desk ς σ) (t : Turn) (vs : List ViewCall) :
    (d.displayAll t vs).log = (vs.map fun v => ⟨t, .shown v⟩).reverse ++ d.log := by
  induction vs generalizing d with
  | nil => rfl
  | cons v vs ih =>
    rw [List.map_cons, List.reverse_cons, List.append_assoc]
    exact ih (d.display t v)

theorem displayAll_shown (d : Desk ς σ) (t : Turn) (vs : List ViewCall) :
    (d.displayAll t vs).shown = d.shown ++ vs := by
  rw [shown, displayAll_log, callsOf_append, shown]
  simp [callsOf, ← List.map_reverse, List.filterMap_map, Act.call?]

theorem displayAll_table (d : Desk ς σ) (t : Turn) (vs : List ViewCall) :
    (d.displayAll t vs).table = d.table := by
  induction vs generalizing d with
  | nil => rfl
  | cons v vs ih => exact ih (d.display t v)

theorem displayAll_does {d d' : Desk ς σ} (t : Turn) {h : Happening} (vs : List ViewCall)
    (hl : d'.log = d.log) (ht : d'.table = d.table.take h) (hv : d.table.told h = vs)
    (hn : h.asks = 0) : Does d (d'.displayAll t vs) (some h) := by
  refine ⟨by rw [displayAll_table, ht]; rfl, _, by rw [displayAll_log, hl], ?_, [], [], ?_, by simp⟩
  · simp [hn, List.countP_map, List.countP_eq_zero, Act.asksRecords]
  · simp [callsOf, hv, ← List.map_reverse, List.filterMap_map, Act.call?]

/-- A refresh that brings records renews the table, and any other changes nothing. -/
theorem finishReload_eq (d : Desk ς σ) (t : Turn) (r : Reload) :
    d.finishReload t r = (d.table.brought? r).elim d (d.renew t r) := by
  unfold finishReload Table.brought?
  cases r.outcome with
  | error e => rfl
  | ok records =>
    change (if r.generation < d.generation then d else d.renew t r records) =
      (if r.generation < d.generation then none else some records).elim d (d.renew t r)
    split <;> rfl

theorem finishReload_does (d : Desk ς σ) (t : Turn) (r : Reload) :
    Does d (d.finishReload t r) (some (.ended r)) := by
  rw [finishReload_eq]
  cases hb : d.table.brought? r with
  | none =>
    exact displayAll_does t [] rfl (by simp only [Table.take, hb]) (by simp only [Table.told, hb]) rfl
  | some records =>
    exact displayAll_does t _ rfl (by simp only [Table.take, hb]; rfl)
      (by simp only [Table.told, hb]; rfl) rfl

/-- The end of a refresh tells the view of the table only. -/
theorem finishReload_shown (d : Desk ς σ) (t : Turn) (r : Reload) :
    (d.finishReload t r).shown = d.shown ++ d.table.told (.ended r) := by
  rw [finishReload_eq]
  cases hb : d.table.brought? r with
  | none => simp [Table.told, hb]
  | some records =>
    simp only [Table.told, hb, Option.elim_some]
    exact displayAll_shown _ t _

theorem expandRow_does (d : Desk ς σ) (t : Turn) (pos : Nat) :
    Does d (d.expandRow t pos) (some (.expanded pos)) :=
  displayAll_does t _ rfl rfl rfl rfl

theorem collapseRow_does (d : Desk ς σ) (t : Turn) (pos : Nat) :
    Does d (d.collapseRow t pos) (some (.collapsed pos)) :=
  displayAll_does t [.closeDetail pos] rfl rfl rfl rfl

end Desk

namespace Console

variable {ς σ : Type}

theorem notify_does (t : Turn) (ns : List Notification) (d : Desk ς σ) :
    Does d (notify t ns d).1 none := by
  induction ns generalizing d with
  | nil => exact .nothing rfl rfl
  | cons n ns ih => exact (d.raise_does t n).after (ih _)

/-- News go to the view as toasts. -/
theorem notify_shown (t : Turn) (ns : List Notification) (d : Desk ς σ) :
    ∃ toasts : List Toast, (notify t ns d).1.shown = d.shown ++ toasts.map .showToast := by
  induction ns generalizing d with
  | nil => exact ⟨[], by simp [notify]⟩
  | cons n ns ih =>
    obtain ⟨toasts, ht⟩ := ih (d.raise t n).1
    refine ⟨(d.raise t n).2 :: toasts, ?_⟩
    change (notify t ns (d.raise t n).1).1.shown = _
    rw [ht, List.map_cons]
    change callsOf ([⟨t, .shown (.showToast _)⟩] ++ d.log) ++ _ = callsOf d.log ++ _
    rw [callsOf_append, List.append_assoc]
    rfl

theorem finishWith_does (t : Turn) (ns : List Notification) (d : Desk ς σ) :
    Does d (finishWith t ns d).world none :=
  notify_does t ns d

theorem goOnWith_does (t : Turn) (ns : List Notification) (next : Stage) (d : Desk ς σ) :
    Does d (goOnWith t ns next d).world none :=
  notify_does t ns d

/-- A script applies an event itself if that neither calls the server nor switches the timer. -/
theorem takeEvent_inline [PreferenceStore σ] (t : Turn) (d : Desk ς σ) {e : Event} (rest : List Event)
    (he : e.isRequest = false) (hq : e ≠ .quit) (ha : ∀ on, e ≠ .setAutoRefresh on) :
    takeEvent t d (e :: rest) =
      goOnWith t (applyLocal t d e).2 (.script rest) (applyLocal t d e).1 := by
  cases e with
  | quit => exact absurd rfl hq
  | setAutoRefresh on => exact absurd rfl (ha on)
  | closeJobs | setInterval | expandRow | collapseRow | dismissToast => rfl
  | _ => cases he

/-- A console that has just been opened shows no records and has called nobody. -/
theorem openDesk_eq [PreferenceStore σ] {service : ς} {store : σ} {scroll : UInt32} {d : Desk ς σ}
    (h : openDesk service store scroll = .ok d) :
    d.table = ⟨[], {}, 0, 0⟩ ∧ d.shown = [.showPreferences d.preferences] ∧ d.asked = 0 := by
  unfold openDesk at h
  split at h
  · cases h
  · cases h
    exact ⟨rfl, rfl, rfl⟩

variable [LogService ς]

def Stage.happening (t : Turn) (d : Desk ς σ) : Stage → Option Happening
  | .handle .refresh | .answered (.startJob _) (.ok _) | .answered .triggerError (.ok _)
  | .answered (.createEntry _) (.ok _) => some (.began (d.beginReload t).2.1)
  | .reloaded r _ => some (.ended r)
  | .handle (.expandRow pos) | .script (.expandRow pos :: _) => some (.expanded pos)
  | .handle (.collapseRow pos) | .script (.collapseRow pos :: _) => some (.collapsed pos)
  | _ => none

def happening (s : State ς σ) : Move → Option Happening
  | .turn i =>
    match s.deed? i with
    | some (.act stage) => stage.happening ⟨s.now, i⟩ s.world
    | some (.beginTick _) => some (.began (s.world.beginReload ⟨s.now, i⟩).2.1)
    | some (.endTick r) => some (.ended r)
    | none => none
  | _ => none

theorem happening_began {t : Turn} {d : Desk ς σ} {stage : Stage} {r : Reload}
    (h : stage.happening t d = some (.began r)) : r = (d.beginReload t).2.1 := by
  unfold Stage.happening at h
  split at h <;> cases h <;> rfl

theorem happening_ended {t : Turn} {d : Desk ς σ} {stage : Stage} {r : Reload}
    (h : stage.happening t d = some (.ended r)) : ∃ news, stage = .reloaded r news := by
  unfold Stage.happening at h
  split at h <;> cases h
  exact ⟨_, rfl⟩

theorem onAnswer_does (t : Turn) (d : Desk ς σ) (c : Call) (outcome : c.Outcome) :
    Does d (onAnswer t d c outcome).world (Stage.happening t d (.answered c outcome)) := by
  cases c with
  | stopAll => cases outcome <;> exact finishWith_does t _ d
  | startJob seconds =>
    cases outcome with
    | error e => exact finishWith_does t _ d
    | ok job => exact d.beginReload_does t _
  | triggerError =>
    cases outcome with
    | error e => exact finishWith_does t _ d
    | ok u => exact d.beginReload_does t _
  | createEntry form =>
    have hc : Does d (d.display t .closeForm) none := d.display_does t rfl
    cases outcome with
    | error e => exact hc.after (finishWith_does t _ _)
    | ok u => exact hc.after (Desk.beginReload_does _ t _)
  | listRecords => cases outcome <;> exact .nothing rfl rfl
  | listRaw => cases outcome <;> exact d.display_does t rfl
  | listJobs =>
    cases outcome with
    | error e => exact finishWith_does t _ d
    | ok jobs => exact d.display_does t rfl
  | stopJob id =>
    cases outcome with
    | error e => exact .nothing rfl rfl
    | ok u => exact d.display_does t rfl

variable [PreferenceStore σ]

/-- What handling an event inline does, be it by a task of its own or as part of a script. -/
theorem applyLocal_does (t : Turn) (d : Desk ς σ) (e : Event) (he : e.isRequest = false) :
    Does d (applyLocal t d e).1 (Stage.happening t d (.handle e)) := by
  cases e with
  | closeJobs => exact d.display_does t rfl
  | setInterval seconds => exact d.setInterval_does t seconds
  | expandRow pos => exact d.expandRow_does t pos
  | collapseRow pos => exact d.collapseRow_does t pos
  | dismissToast id => exact d.dismiss_does t id
  | setAutoRefresh on => exact .nothing rfl rfl
  | quit => exact .nothing rfl rfl
  | _ => cases he

theorem handle_does (t : Turn) (d : Desk ς σ) (e : Event) :
    Does d (handle t d e).world (Stage.happening t d (.handle e)) := by
  cases he : e.isRequest with
  | true =>
    cases e with
    | refresh => exact d.beginReload_does t _
    | stopAll | startJob | triggerError | openJobs | submitEntry | showRawJson | stopJob =>
      exact d.ask_does t rfl
    | _ => cases he
  | false =>
    have hl := applyLocal_does t d e he
    cases e with
    | setAutoRefresh on => exact .nothing rfl rfl
    | closeJobs | setInterval | expandRow | collapseRow | dismissToast | quit =>
      exact hl.before (finishWith_does t _ _)
    | _ => cases he

theorem takeEvent_does (t : Turn) (d : Desk ς σ) (events : List Event) :
    Does d (takeEvent t d events).world (Stage.happening t d (.script events)) := by
  cases events with
  | nil => exact .nothing rfl rfl
  | cons e rest =>
    cases he : e.isRequest with
    | true => cases e <;> first | exact .nothing rfl rfl | cases he
    | false =>
      have hl := applyLocal_does t d e he
      cases e with
      | setAutoRefresh on => exact .nothing rfl rfl
      | quit => exact .nothing rfl rfl
      | closeJobs | setInterval | expandRow | collapseRow | dismissToast =>
        rw [takeEvent_inline t d rest he (by simp) (by simp)]
        exact hl.before (goOnWith_does t _ _ _)
      | _ => cases he

theorem act_does (t : Turn) (d : Desk ς σ) (stage : Stage) :
    Does d (act t d stage).world (stage.happening t d) := by
  cases stage with
  | handle e => exact handle_does t d e
  | answered c outcome => exact onAnswer_does t d c outcome
  | reloaded r news => exact (d.finishReload_does t r).before (finishWith_does t _ _)
  | switched on rest =>
    cases rest with
    | none => exact (d.setAutoRefresh_does on).after (finishWith_does t _ _)
    | some rest => exact (d.setAutoRefresh_does on).after (goOnWith_does t _ _ _)
  | script events => exact takeEvent_does t d events
  | _ => exact .nothing rfl rfl

/-- What a move does to the log table is what its happening says. -/
theorem step_does (s : State ς σ) (m : Move) :
    Does s.world (step s m).world (happening s m) := by
  cases m with
  | turn i =>
    have hw := program.resume_world s i
    unfold step Tasks.Program.move happening
    dsimp only
    rw [hw]
    cases s.deed? i with
    | none => exact .nothing rfl rfl
    | some deed =>
      cases deed with
      | act stage => exact act_does _ _ stage
      | beginTick beat => exact s.world.beginReload_does _ _
      | endTick r => exact s.world.finishReload_does _ r
  | _ => exact .nothing rfl rfl

def calls (s : State ς σ) (m : Move) : List ViewCall :=
  (step s m).world.shown.drop s.world.shown.length

theorem step_shown (s : State ς σ) (m : Move) :
    (step s m).world.shown = s.world.shown ++ calls s m := by
  obtain ⟨first, last, hs, -⟩ := (step_does s m).shown
  rw [calls, hs, List.drop_left]

theorem calls_eq (s : State ς σ) (m : Move) : ∃ first last,
    calls s m = first ++ (happening s m).elim [] s.world.table.told ++ last ∧
      ∀ c ∈ first ++ last, c.onTable = false := by
  obtain ⟨first, last, hs, ho⟩ := (step_does s m).shown
  exact ⟨first, last, by rw [calls, hs, List.drop_left], ho⟩

/-- At the end of a refresh the view is told of its records, if it brings any, and of news after
that. -/
theorem ended_calls {s : State ς σ} {m : Move} {r : Reload} (h : happening s m = some (.ended r)) :
    ∃ toasts : List Toast,
      calls s m = s.world.table.told (.ended r) ++ toasts.map .showToast := by
  unfold happening at h
  split at h
  next i =>
    have hw := program.resume_world s i
    have hs := step_shown s (.turn i)
    change (program.resume s i).world.shown = _ at hs
    rw [hw] at hs
    split at h
    · next stage hd =>
      obtain ⟨news, rfl⟩ := happening_ended h
      cases h
      obtain ⟨toasts, ht⟩ := notify_shown ⟨s.now, i⟩ news.toList (s.world.finishReload ⟨s.now, i⟩ r)
      refine ⟨toasts, ?_⟩
      rw [hd] at hs
      change (notify _ _ _).1.shown = _ at hs
      rw [ht, Desk.finishReload_shown, List.append_assoc] at hs
      exact (List.append_cancel_left hs).symm
    · cases h
    · next work hd =>
      cases h
      refine ⟨[], ?_⟩
      rw [hd] at hs
      change (s.world.finishReload _ r).shown = _ at hs
      rw [Desk.finishReload_shown] at hs
      simpa using (List.append_cancel_left hs).symm
    · cases h
  next => cases h

theorem step_table (s : State ς σ) (m : Move) :
    (step s m).world.table = (happening s m).elim s.world.table s.world.table.take :=
  (step_does s m).table

/-- What a view is told either has nothing to do with the table or comes of what happens to it. -/
theorem calls_told {s : State ς σ} {m : Move} {c : ViewCall} (h : c ∈ calls s m) :
    c.onTable = false ∨ ∃ p, happening s m = some p ∧ c ∈ s.world.table.told p := by
  obtain ⟨first, last, hc, ho⟩ := calls_eq s m
  obtain ⟨hf, hl⟩ := List.forall_mem_append.mp ho
  rw [hc] at h
  cases hh : happening s m with
  | none =>
    rw [hh, Option.elim_none, List.append_nil] at h
    exact .inl (ho c h)
  | some p =>
    rw [hh, Option.elim_some, List.mem_append, List.mem_append] at h
    rcases h with (h | h) | h
    · exact .inl (hf c h)
    · exact .inr ⟨p, rfl, h⟩
    · exact .inl (hl c h)

section
variable {s : State ς σ} {m : Move}

theorem table_none (h : happening s m = none) : (step s m).world.table = s.world.table := by
  rw [step_table, h]
  rfl

theorem table_began {r : Reload} (h : happening s m = some (.began r)) :
    (step s m).world.table = { s.world.table with refreshes := s.world.refreshes + 1 } := by
  rw [step_table, h]
  rfl

theorem table_expanded {pos : Nat} (h : happening s m = some (.expanded pos)) :
    (step s m).world.table =
      { s.world.table with expansion := s.world.expansion.expand pos } := by
  rw [step_table, h]
  rfl

theorem table_collapsed {pos : Nat} (h : happening s m = some (.collapsed pos)) :
    (step s m).world.table =
      { s.world.table with expansion := s.world.expansion.collapse pos } := by
  rw [step_table, h]
  rfl

/-- A refresh that has failed or is late changes nothing. -/
theorem table_fallen {r : Reload} (h : happening s m = some (.ended r))
    (hb : s.world.table.brought? r = none) : (step s m).world.table = s.world.table := by
  rw [step_table, h, Option.elim_some, Table.take]
  simp only [hb]

theorem table_brought {r : Reload} {records : List Record} (h : happening s m = some (.ended r))
    (hb : s.world.table.brought? r = some records) : (step s m).world.table =
      { s.world.table with
        records, expansion := s.world.expansion.reindex records.length, generation := r.generation } := by
  rw [step_table, h, Option.elim_some, Table.take]
  simp only [hb]
  rfl

/-- Only the end of a refresh brings other records. -/
theorem table_kept (h : ∀ r, happening s m ≠ some (.ended r)) :
    (step s m).world.records = s.world.records ∧
      (step s m).world.expansion.lastTotal = s.world.expansion.lastTotal ∧
        (step s m).world.generation = s.world.generation := by
  have ht (t : Table) (hr : t.records = s.world.records)
      (hl : t.expansion.lastTotal = s.world.expansion.lastTotal)
      (hg : t.generation = s.world.generation) (he : (step s m).world.table = t) :
      (step s m).world.records = s.world.records ∧
        (step s m).world.expansion.lastTotal = s.world.expansion.lastTotal ∧
          (step s m).world.generation = s.world.generation := by
    subst he
    exact ⟨hr, hl, hg⟩
  cases hh : happening s m with
  | none => exact ht _ rfl rfl rfl (table_none hh)
  | some p =>
    cases p with
    | began r => exact ht _ rfl rfl rfl (table_began hh)
    | ended r => exact absurd hh (h r)
    | expanded pos => exact ht _ rfl rfl rfl (table_expanded hh)
    | collapsed pos => exact ht _ rfl rfl rfl (table_collapsed hh)

end

end Console

end LogDesk
