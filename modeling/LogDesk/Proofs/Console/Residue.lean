import LogDesk.Proofs.Console.Aside
import LogDesk.Proofs.Console.Newest
import LogDesk.Proofs.Console.Toasts
import LogDesk.Proofs.Tasks.Edit

/-! What a failed request leaves behind: a refresh has used up a number, and other requests have put up
a toast. `after_without` says that a console goes on without these as it does with them. -/

namespace LogDesk

structure Residue where
  /-- How many refreshes had begun before the one that failed. -/
  gap : Option Nat := none
  toast : Option Uuid := none

namespace Residue

variable (x : Residue)

/-- The number of a refresh if the one that failed had none. -/
def renumber (n : Nat) : Nat :=
  match x.gap with
  | some g => if g < n then n - 1 else n
  | none => n

def concerns : Act → Bool
  | .shown (.showToast t) => x.toast = some t.id
  | .shown (.removeToast id) => x.toast = some id
  | _ => false

variable {x}

theorem concerns_none {a : Act} (h : a.onToasts = false) : x.concerns a = false := by
  cases a with
  | asked c => rfl
  | shown v => cases v <;> first | rfl | cases h

theorem concerns_noToast (h : x.toast = none) (a : Act) : x.concerns a = false := by
  rcases a with c | v
  · rfl
  · cases v <;> simp [concerns, h]

theorem renumber_le {g n : Nat} (h : n ≤ g) : ({ gap := some g } : Residue).renumber n = n := by
  simp [renumber, h]

/-- Numbers but the one that is left out keep their order. -/
theorem renumber_lt {m n : Nat} (hm : ∀ g, x.gap = some g → m ≠ g + 1)
    (hn : ∀ g, x.gap = some g → n ≠ g + 1) : x.renumber m < x.renumber n ↔ m < n := by
  unfold renumber
  cases hg : x.gap with
  | none => exact Iff.rfl
  | some g =>
    have hm' := hm g hg
    have hn' := hn g hg
    dsimp only
    split <;> split <;> omega

theorem renumber_succ {n : Nat} (h : ∀ g, x.gap = some g → g < n) :
    x.renumber (n + 1) = x.renumber n + 1 := by
  unfold renumber
  cases hg : x.gap with
  | none => rfl
  | some g =>
    have hn := h g hg
    simp only [hn, if_true, Nat.lt_succ_of_lt hn]
    omega

end Residue

variable (x : Residue)

def Reload.without (r : Reload) : Reload := { r with generation := x.renumber r.generation }

def Tray.without (t : Tray) : Tray :=
  { t with toasts := t.toasts.filter fun toast => x.toast ≠ some toast.id }

variable {ς σ : Type}

def Desk.without (d : Desk ς σ) : Desk ς σ :=
  { d with
    generation := x.renumber d.generation
    refreshes := x.renumber d.refreshes
    tray := d.tray.without x
    log := d.log.filter fun e => !x.concerns e.act }

def Console.Stage.without : Stage → Stage
  | .reloaded r news => .reloaded (r.without x) news
  | stage => stage

def Residue.edit (ς σ : Type) : Tasks.Edit (Desk ς σ) Reload Console.Stage where
  world := Desk.without x
  work := Reload.without x
  stage := Console.Stage.without x

variable {x}

namespace Tray

variable (t : Tray) {id : Uuid}

theorem without_find? (h : x.toast ≠ some id) : (t.without x).find? id = t.find? id := by
  unfold find? without
  dsimp only
  rw [List.find?_filter]
  congr 1
  funext toast
  by_cases ht : toast.id = id <;> simp [ht, h]

/-- The toast that is left out is not found. -/
theorem without_gone (h : x.toast = some id) : (t.without x).find? id = none := by
  rw [find?_eq_none]
  intro hm
  obtain ⟨toast, ht, rfl⟩ := List.mem_map.mp hm
  simpa [h] using (List.mem_filter.mp ht).2

theorem without_push {n : Notification} (h : x.toast ≠ some (t.next n).id) :
    (t.push n).without x = (t.without x).push n := by
  have hn : (t.without x).next n = t.next n := rfl
  unfold push
  rw [hn]
  simp [without, h]

theorem without_remove (h : x.toast ≠ some id) :
    (t.remove id).without x = (t.without x).remove id := by
  unfold remove without
  dsimp only
  rw [List.eraseP_filter]
  congr 3
  funext toast
  by_cases ht : toast.id = id <;> simp [ht, h]

theorem without_remove_gone (h : x.toast = some id) : (t.remove id).without x = t.without x := by
  unfold remove without
  dsimp only
  congr 1
  induction t.toasts with
  | nil => rfl
  | cons toast rest ih =>
    by_cases ht : toast.id = id
    · simp [ht, h]
    · rw [List.eraseP_cons_of_neg (by simpa using ht), List.filter_cons, List.filter_cons, ih]

end Tray

/-- The number that is left out has been given, and the records are of another refresh. -/
structure Residue.Open (x : Residue) (d : Desk ς σ) : Prop where
  given : ∀ g, x.gap = some g → g < d.refreshes
  records : ∀ g, x.gap = some g → d.generation ≠ g + 1

def Residue.Fits (x : Residue) (r : Reload) : Prop :=
  ∀ g, x.gap = some g → r.generation = g + 1 → ∃ e, r.outcome = .error e

def Residue.Spares (x : Residue) (rs : List Raised) : Prop := ∀ r ∈ rs, x.toast ≠ some r.id

namespace Desk

variable (d : Desk ς σ) (t : Turn)

theorem without_note {a : Act} (h : x.concerns a = false) :
    (d.note t a).without x = (d.without x).note t a := by
  simp [without, note, h]

theorem without_display {v : ViewCall} (h : (Act.shown v).onToasts = false) :
    (d.display t v).without x = (d.without x).display t v :=
  d.without_note t (Residue.concerns_none h)

theorem without_displayAll {vs : List ViewCall} (h : ∀ v ∈ vs, (Act.shown v).onToasts = false) :
    (d.displayAll t vs).without x = (d.without x).displayAll t vs := by
  induction vs generalizing d with
  | nil => rfl
  | cons v vs ih =>
    change ((d.display t v).displayAll t vs).without x = ((d.without x).display t v).displayAll t vs
    rw [ih _ fun v' hv => h v' (List.mem_cons_of_mem v hv),
      d.without_display t (h v List.mem_cons_self)]

theorem without_beginReload [LogService ς] (h : x.Open d) : (d.without x).beginReload t =
    ((d.beginReload t).1.without x, (d.beginReload t).2.1.without x, (d.beginReload t).2.2) := by
  have hn := Residue.renumber_succ h.given
  simp only [beginReload, ask, without, Reload.without, note, hn]
  rfl

theorem without_brought {r : Reload} (h : x.Open d) (hr : x.Fits r) :
    (d.without x).table.brought? (r.without x) = d.table.brought? r := by
  unfold Table.brought? Reload.without table Desk.without
  dsimp only
  cases ho : r.outcome with
  | error e => rfl
  | ok records =>
    have hg : ∀ g, x.gap = some g → r.generation ≠ g + 1 := fun g hg heq => by
      obtain ⟨e, he⟩ := hr g hg heq
      rw [ho] at he
      cases he
    simp only [Residue.renumber_lt hg h.records]

theorem without_finishReload (h : x.Open d) {r : Reload} (hr : x.Fits r) :
    (d.without x).finishReload t (r.without x) = (d.finishReload t r).without x := by
  rw [finishReload_eq, finishReload_eq, d.without_brought h hr]
  cases d.table.brought? r with
  | none => rfl
  | some records =>
    simp only [Option.elim_some, renew]
    rw [without_displayAll _ t fun _ => redraw_toasts]
    rfl

theorem without_expandRow (pos : Nat) :
    (d.without x).expandRow t pos = (d.expandRow t pos).without x := by
  unfold expandRow
  rw [without_displayAll _ t fun _ hv => opening_toasts (Option.mem_toList.mp hv)]
  rfl

theorem without_collapseRow (pos : Nat) :
    (d.without x).collapseRow t pos = (d.collapseRow t pos).without x := by
  unfold collapseRow
  rw [without_display _ t rfl]
  rfl

theorem without_raise {n : Notification} (h : x.toast ≠ some (d.tray.next n).id) :
    (d.without x).raise t n = ((d.raise t n).1.without x, (d.raise t n).2) := by
  have hc : x.concerns (.shown (.showToast (d.tray.next n))) = false := by
    simpa [Residue.concerns] using h
  unfold raise display
  dsimp only
  rw [without_note _ t hc]
  simp only [without, d.tray.without_push h]
  rfl

theorem without_dismiss (id : Uuid) :
    (d.without x).dismiss t id = (d.dismiss t id).without x := by
  unfold dismiss
  by_cases h : x.toast = some id
  · have hf : (d.without x).tray.find? id = none := d.tray.without_gone h
    rw [hf]
    cases d.tray.find? id with
    | none => rfl
    | some toast =>
      have hc : x.concerns (.shown (.removeToast id)) = true := by simpa [Residue.concerns] using h
      simp [without, display, note, hc, d.tray.without_remove_gone h]
  · have hf : (d.without x).tray.find? id = d.tray.find? id := d.tray.without_find? h
    have hc : x.concerns (.shown (.removeToast id)) = false := by simpa [Residue.concerns] using h
    rw [hf]
    cases d.tray.find? id with
    | none => rfl
    | some toast =>
      dsimp only [display]
      rw [without_note _ t hc]
      simp only [without, d.tray.without_remove h]

variable [PreferenceStore σ]

theorem without_setInterval (seconds : UInt32) : (d.without x).setInterval t seconds =
    ((d.setInterval t seconds).1.without x, (d.setInterval t seconds).2) := by
  have hp : (d.without x).preferences.setInterval (d.without x).store seconds =
      d.preferences.setInterval d.store seconds := rfl
  unfold setInterval
  rw [hp]
  dsimp only
  cases (d.preferences.setInterval d.store seconds).failure with
  | none => rfl
  | some e =>
    dsimp only
    rw [without_display _ t rfl]
    rfl

end Desk

namespace Console

variable (t : Turn) (d : Desk ς σ)

theorem without_notify (ns : List Notification) (h : x.Spares (d.tray.raises t.now ns)) :
    notify t ns (d.without x) = ((notify t ns d).1.without x, (notify t ns d).2) := by
  induction ns generalizing d with
  | nil => rfl
  | cons n ns ih =>
    obtain ⟨hn, hns⟩ := List.forall_mem_cons.mp h
    unfold notify
    rw [d.without_raise t hn]
    dsimp only
    rw [ih (d.raise t n).1 hns]

/-- The timers of other toasts have nothing to do with it. -/
theorem edit_timers (ns : List Notification) :
    (notify t ns d).2.map (·.edit (x.edit ς σ)) = (notify t ns d).2 := by
  rw [notify_spawned, List.map_map]
  rfl

theorem without_finishWith {ns : List Notification} (h : x.Spares (d.tray.raises t.now ns)) :
    finishWith t ns (d.without x) = (finishWith t ns d).edit (x.edit ς σ) := by
  unfold finishWith
  rw [without_notify t d ns h]
  dsimp only [Tasks.Effect.edit]
  rw [edit_timers]
  rfl

theorem without_goOnWith {ns : List Notification} (h : x.Spares (d.tray.raises t.now ns))
    (rest : List Event) : goOnWith t ns (.script rest) (d.without x) =
      (goOnWith t ns (.script rest) d).edit (x.edit ς σ) := by
  unfold goOnWith
  rw [without_notify t d ns h]
  dsimp only [Tasks.Effect.edit]
  rw [edit_timers]
  rfl

section
variable [LogService ς]

theorem without_reload (h : x.Open d) (news : Option Notification) :
    reload t news (d.without x) = (reload t news d).edit (x.edit ς σ) := by
  unfold reload
  rw [d.without_beginReload t h]
  rfl

variable [PreferenceStore σ]

theorem without_onAnswer (h : x.Open d) (c : Call) (outcome : c.Outcome)
    (hn : x.Spares (d.tray.raises t.now (Stage.news d (.answered c outcome)))) :
    onAnswer t (d.without x) c outcome = (onAnswer t d c outcome).edit (x.edit ς σ) := by
  have told {v : ViewCall} (hv : (Act.shown v).onToasts = false) :
      finish ((d.without x).display t v) = (finish (d.display t v)).edit (x.edit ς σ) :=
    congrArg finish (d.without_display t hv).symm
  have closed := d.without_display (x := x) t (v := .closeForm) rfl
  cases c with
  | stopAll => cases outcome <;> exact without_finishWith t d hn
  | startJob seconds =>
    cases outcome with
    | error e => exact without_finishWith t d hn
    | ok job => exact without_reload t d h _
  | triggerError =>
    cases outcome with
    | error e => exact without_finishWith t d hn
    | ok u => exact without_reload t d h none
  | createEntry form =>
    cases outcome with
    | error e =>
      exact (congrArg (finishWith t _) closed.symm).trans (without_finishWith t (d.display t .closeForm) hn)
    | ok u =>
      have hc : x.Open (d.display t .closeForm) := ⟨h.given, h.records⟩
      exact (congrArg (reload t none) closed.symm).trans (without_reload t _ hc none)
  | listRecords => cases outcome <;> rfl
  | listRaw => cases outcome <;> exact told rfl
  | listJobs =>
    cases outcome with
    | error e => exact without_finishWith t d hn
    | ok jobs => exact told rfl
  | stopJob id =>
    cases outcome with
    | error e => rfl
    | ok u => exact told rfl

omit [LogService ς] in
theorem without_applyLocal (e : Event) :
    applyLocal t (d.without x) e = ((applyLocal t d e).1.without x, (applyLocal t d e).2) := by
  cases e with
  | closeJobs => exact congrArg (·, []) (d.without_display t rfl).symm
  | setInterval seconds =>
    exact congrArg (fun c => (c.1, c.2.toList)) (d.without_setInterval t seconds)
  | expandRow pos => exact congrArg (·, []) (d.without_expandRow t pos)
  | collapseRow pos => exact congrArg (·, []) (d.without_collapseRow t pos)
  | dismissToast id => exact congrArg (·, []) (d.without_dismiss t id)
  | _ => rfl

omit [LogService ς] in
/-- The news of an event that is applied at once are put up on what it makes of the desk. -/
theorem spares_applyLocal {e : Event} (he : e.isRequest = false) (ha : ∀ on, e ≠ .setAutoRefresh on)
    (hn : x.Spares (d.tray.raises t.now (Stage.news d (.handle e)))) :
    x.Spares ((applyLocal t d e).1.tray.raises t.now (applyLocal t d e).2) := by
  obtain ⟨hw, hnews⟩ := applyLocal_toasts t d e he ha
  rw [hnews, Tray.raises_congr (given_eq hw)]
  exact hn

theorem without_handle (h : x.Open d) (e : Event)
    (hn : x.Spares (d.tray.raises t.now (Stage.news d (.handle e)))) :
    handle t (d.without x) e = (handle t d e).edit (x.edit ς σ) := by
  cases e with
  | refresh => exact without_reload t d h none
  | setAutoRefresh on => cases on <;> rfl
  | closeJobs | setInterval | expandRow | collapseRow | dismissToast | quit =>
    rw [handle_inline t _ rfl (by simp), handle_inline t d rfl (by simp), without_applyLocal]
    exact without_finishWith t _ (spares_applyLocal t d rfl (by simp) hn)
  | _ => rfl

omit [LogService ς] in
theorem without_takeEvent (events : List Event)
    (hn : x.Spares (d.tray.raises t.now (Stage.news d (.script events)))) :
    takeEvent t (d.without x) events = (takeEvent t d events).edit (x.edit ς σ) := by
  cases events with
  | nil => rfl
  | cons e rest =>
    cases e with
    | setAutoRefresh on => cases on <;> rfl
    | closeJobs | setInterval | expandRow | collapseRow | dismissToast =>
      rw [takeEvent_inline t _ rest rfl (by simp) (by simp),
        takeEvent_inline t d rest rfl (by simp) (by simp), without_applyLocal]
      exact without_goOnWith t _ (spares_applyLocal t d rfl (by simp) hn) rest
    | _ => rfl

/-- A turn at a stage does the same without the residue. -/
theorem without_act (h : x.Open d) {stage : Stage}
    (hs : ∀ r news, stage = .reloaded r news → x.Fits r)
    (hn : x.Spares (d.tray.raises t.now (stage.news d))) :
    act t (d.without x) (stage.without x) = (act t d stage).edit (x.edit ς σ) := by
  cases stage with
  | handle e => exact without_handle t d h e hn
  | answered c outcome => exact without_onAnswer t d h c outcome hn
  | reloaded r news =>
    change finishWith t _ ((d.without x).finishReload t (r.without x)) = _
    rw [d.without_finishReload t h (hs r news rfl)]
    have hg : (d.finishReload t r).tray.given = d.tray.given :=
      congrArg (·.tray.given) (d.finishReload_toasting t r)
    refine without_finishWith t _ ?_
    rwa [Tray.raises_congr hg]
  | switched on rest =>
    cases rest with
    | none => exact without_finishWith t (d.setAutoRefresh on).1 hn
    | some rest => exact without_goOnWith t (d.setAutoRefresh on).1 hn rest
  | script events => exact without_takeEvent t d events hn
  | _ => rfl

end

section
variable [LogService ς] [PreferenceStore σ]

def without (x : Residue) (s : State ς σ) : State ς σ := s.edit (x.edit ς σ)

/-- What a failed request has left behind is no matter for what is under way. -/
structure Lingers (x : Residue) (s : State ς σ) : Prop where
  desk : x.Open s.world
  carried : ∀ i r, Carries s i r → x.Fits r

theorem lingers_step {s : State ς σ} (h : Lingers x s) (m : Move) : Lingers x (step s m) := by
  constructor
  · have stays {t : Table} (ht : (step s m).world.table = t) (hr : s.world.refreshes ≤ t.refreshes)
        (hg : ∀ g, x.gap = some g → t.generation ≠ g + 1) : x.Open (step s m).world := by
      subst ht
      exact ⟨fun g hx => Nat.lt_of_lt_of_le (h.desk.given g hx) hr, hg⟩
    cases hh : happening s m with
    | none => exact stays (table_none hh) (Nat.le_refl _) h.desk.records
    | some p =>
      cases p with
      | began r => exact stays (table_began hh) (Nat.le_succ _) h.desk.records
      | expanded pos => exact stays (table_expanded hh) (Nat.le_refl _) h.desk.records
      | collapsed pos => exact stays (table_collapsed hh) (Nat.le_refl _) h.desk.records
      | ended r =>
        cases hb : s.world.table.brought? r with
        | none => exact stays (table_fallen hh hb) (Nat.le_refl _) h.desk.records
        | some records =>
          refine stays (table_brought hh hb) (Nat.le_refl _) fun g hx heq => ?_
          obtain ⟨i, -, hc⟩ := ended_carried hh
          obtain ⟨e, he⟩ := h.carried i r hc g hx heq
          rw [(Table.brought_eq hb).1] at he
          cases he
  · intro i r hc
    rcases carries_step hc with ⟨hc, -⟩ | ⟨-, hb⟩
    · exact h.carried i r hc
    · obtain ⟨hg, -⟩ := began_eq hb
      intro g hx heq
      have := h.desk.given g hx
      omega

theorem step_without {s : State ς σ} (h : Lingers x s) (m : Move) (hn : x.Spares (raises s m)) :
    step (without x s) m = without x (step s m) := by
  cases m with
  | turn i =>
    refine program.resume_edit ⟨fun stage hd => ?_, fun beat hd => ?_, fun r hd => ?_⟩
    · refine without_act ⟨s.now, i⟩ s.world h.desk (fun r news he => ?_) ?_
      · exact h.carried i r (.inl ⟨news, he ▸ deed_stagesAt hd⟩)
      · simpa only [raises, news, hd] using hn
    · exact s.world.without_beginReload ⟨s.now, i⟩ h.desk
    · exact s.world.without_finishReload ⟨s.now, i⟩ h.desk
        (h.carried i r (.inr (program.endTick_workAt hd).2.1))
  | ask e =>
    have he : (⟨true, e.stage⟩ : Tasks.Spawn Stage).edit (x.edit ς σ) = ⟨true, e.stage⟩ := by
      cases e <;> rfl
    exact ((s.edit_spawn (x.edit ς σ) ⟨true, e.stage⟩).trans (congrArg _ he)).symm
  | wait ms => rfl
  | scroll position => rfl
  | drop => rfl

/-- A console goes on without a residue as it does with it. -/
theorem after_without {s : State ς σ} (h : Lingers x s) {ms : List Move}
    (hn : x.Spares (raised s ms)) : after (without x s) ms = without x (after s ms) := by
  have lingers (ms : List Move) : Lingers x (after s ms) := by
    induction ms with
    | nil => exact h
    | cons m ms ih => exact lingers_step ih m
  induction ms with
  | nil => rfl
  | cons m ms ih =>
    obtain ⟨hold, hnew⟩ := List.forall_mem_append.mp hn
    change step (after (without x s) ms) m = _
    rw [ih hold, step_without (lingers ms) m hnew]
    rfl

end

end Console

end LogDesk
