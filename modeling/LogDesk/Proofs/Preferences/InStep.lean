import LogDesk.Preferences
import LogDesk.Proofs.Preferences.FileStore
import LogDesk.Proofs.Text.Decimal

/-! Preferences in memory and in their store stay the same: what a setter leaves is what a new load
would give, whether its write succeeds or not. The two kinds of stores come in by what their contents
are after a write, and by nothing else. -/

namespace LogDesk

/-- A store with contents: a read gives what stands in them, a write that succeeds puts a value in, and
one that fails changes none of them. -/
class KeepingStore (σ : Type) [PreferenceStore σ] where
  contents : σ → Except PreferenceError Entries
  get_eq (s : σ) (name : String) : PreferenceStore.get s name = (contents s).map (·.get? name)
  set_ok (s : σ) (name value : String) (h : (PreferenceStore.set s name value).2 = .ok ()) :
    contents (PreferenceStore.set s name value).1 = (contents s).map (·.put name value)
  set_error (s : σ) (name value : String) (e : PreferenceError)
    (h : (PreferenceStore.set s name value).2 = .error e) :
    contents (PreferenceStore.set s name value).1 = contents s

namespace MemoryStore

def contents (s : MemoryStore) : Except PreferenceError Entries :=
  if s.fault = some .reads then .error (.storage .unreadable) else .ok s.entries

theorem get_contents (s : MemoryStore) (name : String) :
    s.get name = s.contents.map (·.get? name) := by
  unfold get contents
  split <;> rfl

/-- A write puts a value in unless writes fail. -/
theorem set_cases (s : MemoryStore) (name value : String) :
    s.set name value = (s, .error (.storage .full)) ∨
      s.set name value = ({ s with entries := s.entries.put name value }, .ok ()) := by
  unfold set
  split
  · exact .inl rfl
  · exact .inr rfl

theorem contents_put (s : MemoryStore) (name value : String) :
    ({ s with entries := s.entries.put name value } : MemoryStore).contents =
      s.contents.map (·.put name value) := by
  unfold contents
  dsimp only
  split <;> rfl

theorem set_ok {s : MemoryStore} {name value : String} (h : (s.set name value).2 = .ok ()) :
    (s.set name value).1.contents = s.contents.map (·.put name value) := by
  rcases s.set_cases name value with hs | hs
  · rw [hs] at h
    cases h
  · rw [hs]
    exact s.contents_put name value

theorem set_error {s : MemoryStore} {name value : String} {e : PreferenceError}
    (h : (s.set name value).2 = .error e) : (s.set name value).1.contents = s.contents := by
  rcases s.set_cases name value with hs | hs
  · rw [hs]
  · rw [hs] at h
    cases h

end MemoryStore

instance : KeepingStore MemoryStore where
  contents := MemoryStore.contents
  get_eq := MemoryStore.get_contents
  set_ok _ _ _ h := MemoryStore.set_ok h
  set_error _ _ _ _ h := MemoryStore.set_error h

/-- A write of a file store puts a value in where the file is written. -/
theorem FileStore.set_ok {s : FileStore} {name value : String} (h : (s.set name value).2 = .ok ()) :
    (s.set name value).1.entries = s.entries.put name value := by
  have hs := s.sets name value
  generalize s.set name value = r at hs h ⊢
  cases hs with
  | noFolder e => cases h
  | noFile disk e hm => cases h
  | written disk disk' hm hw => rfl

instance : KeepingStore FileStore where
  contents s := .ok s.entries
  get_eq _ _ := rfl
  set_ok _ _ _ h := congrArg Except.ok (FileStore.set_ok h)
  set_error _ _ _ _ h := congrArg Except.ok (FileStore.set_error h).1

namespace Preferences

theorem flag?_flagText (b : Bool) : flag? (flagText b) = some b := by
  cases b <;> rfl

theorem seconds?_secondsText {n : UInt32} (h : n ≠ 0) : seconds? (secondsText n) = some n := by
  have hlt : n.toNat < UInt32.size := n.toNat_lt_size
  have hn : n.toNat ≠ 0 := fun h' => h (UInt32.toNat_inj.mp h')
  have hread : Text.numeralBelow? UInt32.size (Text.digits n.toNat) = some n.toNat := by
    rw [Text.numeralBelow?, Text.numeral?_digits, Option.filter, if_pos (by simpa using hlt)]
  rw [seconds?, secondsText, String.toList_ofList, Text.trim_digits, hread]
  simp [hn]

theorem seconds?_pos {s : String} {n : UInt32} (h : seconds? s = some n) : n ≠ 0 := by
  unfold seconds? at h
  split at h
  next m hm =>
    have hlt : m < UInt32.size := by
      rw [Text.numeralBelow?, Option.filter_eq_some_iff] at hm
      simpa using hm.2
    split at h
    · cases h
    next hne =>
      rintro rfl
      have hz : UInt32.ofNat m = 0 := Option.some.inj h
      have hm0 : m % UInt32.size = 0 := by simpa using congrArg UInt32.toNat hz
      rw [Nat.mod_eq_of_lt hlt] at hm0
      exact hne hm0
  · cases h

section
variable {σ : Type} [PreferenceStore σ]

/-- Where both preferences can be read, a load gives them and leaves the store alone. -/
theorem load_settled {s : σ} {p : Preferences} {flag seconds : String}
    (hf : PreferenceStore.get s autoRefreshName = .ok (some flag))
    (hf' : flag? flag = some p.autoRefresh)
    (hs : PreferenceStore.get s secondsName = .ok (some seconds))
    (hs' : seconds? seconds = some p.interval) : load s = (s, .ok p) := by
  simp [load, loadOne, hf, hf', hs, hs']

variable [KeepingStore σ]

open KeepingStore

theorem contents_of_get {s : σ} {name : String} {stored : Option String}
    (h : PreferenceStore.get s name = .ok stored) :
    ∃ e : Entries, contents s = .ok e ∧ e.get? name = stored := by
  rw [get_eq] at h
  cases hc : contents s with
  | error e =>
    rw [hc] at h
    cases h
  | ok e =>
    rw [hc] at h
    cases h
    exact ⟨e, rfl, rfl⟩

/-- A preference that was loaded stands in the contents, and nothing else in them has changed. -/
theorem loadOne_contents {α : Type} {read : String → Option α} {print : α → String} {default : α}
    {name : String} {s s' : σ} {a : α} (hd : read (print default) = some default)
    (h : loadOne read print default name s = (s', .ok a)) :
    ∃ e e' : Entries, contents s = .ok e ∧ contents s' = .ok e' ∧
      (e'.get? name).bind read = some a ∧ ∀ other, other ≠ name → e'.get? other = e.get? other := by
  unfold loadOne at h
  split at h
  · cases h
  next stored hg =>
    obtain ⟨e, hc, he⟩ := contents_of_get hg
    split at h
    next b hb =>
      cases h
      exact ⟨e, e, hc, hc, he ▸ hb, fun _ _ => rfl⟩
    next =>
      split at h
      · cases h
      next t hset =>
        cases h
        have hok := set_ok s name (print default) (by rw [hset])
        rw [hset, hc] at hok
        refine ⟨e, _, hc, hok, ?_, ?_⟩
        · rw [Entries.get?_put, if_pos rfl]
          exact hd
        · intro other hne
          rw [Entries.get?_put, if_neg hne]

/-- Contents that hold preferences, and under all other names what they held before. -/
structure Holds (before : Entries) (p : Preferences) (e : Entries) : Prop where
  flag : (e.get? autoRefreshName).bind flag? = some p.autoRefresh
  seconds : (e.get? secondsName).bind seconds? = some p.interval
  others : ∀ name, name ≠ autoRefreshName → name ≠ secondsName → e.get? name = before.get? name

theorem holds_flag {before e : Entries} {p : Preferences} (h : Holds before p e) (on : Bool) :
    Holds before { p with autoRefresh := on } (e.put autoRefreshName (flagText on)) := by
  refine ⟨?_, ?_, ?_⟩
  · rw [Entries.get?_put, if_pos rfl]
    exact flag?_flagText on
  · rw [Entries.get?_put, if_neg (by decide)]
    exact h.seconds
  · intro name hf hs
    rw [Entries.get?_put, if_neg hf]
    exact h.others name hf hs

theorem holds_seconds {before e : Entries} {p : Preferences} (h : Holds before p e) {n : UInt32}
    (hn : n ≠ 0) : Holds before { p with interval := n } (e.put secondsName (secondsText n)) := by
  refine ⟨?_, ?_, ?_⟩
  · rw [Entries.get?_put, if_neg (by decide)]
    exact h.flag
  · rw [Entries.get?_put, if_pos rfl]
    exact seconds?_secondsText hn
  · intro name hf hs
    rw [Entries.get?_put, if_neg hs]
    exact h.others name hf hs

theorem load_holds {s s' : σ} {p : Preferences} (h : load s = (s', .ok p)) :
    ∃ before e : Entries, contents s = .ok before ∧ contents s' = .ok e ∧ Holds before p e := by
  unfold load at h
  dsimp only at h
  split at h
  · cases h
  next t flag hf =>
    split at h
    · cases h
    next t' seconds hs =>
      cases h
      obtain ⟨e, e₁, hc, hc₁, hflag, hother⟩ := loadOne_contents (flag?_flagText _) hf
      obtain ⟨e₁', e₂, hc₁', hc₂, hseconds, hother'⟩ :=
        loadOne_contents (seconds?_secondsText (by decide)) hs
      obtain rfl : e₁ = e₁' := Except.ok.inj (hc₁.symm.trans hc₁')
      refine ⟨e, e₂, hc, hc₂, ?_, hseconds, ?_⟩
      · rw [hother' _ (by decide)]
        exact hflag
      · intro name hf hs
        rw [hother' name hs, hother name hf]

end

/-- Preferences and their store in the course of time: they are loaded from a store, and then changed
again and again, with success or without. In between others may do to the store what `others` allows. -/
inductive Course {σ : Type} [PreferenceStore σ] (others : σ → σ → Prop) (first : σ) :
    Preferences → σ → Prop where
  | loaded {p : Preferences} {s : σ} (h : load first = (s, .ok p)) : Course others first p s
  | setAutoRefresh {p : Preferences} {s : σ} (h : Course others first p s) (on : Bool) :
    Course others first (p.setAutoRefresh s on).preferences (p.setAutoRefresh s on).store
  | setInterval {p : Preferences} {s : σ} (h : Course others first p s) (seconds : UInt32) :
    Course others first (p.setInterval s seconds).preferences (p.setInterval s seconds).store
  | meanwhile {p : Preferences} {s s' : σ} (h : Course others first p s) (ho : others s s') :
    Course others first p s'

section
variable {σ : Type} [PreferenceStore σ] [KeepingStore σ]

open KeepingStore

/-- Others leave the contents alone. What else they do may make any write fail or succeed. -/
def KeepContents (s s' : σ) : Prop := contents s' = contents s

theorem setAutoRefresh_holds {before e : Entries} {p : Preferences} {s : σ} (hc : contents s = .ok e)
    (h : Holds before p e) (on : Bool) : ∃ e', contents (p.setAutoRefresh s on).store = .ok e' ∧
      Holds before (p.setAutoRefresh s on).preferences e' := by
  unfold setAutoRefresh
  split
  next t hset =>
    have hok := set_ok s autoRefreshName (flagText on) (by rw [hset])
    rw [hset, hc] at hok
    exact ⟨_, hok, holds_flag h on⟩
  next t err hset =>
    have herr := set_error s autoRefreshName (flagText on) err (by rw [hset])
    rw [hset, hc] at herr
    exact ⟨e, herr, h⟩

theorem setInterval_holds {before e : Entries} {p : Preferences} {s : σ} (hc : contents s = .ok e)
    (h : Holds before p e) (n : UInt32) : ∃ e', contents (p.setInterval s n).store = .ok e' ∧
      Holds before (p.setInterval s n).preferences e' := by
  unfold setInterval checkInterval
  by_cases hn : n = 0
  · rw [if_pos hn]
    exact ⟨e, hc, h⟩
  · rw [if_neg hn]
    dsimp only
    split
    next t hset =>
      have hok := set_ok s secondsName (secondsText n) (by rw [hset])
      rw [hset, hc] at hok
      exact ⟨_, hok, holds_seconds h hn⟩
    next t err hset =>
      have herr := set_error s secondsName (secondsText n) err (by rw [hset])
      rw [hset, hc] at herr
      exact ⟨e, herr, h⟩

theorem course_holds {first s : σ} {p : Preferences} (h : Course KeepContents first p s) :
    ∃ before e : Entries, contents first = .ok before ∧ contents s = .ok e ∧ Holds before p e := by
  induction h with
  | loaded h => exact load_holds h
  | setAutoRefresh _ on ih =>
    obtain ⟨before, e, hb, hc, hh⟩ := ih
    obtain ⟨e', hc', hh'⟩ := setAutoRefresh_holds hc hh on
    exact ⟨before, e', hb, hc', hh'⟩
  | setInterval _ n ih =>
    obtain ⟨before, e, hb, hc, hh⟩ := ih
    obtain ⟨e', hc', hh'⟩ := setInterval_holds hc hh n
    exact ⟨before, e', hb, hc', hh'⟩
  | meanwhile _ ho ih =>
    obtain ⟨before, e, hb, hc, hh⟩ := ih
    exact ⟨before, e, hb, Eq.trans ho hc, hh⟩

end

structure Counted (σ : Type) where
  store : σ
  writes : Nat

instance {σ : Type} [PreferenceStore σ] : PreferenceStore (Counted σ) where
  get c name := PreferenceStore.get c.store name
  set c name value :=
    (⟨(PreferenceStore.set c.store name value).1, c.writes + 1⟩,
      (PreferenceStore.set c.store name value).2)

/-- Preferences that are the same in memory and in the store. -/
structure InStep {σ : Type} [PreferenceStore σ] (first : σ) (p : Preferences) (s : σ) : Prop where
  reload : load s = (s, .ok p)
  /-- Not even a write of what is there already. -/
  unwritten : ∀ writes, load (⟨s, writes⟩ : Counted σ) = (⟨s, writes⟩, .ok p)
  positive : 1 ≤ p.interval
  others : ∀ name, name ≠ autoRefreshName → name ≠ secondsName →
    PreferenceStore.get s name = PreferenceStore.get first name

theorem course_inStep {σ : Type} [PreferenceStore σ] [KeepingStore σ] {first s : σ}
    {p : Preferences} (h : Course KeepContents first p s) : InStep first p s := by
  obtain ⟨before, e, hb, hc, hh⟩ := course_holds h
  obtain ⟨flag, hflag, hflag'⟩ := Option.bind_eq_some_iff.mp hh.flag
  obtain ⟨seconds, hseconds, hseconds'⟩ := Option.bind_eq_some_iff.mp hh.seconds
  have hget (name : String) : PreferenceStore.get s name = .ok (e.get? name) := by
    rw [KeepingStore.get_eq, hc]
    rfl
  have hf : PreferenceStore.get s autoRefreshName = .ok (some flag) := by rw [hget, hflag]
  have hs : PreferenceStore.get s secondsName = .ok (some seconds) := by rw [hget, hseconds]
  refine ⟨load_settled hf hflag' hs hseconds', ?_, ?_, ?_⟩
  · intro writes
    exact load_settled (s := (⟨s, writes⟩ : Counted σ)) hf hflag' hs hseconds'
  · have hne := seconds?_pos hseconds'
    rw [UInt32.le_iff_toNat_le]
    have hnz : p.interval.toNat ≠ 0 := fun h' => hne (UInt32.toNat_inj.mp h')
    exact Nat.one_le_iff_ne_zero.mpr hnz
  · intro name hf hs
    rw [hget, hh.others name hf hs, KeepingStore.get_eq, hb]
    rfl

section
variable {σ : Type} [PreferenceStore σ] {P : σ → Prop}

theorem loadOne_keeps {α : Type} {read : String → Option α} {print : α → String} {default : α}
    {name : String} (hset : ∀ s name value, P s → P (PreferenceStore.set s name value).1) {s : σ}
    (h : P s) : P (loadOne read print default name s).1 := by
  unfold loadOne
  split
  · exact h
  · split
    · exact h
    · have hs := hset s name (print default) h
      split
      next t e he => rwa [he] at hs
      next t he => rwa [he] at hs

theorem load_keeps (hset : ∀ s name value, P s → P (PreferenceStore.set s name value).1) {s : σ}
    (h : P s) : P (load s).1 := by
  unfold load
  dsimp only
  have hf : P (loadOne flag? flagText false autoRefreshName s).1 := loadOne_keeps hset h
  split
  next t e he => rwa [he] at hf
  next t flag he =>
    rw [he] at hf
    have hs : P (loadOne seconds? secondsText 5 secondsName t).1 := loadOne_keeps hset hf
    split
    next t' e he => rwa [he] at hs
    next t' seconds he => rwa [he] at hs

theorem setAutoRefresh_keeps (hset : ∀ s name value, P s → P (PreferenceStore.set s name value).1)
    {s : σ} (h : P s) (p : Preferences) (on : Bool) : P (p.setAutoRefresh s on).store := by
  have hs := hset s autoRefreshName (flagText on) h
  unfold setAutoRefresh
  split
  next t he => rwa [he] at hs
  next t e he => rwa [he] at hs

theorem setInterval_keeps (hset : ∀ s name value, P s → P (PreferenceStore.set s name value).1)
    {s : σ} (h : P s) (p : Preferences) (n : UInt32) : P (p.setInterval s n).store := by
  have hs := hset s secondsName (secondsText n) h
  unfold setInterval
  split
  · exact h
  · split
    next t he => rwa [he] at hs
    next t e he => rwa [he] at hs

def Alone (_ _ : σ) : Prop := False

theorem alone_keeps (hset : ∀ s name value, P s → P (PreferenceStore.set s name value).1)
    {first s : σ} {p : Preferences} (hfirst : P first) (h : Course Alone first p s) : P s := by
  induction h with
  | loaded h =>
    have hl := load_keeps hset hfirst
    rwa [h] at hl
  | setAutoRefresh _ on ih => exact setAutoRefresh_keeps hset ih _ on
  | setInterval _ n ih => exact setInterval_keeps hset ih _ n
  | meanwhile _ ho => exact ho.elim

end

/-- In either kind of store the preferences are in step with it, from the load on and whatever becomes
of the changes. A file store that no one else touches opens as the same store, so that they are in step
with the file too. -/
theorem inStep :
    (∀ (first s : MemoryStore) (p : Preferences), Course KeepContents first p s → InStep first p s) ∧
    ∀ (first s : FileStore) (p : Preferences),
      (Course KeepContents first p s → InStep first p s) ∧
      (FileStore.open? first.disk first.path = .ok first → Course Alone first p s →
        FileStore.open? s.disk s.path = .ok s) := by
  refine ⟨fun first s p h => course_inStep h, fun first s p => ⟨course_inStep, ?_⟩⟩
  intro hfirst h
  exact alone_keeps (P := fun s : FileStore => FileStore.open? s.disk s.path = .ok s)
    (fun s name value hs => FileStore.open?_take hs name value) hfirst h

/-- Preferences that were written by hand, a zero that is refused, and a change that is lost while
nothing can be written and made again when it can; and a file store that was never written before. -/
theorem inStep_after_failures :
    Course KeepContents
      (⟨[("autoRefresh", "yes"), ("seconds", " +07 "), ("theme", "dark")], none⟩ : MemoryStore) ⟨true, 7⟩
      ⟨[("autoRefresh", "true"), ("seconds", " +07 "), ("theme", "dark")], none⟩ ∧
    InStep
      (⟨[("autoRefresh", "yes"), ("seconds", " +07 "), ("theme", "dark")], none⟩ : MemoryStore) ⟨true, 7⟩
      ⟨[("autoRefresh", "true"), ("seconds", " +07 "), ("theme", "dark")], none⟩ ∧
    Course Alone (⟨["preferences"], [], .empty⟩ : FileStore) {}
      (load (⟨["preferences"], [], .empty⟩ : FileStore)).1 ∧
    FileStore.open? (load (⟨["preferences"], [], .empty⟩ : FileStore)).1.disk ["preferences"] =
      .ok (load (⟨["preferences"], [], .empty⟩ : FileStore)).1 := by
  let read : MemoryStore := ⟨[("autoRefresh", "yes"), ("seconds", " +07 "), ("theme", "dark")], none⟩
  have loaded : Course KeepContents read ⟨false, 7⟩ read := .loaded rfl
  have refused : Course KeepContents read ⟨false, 7⟩ read := loaded.setInterval 0
  have full : Course KeepContents read ⟨false, 7⟩ { read with fault := some .writes } :=
    refused.meanwhile rfl
  have lost : Course KeepContents read ⟨false, 7⟩ { read with fault := some .writes } :=
    full.setAutoRefresh true
  have room : Course KeepContents read ⟨false, 7⟩ read := lost.meanwhile rfl
  have fresh : Course Alone (⟨["preferences"], [], .empty⟩ : FileStore) {}
      (load (⟨["preferences"], [], .empty⟩ : FileStore)).1 := .loaded rfl
  exact ⟨room.setAutoRefresh true, inStep.1 _ _ _ (room.setAutoRefresh true), fresh,
    (inStep.2 _ _ _).2 rfl fresh⟩

end Preferences

end LogDesk
