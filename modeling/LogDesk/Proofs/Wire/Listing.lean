import LogDesk.Proofs.Wire.Reading

/-! Which listings of records are read, and as what: `Record.listing`. An element says a record by its members or
by its place in a list, `Record.Element`, and what else an object holds does not count, `Element.sameFields`. -/

namespace LogDesk.Record

open Json Text

variable {given : String → Option Tree} {r r' : Record} {ms ms' : List (String × Tree)} {f : Found}
  {name : String} {o : Option Tree} {v v' : Tree}

/-- What may stand for a text, and the text: an empty one where nothing stands. -/
inductive Given : Option Tree → String → Prop
  | absent : Given none ""
  | string (s : String) : Given (some (.string s)) s

/-- What may stand for a stack trace. An empty trace is one. -/
inductive GivenTrace : Option Tree → Option String → Prop
  | absent : GivenTrace none none
  | null : GivenTrace (some .null) none
  | string (s : String) : GivenTrace (some (.string s)) (some s)

structure Filled (given : String → Option Tree) (r : Record) : Prop where
  timestamp : Given (given "timestamp") r.timestamp
  level : Given (given "level") r.level
  loggerName : Given (given "loggerName") r.loggerName
  threadName : Given (given "threadName") r.threadName
  message : Given (given "message") r.message
  stackTrace : GivenTrace (given "stackTrace") r.stackTrace

def fields : List String := ["timestamp", "level", "loggerName", "threadName", "message", "stackTrace"]

inductive Element : Tree → Record → Prop
  | object {ms : List (String × Tree)} {r : Record} : (∀ name ∈ fields, occurrences name ms ≤ 1) →
      Filled (ms.lookup ·) r → Element (.object ms) r
  | array {vs : List Tree} {r : Record} : vs.length ≤ fields.length →
      Filled ((fields.zip vs).lookup ·) r → Element (.array vs) r

theorem Given.unique {s s' : String} (h : Given o s) (h' : Given o s') : s = s' := by
  cases h <;> cases h' <;> rfl

theorem GivenTrace.unique {s s' : Option String} (h : GivenTrace o s) (h' : GivenTrace o s') : s = s' := by
  cases h <;> cases h' <;> rfl

theorem Filled.unique (h : Filled given r) (h' : Filled given r') : r = r' := by
  obtain ⟨t, l, n, u, m, k⟩ := r
  obtain ⟨t', l', n', u', m', k'⟩ := r'
  obtain rfl : t = t' := h.timestamp.unique h'.timestamp
  obtain rfl : l = l' := h.level.unique h'.level
  obtain rfl : n = n' := h.loggerName.unique h'.loggerName
  obtain rfl : u = u' := h.threadName.unique h'.threadName
  obtain rfl : m = m' := h.message.unique h'.message
  obtain rfl : k = k' := h.stackTrace.unique h'.stackTrace
  rfl

theorem given_of_holds (h : Kind.text.Holds o (f.get? name)) : Given o (textOf f name) := by
  unfold textOf
  generalize f.get? name = x at h
  cases h with
  | absent => exact .absent
  | @present v x ho =>
    cases v with
    | string s =>
      cases ho
      exact .string s
    | _ => cases ho

theorem givenTrace_of_holds (h : Kind.textOrNull.Holds o (f.get? "stackTrace")) :
    GivenTrace o (ofFound f).stackTrace := by
  unfold ofFound
  dsimp only
  generalize f.get? "stackTrace" = x at h
  cases h with
  | absent => exact .absent
  | @present v x ho =>
    cases v with
    | string s =>
      cases ho
      exact .string s
    | null =>
      cases ho
      exact .null
    | _ => cases ho

/-- What was found makes the record. -/
theorem filled_of_holds (h : ∀ name {slot}, schema.find? name = some slot →
    slot.kind.Holds (given name) (f.get? name)) : Filled given (ofFound f) where
  timestamp := given_of_holds (h "timestamp" rfl)
  level := given_of_holds (h "level" rfl)
  loggerName := given_of_holds (h "loggerName" rfl)
  threadName := given_of_holds (h "threadName" rfl)
  message := given_of_holds (h "message" rfl)
  stackTrace := givenTrace_of_holds (h "stackTrace" rfl)

theorem Given.fits {s : String} (h : Given o s) (ho : o = some v) : (Kind.text.of? v).isSome := by
  cases h <;> cases ho
  rfl

theorem GivenTrace.fits {s : Option String} (h : GivenTrace o s) (ho : o = some v) :
    (Kind.textOrNull.of? v).isSome := by
  cases h <;> cases ho <;> rfl

/-- What is given fits into the slots. -/
theorem Filled.fits (h : Filled given r) {slot : Slot} (hs : slot ∈ schema) (hv : given slot.name = some v) :
    (slot.kind.of? v).isSome := by
  simp only [schema, List.mem_cons, List.not_mem_nil, or_false] at hs
  rcases hs with rfl | rfl | rfl | rfl | rfl | rfl
  · exact h.timestamp.fits hv
  · exact h.level.fits hv
  · exact h.loggerName.fits hv
  · exact h.threadName.fits hv
  · exact h.message.fits hv
  · exact h.stackTrace.fits hv

theorem mem_of_find? {slot : Slot} (hs : schema.find? name = some slot) : slot ∈ schema ∧ name ∈ fields := by
  have hmem : slot ∈ schema := List.mem_of_find?_eq_some hs
  have hname : slot.name ∈ schema.names := List.mem_map_of_mem hmem
  rw [Schema.name_of_find? hs] at hname
  exact ⟨hmem, hname⟩

theorem find?_of_mem (hn : name ∈ fields) : ∃ slot, schema.find? name = some slot := by
  obtain ⟨slot, hs, rfl⟩ := List.mem_map.mp (show name ∈ schema.map (·.name) from hn)
  exact Option.isSome_iff_exists.mp (List.find?_isSome.mpr ⟨slot, hs, beq_self_eq_true _⟩)

theorem object_iff : (schema.gather? [] ms).map ofFound = some r ↔ Element (.object ms) r := by
  have hread {f : Found} (h : schema.gather? [] ms = some f) {name : String} {slot : Slot}
      (hs : schema.find? name = some slot) := gather?_holds h hs rfl
  constructor
  · intro h
    obtain ⟨f, hf, rfl⟩ := Option.map_eq_some_iff.mp h
    refine .object (fun name hn => ?_) (filled_of_holds fun _ _ hs => (hread hf hs).1)
    obtain ⟨slot, hs⟩ := find?_of_mem hn
    exact (hread hf hs).2
  · rintro (⟨honce, hfill⟩ | _)
    obtain ⟨f, hf⟩ : ∃ f, schema.gather? [] ms = some f := by
      refine gather?_isSome (fun _ hx => by cases hx) (fun hs => honce _ (mem_of_find? hs).2) (fun hs hv => ?_)
      rw [← Schema.name_of_find? hs] at hv
      exact hfill.fits (mem_of_find? hs).1 hv
    -- What was found fills a record as `r` is filled, and there is only one such.
    rw [hf, Option.map_some, (filled_of_holds fun _ _ hs => (hread hf hs).1).unique hfill]

theorem array_iff {vs : List Tree} : (schema.lineUp? vs).map ofFound = some r ↔ Element (.array vs) r := by
  constructor
  · intro h
    obtain ⟨f, hf, rfl⟩ := Option.map_eq_some_iff.mp h
    exact .array (lineUp?_length hf) (filled_of_holds fun _ _ hs => lineUp?_holds hf hs)
  · rintro (_ | ⟨hlen, hfill⟩)
    obtain ⟨f, hf⟩ := lineUp?_isSome (s := schema) (by decide) hlen fun slot hs v hv => hfill.fits hs hv
    rw [hf, Option.map_some, (filled_of_holds fun _ _ hs => lineUp?_holds hf hs).unique hfill]

/-- A record is read of what says it, and of nothing else. -/
theorem found?_iff : (schema.found? v).map ofFound = some r ↔ Element v r := by
  have hall (o : Option Found) : o.filter schema.complete = o := by cases o <;> rfl
  rw [Schema.found?, hall]
  cases v with
  | object ms => exact object_iff
  | array vs => exact array_iff
  | _ =>
    refine ⟨fun h => ?_, fun h => ?_⟩ <;> cases h

def known (ms : List (String × Tree)) : List (String × Tree) := ms.filter (·.1 ∈ fields)

inductive SameFields : Tree → Tree → Prop
  | refl (v : Tree) : SameFields v v
  | object {ms ms' : List (String × Tree)} : (known ms).Perm (known ms') → SameFields (.object ms) (.object ms')

theorem under_known (ms : List (String × Tree)) (hn : name ∈ fields) : under name (known ms) = under name ms := by
  rw [under, under, known, List.filter_filter]
  refine List.filter_congr fun m _ => ?_
  by_cases hm : m.1 = name
  · simp [hm, hn]
  · simp [hm]

/-- A field that stands once is the same in every order. -/
theorem under_perm (h : (known ms).Perm (known ms')) (hn : name ∈ fields) (hone : occurrences name ms ≤ 1) :
    under name ms = under name ms' := by
  have hp : (under name ms).Perm (under name ms') := by
    rw [← under_known ms hn, ← under_known ms' hn]
    exact h.filter _
  rw [occurrences_under] at hone
  match hu : under name ms, hone with
  | [], _ => rw [hu] at hp; exact hp.nil_eq
  | [m], _ => rw [hu] at hp; exact (List.singleton_perm.mp hp)

theorem Filled.congr {given' : String → Option Tree} (h : Filled given r)
    (he : ∀ name ∈ fields, given name = given' name) : Filled given' r where
  timestamp := he "timestamp" (by decide) ▸ h.timestamp
  level := he "level" (by decide) ▸ h.level
  loggerName := he "loggerName" (by decide) ▸ h.loggerName
  threadName := he "threadName" (by decide) ▸ h.threadName
  message := he "message" (by decide) ▸ h.message
  stackTrace := he "stackTrace" (by decide) ▸ h.stackTrace

theorem SameFields.symm (h : SameFields v v') : SameFields v' v := by
  cases h with
  | refl => exact .refl v
  | object hp => exact .object hp.symm

theorem Element.sameFields (h : Element v r) (ha : SameFields v v') : Element v' r := by
  cases ha with
  | refl => exact h
  | object hp =>
    obtain ⟨honce, hfill⟩ | _ := h
    have hu {name : String} (hn : name ∈ fields) := under_perm hp hn (honce name hn)
    refine .object (fun name hn => ?_) (hfill.congr fun name hn => ?_)
    · rw [occurrences_under, ← hu hn, ← occurrences_under]
      exact honce name hn
    · rw [lookup_under, lookup_under, hu hn]

variable {t : List Char}

theorem parseMany_elements (h : WellFormed v t) (rs : List Record) :
    parseMany Record.read (utf8 t) = .ok rs ↔ ∃ es, v = .array es ∧ List.Forall₂ Element es rs := by
  simp only [parseMany_iff readsAs h, found?_iff]

theorem elements_sameFields {es es' : List Tree} {rs : List Record} (h : List.Forall₂ Element es rs)
    (ha : List.Forall₂ SameFields es es') : List.Forall₂ Element es' rs := by
  induction ha generalizing rs with
  | nil => exact h
  | cons ha _ ih =>
    cases h with
    | cons he hes => exact .cons (he.sameFields ha) (ih hes)

/-- A listing is read just where it is a list of elements that say records, and as these records. What is not a
field does not count, nor does the order of the fields. -/
theorem listing (h : WellFormed v t) :
    (∀ rs, parseMany Record.read (utf8 t) = .ok rs ↔ ∃ es, v = .array es ∧ List.Forall₂ Element es rs) ∧
      ∀ es es' t', v = .array es → List.Forall₂ SameFields es es' → WellFormed (.array es') t' →
        ∀ rs, parseMany Record.read (utf8 t') = .ok rs ↔ parseMany Record.read (utf8 t) = .ok rs := by
  refine ⟨parseMany_elements h, ?_⟩
  rintro es es' t' rfl ha ht' rs
  rw [parseMany_elements h, parseMany_elements ht']
  constructor
  · rintro ⟨_, ⟨⟩, hes⟩
    exact ⟨es, rfl, elements_sameFields hes (ha.flip.imp fun _ _ => SameFields.symm)⟩
  · rintro ⟨_, ⟨⟩, hes⟩
    exact ⟨es', rfl, elements_sameFields hes ha⟩

/-- A record with one field and a member that is none, read from its text on one line. -/
theorem listing_sequence :
    parseMany Record.read (utf8 ((Value.array [.object [("sequence", .number (.int 12)),
      ("level", .string "WARN")]]).print .compact 0)) = .ok [{ level := "WARN" }] := by
  have hl : Layout.compact.IsBlank := trivial
  have hp := Prints.array hl (.cons (Prints.object hl (.cons (Prints.Member.mk "sequence" (.int 12))
    (.cons (Prints.Member.mk "level" (.string "WARN")) .nil))) .nil)
  refine ((listing hp.wellFormed).1 _).mpr ⟨_, rfl, .cons (.object (by decide) ?_) .nil⟩
  exact ⟨.absent, .string "WARN", .absent, .absent, .absent, .absent⟩

end LogDesk.Record
