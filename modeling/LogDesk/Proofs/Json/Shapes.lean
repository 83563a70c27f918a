import LogDesk.Json.Schema
import LogDesk.Proofs.Json.Texts

/-! Records of a schema, read from well-formed texts. What a reader makes of a text depends on what the text says
only: `Schema.read_written`, `readList_written`. -/

namespace LogDesk.Json

open Text

variable {v : Tree} {t w : List Char} {fuel : Nat} {rest : List UInt8}

def Kind.of? : Kind → Tree → Option Scalar
  | .text, .string s => some (.text s)
  | .textOrNull, .null => some .none
  | .textOrNull, .string s => some (.text s)
  | .flag, .bool b => some (.flag b)
  | _, _ => none

def Kind.starts : Kind → List UInt8
  | .text => [0x22]
  | .textOrNull => [0x6E, 0x22]
  | .flag => [0x74, 0x66]

/-- A value that a slot does not take begins in another way than those it takes. -/
theorem Kind.not_mem_starts {k : Kind} (h : k.of? v = none) : ∀ b ∈ v.starts, b ∉ k.starts := by
  cases v with
  | bool b => cases k <;> cases b <;> first | exact forall_of_all rfl | cases h
  | _ => cases k <;> first | exact forall_of_all rfl | cases h

theorem readText_other {b : UInt8} (hs : isSpace b = false) (hb : b ≠ 0x22) (r : List UInt8) :
    (readText (b :: r)).toOption = none := by
  rw [readText, skipSpace_solid hs]
  split
  next heq => exact absurd (List.cons.inj heq).1 hb
  next => rfl

theorem Kind.read_other {k : Kind} {b : UInt8} (hs : isSpace b = false) (hb : b ∉ k.starts)
    (r : List UInt8) : (k.read (b :: r)).toOption = none := by
  unfold Kind.read
  rw [skipSpace_solid hs]
  cases k with
  | text =>
    rw [toOption_map, readText_other hs (by simpa [Kind.starts] using hb)]
    rfl
  | textOrNull =>
    obtain ⟨hn, hq⟩ : b ≠ 0x6E ∧ b ≠ 0x22 := by simpa [Kind.starts] using hb
    split
    case h_2 heq => exact absurd (List.cons.inj heq).1 hn
    case h_3 =>
      rw [toOption_map, readText_other hs hq]
      rfl
    all_goals contradiction
  | flag =>
    obtain ⟨ht, hf⟩ : b ≠ 0x74 ∧ b ≠ 0x66 := by simpa [Kind.starts] using hb
    split
    case h_4 heq => exact absurd (List.cons.inj heq).1 ht
    case h_5 heq => exact absurd (List.cons.inj heq).1 hf
    case h_6 => rfl
    all_goals contradiction

/-- A slot reads of a value what it takes of it. -/
theorem Kind.read_written (k : Kind) (hw : Blanks w) (h : Written v t) (rest : List UInt8) :
    (k.read (utf8 w ++ (utf8 t ++ rest))).toOption = (k.of? v).map (·, rest) := by
  have hblanks : k.read (utf8 w ++ (utf8 t ++ rest)) = k.read (utf8 t ++ rest) := by
    unfold Kind.read
    rw [skipSpace_blanks hw]
  rw [hblanks]
  cases ho : k.of? v with
  | none =>
    obtain ⟨b, r, hb, hs⟩ := written_head h
    rw [hb, List.cons_append]
    exact Kind.read_other (start_solid v b hs).1 (Kind.not_mem_starts ho b hs) _
  | some x =>
    have htext {s : String} {u : List Char} (hq : Quoted s.toList u) :
        readText (0x22 :: (utf8 u ++ 0x22 :: rest)) = .ok (s, rest) :=
      readText_quoted blanks_nil hq rest
    cases h with
    | @string s u hq =>
      rw [utf8_string]
      cases k with
      | flag => cases ho
      | text | textOrNull =>
        change ((readText (0x22 :: _)).map _).toOption = _
        rw [htext hq]
        cases ho
        rfl
    | _ => cases k <;> cases ho <;> rfl

def Schema.lineUp? : Schema → List Tree → Option Found
  | [], [] => some []
  | [], _ :: _ => none
  | _ :: _, [] => some []
  | slot :: s, v :: vs => do
    let x ← slot.kind.of? v
    let f ← Schema.lineUp? s vs
    return (slot.name, x) :: f

/-- What the members of an object give to what was found before them. -/
def Schema.gather? (s : Schema) : Found → List (String × Tree) → Option Found
  | found, [] => some found
  | found, (name, v) :: ms =>
    match s.find? name with
    | none => s.gather? found ms
    | some slot =>
      if (found.get? name).isSome then none
      else do
        let x ← slot.kind.of? v
        s.gather? ((name, x) :: found) ms

def Schema.take? (s : Schema) : Tree → Option Found
  | .array vs => s.lineUp? vs
  | .object ms => s.gather? [] ms
  | _ => none

/-- What a record of a schema finds in a value, if nothing is missing. -/
def Schema.found? (s : Schema) (v : Tree) : Option Found := (s.take? v).filter s.complete

/-- Where an item comes, the list does not end. -/
theorem skipSpace_item {g : List Char} {first : Bool} (hg : Gap first g) (hv : Written v t)
    (r : List UInt8) : ∃ b r', skipSpace (utf8 g ++ (utf8 t ++ r)) = b :: r' ∧ b ≠ 0x5D := by
  obtain ⟨b, bs, hb, hs⟩ := written_head hv
  obtain ⟨hs, hc⟩ := start_solid v b hs
  cases hg with
  | first hw =>
    refine ⟨b, bs ++ r, ?_, hc⟩
    rw [skipSpace_blanks hw, hb, List.cons_append, skipSpace_solid hs]
  | @later w w' hw hw' =>
    refine ⟨0x2C, utf8 w' ++ (utf8 t ++ r), ?_, by decide⟩
    rw [utf8_append, List.append_assoc, utf8_comma, List.cons_append, skipSpace_blanks hw,
      skipSpace_solid (by decide)]

theorem readSlots_written {s : Schema} {first : Bool} {vs : List Tree} (h : WrittenItems first vs t) :
    (readSlots s first (utf8 t ++ rest)).toOption = (s.lineUp? vs).map (·, rest) := by
  induction s generalizing first vs t with
  | nil =>
    cases h with
    | close hw =>
      rw [utf8_bracket, readSlots, skipSpace_blanks hw]
      rfl
    | item hg hv hvs =>
      obtain ⟨b, r, hb, hne⟩ := skipSpace_item hg hv (utf8 _ ++ rest)
      rw [utf8_item, readSlots, hb]
      simp only [beq_false_of_ne hne, Bool.false_eq_true, if_false]
      rfl
  | cons slot s ih =>
    cases h with
    | close hw =>
      rw [utf8_bracket, readSlots, nextItem_close hw]
      rfl
    | @item _ g v t vs u hg hv hvs =>
      have hread := slot.kind.read_written blanks_nil hv (utf8 u ++ rest)
      rw [utf8_item, readSlots, nextItem_written hg hv]
      change (slot.kind.read _ >>= fun p => readSlots s false p.2 >>= fun q =>
        pure ((slot.name, p.1) :: q.1, q.2)).toOption = _
      rw [toOption_bind, ← List.nil_append (utf8 t ++ _), ← utf8_nil, hread, Schema.lineUp?]
      cases slot.kind.of? v with
      | none => rfl
      | some x =>
        simp only [Option.map_some, Option.bind_some, toOption_bind, ih hvs]
        cases Schema.lineUp? s vs <;> rfl

theorem readFields_written {s : Schema} {first : Bool} {found : Found} {ms : List (String × Tree)}
    (h : WrittenMembers first ms t) (hf : t.length < fuel) :
    (readFields s fuel first found (utf8 t ++ rest)).toOption = (s.gather? found ms).map (·, rest) := by
  induction ms generalizing first found t fuel with
  | nil =>
    obtain ⟨fuel, rfl⟩ := fuel_succ hf
    cases h with
    | close hw =>
      rw [utf8_brace, readFields, nextName_close hw]
      rfl
  | cons m ms ih =>
    obtain ⟨fuel, rfl⟩ := fuel_succ hf
    cases h with
    | @member _ g name n w w' v t _ u hg hq hw hw' hv hms =>
      have hpos := List.length_pos_iff.mpr (members_ne_nil hms)
      simp only [List.length_append, List.length_cons] at hf
      rw [utf8_member, readFields, nextName_gap hg]
      simp only [bind, Except.bind, readString_quoted hq, Schema.gather?]
      cases s.find? name with
      | none =>
        have hskip : skipValue fuel (utf8 t ++ (utf8 u ++ rest)) = .ok (utf8 u ++ rest) :=
          skipValue_written hv (by omega) (stops_members hms)
        simp only [colon_blanks hw, skipValue_blanks hw', hskip]
        exact ih hms (by omega)
      | some slot =>
        have hread := slot.kind.read_written hw' hv (utf8 u ++ rest)
        dsimp only
        split_ifs with hdup
        · rfl
        · simp only [colon_blanks hw]
          change (slot.kind.read _ >>= fun p =>
            readFields s fuel false ((name, p.1) :: found) p.2).toOption = _
          rw [toOption_bind, hread]
          cases slot.kind.of? v with
          | none => rfl
          | some x => exact ih hms (by omega)

theorem Schema.read_blanks {s : Schema} (hw : Blanks w) (r : List UInt8) :
    s.read fuel (utf8 w ++ r) = s.read fuel r := by
  rw [Schema.read, Schema.read, skipSpace_blanks hw]

theorem Schema.read_other {s : Schema} {b : UInt8} (hs : isSpace b = false) (ha : b ≠ 0x5B) (ho : b ≠ 0x7B)
    (r : List UInt8) : (s.read fuel (b :: r)).toOption = none := by
  rw [Schema.read, skipSpace_solid hs]
  simp only [beq_false_of_ne ha, beq_false_of_ne ho, Bool.false_eq_true, if_false]
  rfl

/-- What was found counts if nothing is missing. -/
theorem Schema.complete_found {s : Schema} {x : Reading (Piece Found)} {o : Option Found}
    (h : x.toOption = o.map (·, rest)) :
    (do
        let (f, r) ← x
        if s.complete f then return (f, r) else .error .mismatch : Reading (Piece Found)).toOption =
      (o.filter s.complete).map (·, rest) := by
  rw [toOption_bind, h]
  cases o with
  | none => rfl
  | some f =>
    simp only [Option.map_some, Option.bind_some, Option.filter_some]
    split <;> rfl

/-- A record of a schema is read of a value as what it finds there. -/
theorem Schema.read_written (s : Schema) (h : Written v t) (hf : t.length < fuel) :
    (s.read fuel (utf8 t ++ rest)).toOption = (s.found? v).map (·, rest) := by
  have hother (hv : s.found? v = none) (hb : ∀ b ∈ v.starts, b ≠ 0x5B ∧ b ≠ 0x7B) :
      (s.read fuel (utf8 t ++ rest)).toOption = (s.found? v).map (·, rest) := by
    obtain ⟨b, r, ht, hs⟩ := written_head h
    rw [hv, ht, List.cons_append]
    exact Schema.read_other (start_solid v b hs).1 (hb b hs).1 (hb b hs).2 _
  cases h with
  | array hvs => exact Schema.complete_found (readSlots_written hvs)
  | object hms => exact Schema.complete_found (readFields_written hms (Nat.lt_of_succ_lt hf))
  | null | true | false | number | string => exact hother rfl (forall_of_all rfl)

/-- A reader takes `f` of each value, whatever blanks stand in front of it. -/
def ReadsAs {α : Type} (read : Nat → List UInt8 → Reading (Piece α)) (f : Tree → Option α) : Prop :=
  ∀ ⦃v w t fuel⦄, Blanks w → Written v t → t.length < fuel → ∀ rest,
    (read fuel (utf8 w ++ (utf8 t ++ rest))).toOption = (f v).map (·, rest)

theorem readsAs_found {α : Type} {s : Schema} {g : Found → α}
    {read : Nat → List UInt8 → Reading (Piece α)}
    (h : ∀ fuel bs, read fuel bs = (s.read fuel bs).map fun p => (g p.1, p.2)) :
    ReadsAs read fun v => (s.found? v).map g := by
  intro v w t fuel hw hv hf rest
  rw [h, toOption_map, Schema.read_blanks hw, Schema.read_written s hv hf, Option.map_map, Option.map_map]
  rfl

theorem readList_written {α : Type} {read : Nat → List UInt8 → Reading (Piece α)} {f : Tree → Option α}
    (hread : ReadsAs read f) {n : Nat} {first : Bool} {vs : List Tree} (h : WrittenItems first vs t)
    (hf : t.length < fuel) (hn : t.length < n) :
    (readList (read n) fuel first (utf8 t ++ rest)).toOption = (vs.mapM f).map (·, rest) := by
  induction vs generalizing first t fuel with
  | nil =>
    obtain ⟨fuel, rfl⟩ := fuel_succ hf
    cases h with
    | close hw =>
      rw [utf8_bracket, readList, nextItem_close hw]
      rfl
  | cons v vs ih =>
    obtain ⟨fuel, rfl⟩ := fuel_succ hf
    cases h with
    | @item _ g _ t _ u hg hv hvs =>
      have hpos := List.length_pos_iff.mpr (written_ne_nil hv)
      simp only [List.length_append] at hf hn
      have hitem := hread blanks_nil hv (by omega : _ < n) (utf8 u ++ rest)
      rw [utf8_nil, List.nil_append] at hitem
      rw [utf8_item, readList, nextItem_written hg hv]
      change (read n _ >>= fun p => readList (read n) fuel false p.2 >>= fun q =>
        pure (p.1 :: q.1, q.2)).toOption = _
      rw [toOption_bind, hitem, List.mapM_cons]
      cases f v with
      | none => rfl
      | some x =>
        have hrest := ih hvs (by omega : _ < fuel) (by omega)
        simp only [Option.map_some, Option.bind_some, toOption_bind, hrest]
        cases vs.mapM f <;> rfl

def Tree.items? : Tree → Option (List Tree)
  | .array vs => some vs
  | _ => none

theorem readListOf_written {α : Type} {read : Nat → List UInt8 → Reading (Piece α)} {f : Tree → Option α}
    (hread : ReadsAs read f) {n : Nat} (hw : Blanks w) (h : Written v t) (hf : t.length < fuel)
    (hn : t.length < n) :
    (readListOf (read n) fuel (utf8 w ++ (utf8 t ++ rest))).toOption =
      (v.items?.bind (·.mapM f)).map (·, rest) := by
  have hother (hv : v.items? = none) (hb : ∀ b ∈ v.starts, b ≠ 0x5B) :
      (readListOf (read n) fuel (utf8 w ++ (utf8 t ++ rest))).toOption =
        (v.items?.bind (·.mapM f)).map (·, rest) := by
    obtain ⟨b, r, ht, hs⟩ := written_head h
    rw [hv, ht, List.cons_append, readListOf, skipSpace_blanks hw, skipSpace_solid (start_solid v b hs).1]
    simp only [beq_false_of_ne (hb b hs), Bool.false_eq_true, if_false]
    rfl
  cases h with
  | array hvs =>
    simp only [List.length_cons] at hf hn
    rw [readListOf, skipSpace_blanks hw]
    exact readList_written hread hvs (by omega) (by omega)
  | null | true | false | number | string | object => exact hother rfl (forall_of_all rfl)

end LogDesk.Json
