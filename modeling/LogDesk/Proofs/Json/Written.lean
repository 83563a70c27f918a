import LogDesk.Json.Reader
import LogDesk.Proofs.Json.Numerals
import LogDesk.Proofs.Json.Strings

/-! Readers on well-formed texts, value by value along the grammar. A value that is skipped leaves what comes
behind it, `skipValue_written`, and one that is read gives what it says, `readValue_written`. -/

namespace LogDesk.Json

open Text

variable {v : Tree} {t g w : List Char} {first : Bool} {fuel depth : Nat} {rest : List UInt8}

theorem blank_byte {c : Char} (h : c ∈ [' ', '\n', '\t', '\r']) : ∃ b, charBytes c = [b] ∧
    isSpace b = true ∧ b ∈ [0x20, 0x0A, 0x09, 0x0D, 0x2C, 0x5D, 0x7D] := by
  simp only [List.mem_cons, List.not_mem_nil, or_false] at h
  rcases h with rfl | rfl | rfl | rfl
  · exact ⟨0x20, by decide⟩
  · exact ⟨0x0A, by decide⟩
  · exact ⟨0x09, by decide⟩
  · exact ⟨0x0D, by decide⟩

theorem skipSpace_solid {b : UInt8} (hb : isSpace b = false) (r : List UInt8) :
    skipSpace (b :: r) = b :: r := by
  rw [skipSpace, List.dropWhile_cons_of_neg (by simp [hb])]

theorem skipSpace_blanks (h : Blanks w) (r : List UInt8) : skipSpace (utf8 w ++ r) = skipSpace r := by
  induction w with
  | nil => rfl
  | cons c w ih =>
    obtain ⟨b, hc, hb, -⟩ := blank_byte (h c List.mem_cons_self)
    rw [utf8_cons, hc, List.singleton_append, List.cons_append, skipSpace,
      List.dropWhile_cons_of_pos hb]
    exact ih fun d hd => h d (List.mem_cons_of_mem c hd)

theorem utf8_comma (w : List Char) : utf8 (',' :: w) = 0x2C :: utf8 w := rfl

/-- A value ends in front of blanks and a mark. -/
theorem stops_blanks (h : Blanks w) {b : UInt8} (hb : b ∈ [0x2C, 0x5D, 0x7D]) (r : List UInt8) :
    Stops (utf8 w ++ b :: r) := by
  cases w with
  | nil => exact stops_cons (by simp_all) r
  | cons c w =>
    obtain ⟨d, hc, -, hd⟩ := blank_byte (h c List.mem_cons_self)
    rw [utf8_cons, hc]
    exact stops_cons hd _

theorem stops_of_blanks (h : Blanks w) : Stops (utf8 w) := by
  cases w with
  | nil => exact stops_nil
  | cons c w =>
    obtain ⟨d, hc, -, hd⟩ := blank_byte (h c List.mem_cons_self)
    rw [utf8_cons, hc]
    exact stops_cons hd _

theorem stops_gap (h : Gap false g) (r : List UInt8) : Stops (utf8 g ++ r) := by
  cases h with
  | @later w w' hw hw' =>
    rw [utf8_append, List.append_assoc, utf8_comma]
    exact stops_blanks hw (by decide) _

theorem stops_items {vs : List Tree} (h : WrittenItems false vs t) : Stops (utf8 t ++ rest) := by
  cases h with
  | close hw =>
    rw [utf8_append, List.append_assoc]
    exact stops_blanks hw (b := 0x5D) (by decide) _
  | item hg =>
    rw [utf8_append, List.append_assoc]
    exact stops_gap hg _

theorem stops_members {ms : List (String × Tree)} (h : WrittenMembers false ms t) :
    Stops (utf8 t ++ rest) := by
  cases h with
  | close hw =>
    rw [utf8_append, List.append_assoc]
    exact stops_blanks hw (b := 0x7D) (by decide) _
  | member hg =>
    rw [utf8_append, List.append_assoc]
    exact stops_gap hg _

theorem nextItem_gap (h : Gap first g) {b : UInt8} (hs : isSpace b = false) (hb : b ≠ 0x5D)
    (r : List UInt8) : nextItem first (utf8 g ++ b :: r) = .ok (.item (b :: r)) := by
  cases h with
  | first hw =>
    rw [nextItem, skipSpace_blanks hw, skipSpace_solid hs]
    simp [hb]
  | @later w w' hw hw' =>
    rw [utf8_append, List.append_assoc, utf8_comma, List.cons_append, nextItem, skipSpace_blanks hw,
      skipSpace_solid (by decide)]
    simp [skipSpace_blanks hw', skipSpace_solid hs, hb]

theorem nextItem_close (h : Blanks w) (r : List UInt8) :
    nextItem first (utf8 w ++ 0x5D :: r) = .ok (.close r) := by
  rw [nextItem, skipSpace_blanks h, skipSpace_solid (by decide)]
  rfl

theorem nextName_gap (h : Gap first g) (r : List UInt8) :
    nextName first (utf8 g ++ 0x22 :: r) = .ok (.item r) := by
  cases h with
  | first hw =>
    rw [nextName, skipSpace_blanks hw, skipSpace_solid (by decide)]
    rfl
  | @later w w' hw hw' =>
    rw [utf8_append, List.append_assoc, utf8_comma, List.cons_append, nextName, skipSpace_blanks hw,
      skipSpace_solid (by decide)]
    have hquote : skipSpace (0x22 :: r) = 0x22 :: r := rfl
    simp [skipSpace_blanks hw', hquote]

theorem nextName_close (h : Blanks w) (r : List UInt8) :
    nextName first (utf8 w ++ 0x7D :: r) = .ok (.close r) := by
  rw [nextName, skipSpace_blanks h, skipSpace_solid (by decide)]
  rfl

theorem colon_blanks (h : Blanks w) (r : List UInt8) : colon (utf8 w ++ 0x3A :: r) = .ok r := by
  rw [colon, skipSpace_blanks h, skipSpace_solid (by decide)]
  rfl

/-- The bytes that a value may begin with. They tell what kind it is of. -/
def Tree.starts : Tree → List UInt8
  | .null => [0x6E]
  | .bool true => [0x74]
  | .bool false => [0x66]
  | .number _ => 0x2D :: digitBytes
  | .string _ => [0x22]
  | .array _ => [0x5B]
  | .object _ => [0x7B]

/-- A number begins as no other value does. -/
theorem number_start : ∀ b ∈ 0x2D :: digitBytes, isSpace b = false ∧ (b == 0x6E) = false ∧
    (b == 0x74) = false ∧ (b == 0x66) = false ∧ (b == 0x2D || isDigitByte b) = true := forall_of_all rfl

theorem written_head (h : Written v t) : ∃ b r, utf8 t = b :: r ∧ b ∈ v.starts := by
  cases h with
  | number hn => exact numeral_head hn
  | _ => exact ⟨_, _, rfl, List.mem_singleton_self _⟩

theorem start_solid (v : Tree) : ∀ b ∈ v.starts, isSpace b = false ∧ b ≠ 0x5D := by
  cases v with
  | bool b => cases b <;> exact forall_of_all rfl
  | _ => exact forall_of_all rfl

theorem written_ne_nil (h : Written v t) : t ≠ [] := by
  rintro rfl
  obtain ⟨b, r, hb, -⟩ := written_head h
  cases hb

theorem items_ne_nil {vs : List Tree} (h : WrittenItems first vs t) : t ≠ [] := by
  cases h with
  | close => simp
  | item _ hv => simp [written_ne_nil hv]

theorem members_ne_nil {ms : List (String × Tree)} (h : WrittenMembers first ms t) : t ≠ [] := by
  cases h <;> simp

theorem nextItem_written (hg : Gap first g) (hv : Written v t) (r : List UInt8) :
    nextItem first (utf8 g ++ (utf8 t ++ r)) = .ok (.item (utf8 t ++ r)) := by
  obtain ⟨b, bs, hb, hs⟩ := written_head hv
  obtain ⟨hs, hc⟩ := start_solid v b hs
  rw [hb]
  exact nextItem_gap hg hs hc _

theorem utf8_string (t : List Char) (rest : List UInt8) :
    utf8 ('"' :: (t ++ ['"'])) ++ rest = 0x22 :: (utf8 t ++ 0x22 :: rest) := by
  have hq : charBytes '"' = [0x22] := rfl
  simp [hq]

theorem utf8_item (g t u : List Char) (rest : List UInt8) :
    utf8 (g ++ (t ++ u)) ++ rest = utf8 g ++ (utf8 t ++ (utf8 u ++ rest)) := by
  simp

theorem utf8_member (g n w w' t u : List Char) (rest : List UInt8) :
    utf8 (g ++ '"' :: (n ++ '"' :: (w ++ ':' :: (w' ++ (t ++ u))))) ++ rest =
      utf8 g ++ 0x22 :: (utf8 n ++ 0x22 :: (utf8 w ++ 0x3A :: (utf8 w' ++ (utf8 t ++ (utf8 u ++ rest))))) := by
  have hq : charBytes '"' = [0x22] := rfl
  have hc : charBytes ':' = [0x3A] := rfl
  simp [hq, hc]

theorem utf8_bracket (w : List Char) (rest : List UInt8) :
    utf8 (w ++ [']']) ++ rest = utf8 w ++ 0x5D :: rest := by
  have hb : charBytes ']' = [0x5D] := rfl
  simp [hb]

theorem utf8_brace (w : List Char) (rest : List UInt8) :
    utf8 (w ++ ['\x7d']) ++ rest = utf8 w ++ 0x7D :: rest := by
  have hb : charBytes '\x7d' = [0x7D] := rfl
  simp [hb]

/-- Fuel for more than a length is there. -/
theorem fuel_succ {n : Nat} (h : n < fuel) : ∃ k, fuel = k + 1 :=
  Nat.exists_eq_add_one.mpr (Nat.zero_lt_of_lt h)

theorem skipValue_blanks (h : Blanks w) (r : List UInt8) :
    skipValue fuel (utf8 w ++ r) = skipValue fuel r := by
  cases fuel with
  | zero => rfl
  | succ fuel => rw [skipValue, skipValue, skipSpace_blanks h]

theorem skipValue_number {b : UInt8} (hb : b ∈ 0x2D :: digitBytes) (r : List UInt8) :
    skipValue (fuel + 1) (b :: r) = (readNumeral .malformed (b :: r)).map (·.2) := by
  obtain ⟨hs, h1, h2, h3, h4⟩ := number_start b hb
  rw [skipValue, skipSpace_solid hs]
  simp only [h1, h2, h3, h4, Bool.false_eq_true, if_false, if_true]

-- The recursion is on how the text is written. Each value and each comma takes a unit of fuel and at least one
-- character, so that what is left of the fuel is enough for what is left of the text.
mutual
theorem skipValue_written {v : Tree} {t : List Char} {fuel : Nat} {rest : List UInt8} :
    Written v t → t.length < fuel → Stops rest → skipValue fuel (utf8 t ++ rest) = .ok rest
  | .null, hf, _ => by
    obtain ⟨fuel, rfl⟩ := fuel_succ hf
    rfl
  | .true, hf, _ => by
    obtain ⟨fuel, rfl⟩ := fuel_succ hf
    rfl
  | .false, hf, _ => by
    obtain ⟨fuel, rfl⟩ := fuel_succ hf
    rfl
  | .number hn, hf, hr => by
    obtain ⟨fuel, rfl⟩ := fuel_succ hf
    obtain ⟨b, r, hb, hs⟩ := numeral_head hn
    have hread := readNumeral_written (e := .malformed) hn hr
    rw [hb, List.cons_append] at hread ⊢
    rw [skipValue_number hs, hread]
    rfl
  | .string hq, hf, _ => by
    obtain ⟨fuel, rfl⟩ := fuel_succ hf
    rw [utf8_string]
    exact skipString_quoted hq rest
  | .array h, hf, _ => by
    obtain ⟨fuel, rfl⟩ := fuel_succ hf
    exact skipItems_written h (Nat.lt_of_succ_lt_succ hf)
  | .object h, hf, _ => by
    obtain ⟨fuel, rfl⟩ := fuel_succ hf
    exact skipMembers_written h (Nat.lt_of_succ_lt_succ hf)

theorem skipItems_written {first : Bool} {vs : List Tree} {t : List Char} {fuel : Nat}
    {rest : List UInt8} :
    WrittenItems first vs t → t.length < fuel → skipItems fuel first (utf8 t ++ rest) = .ok rest
  | .close hw, hf => by
    obtain ⟨fuel, rfl⟩ := fuel_succ hf
    rw [utf8_bracket, skipItems, nextItem_close hw]
    rfl
  | @WrittenItems.item _ g v t vs u hg hv hvs, hf => by
    obtain ⟨fuel, rfl⟩ := fuel_succ hf
    have hpos := List.length_pos_iff.mpr (written_ne_nil hv)
    have hpos₂ := List.length_pos_iff.mpr (items_ne_nil hvs)
    simp only [List.length_append] at hf
    rw [utf8_item, skipItems, nextItem_written hg hv]
    have hskip : skipValue fuel (utf8 t ++ (utf8 u ++ rest)) = .ok (utf8 u ++ rest) :=
      skipValue_written hv (by omega) (stops_items hvs)
    have hrest : skipItems fuel false (utf8 u ++ rest) = .ok rest := skipItems_written hvs (by omega)
    simp only [bind, Except.bind, hskip, hrest]

theorem skipMembers_written {first : Bool} {ms : List (String × Tree)} {t : List Char} {fuel : Nat}
    {rest : List UInt8} :
    WrittenMembers first ms t → t.length < fuel → skipMembers fuel first (utf8 t ++ rest) = .ok rest
  | .close hw, hf => by
    obtain ⟨fuel, rfl⟩ := fuel_succ hf
    rw [utf8_brace, skipMembers, nextName_close hw]
    rfl
  | @WrittenMembers.member _ g name n w w' v t ms u hg hq hw hw' hv hms, hf => by
    obtain ⟨fuel, rfl⟩ := fuel_succ hf
    have hpos := List.length_pos_iff.mpr (members_ne_nil hms)
    simp only [List.length_append, List.length_cons] at hf
    rw [utf8_member, skipMembers, nextName_gap hg]
    have hskip : skipValue fuel (utf8 t ++ (utf8 u ++ rest)) = .ok (utf8 u ++ rest) :=
      skipValue_written hv (by omega) (stops_members hms)
    have hrest : skipMembers fuel false (utf8 u ++ rest) = .ok rest := skipMembers_written hms (by omega)
    simp only [bind, Except.bind, skipString_quoted hq, colon_blanks hw, skipValue_blanks hw', hskip, hrest]
end

mutual
/-- The value that a text says, where its lists and objects stand at most `depth` deep and its numbers are
in range. -/
def Tree.value? (depth : Nat) : Tree → Option Value
  | .null => some .null
  | .bool b => some (.bool b)
  | .number n => n.toNumber?.map .number
  | .string s => some (.string s)
  | .array vs =>
    match depth with
    | 0 => none
    | depth + 1 => (itemValues? depth vs).map .array
  | .object ms =>
    match depth with
    | 0 => none
    | depth + 1 => (memberValues? depth ms).map fun ms => .object (mergeMembers ms)

def itemValues? (depth : Nat) : List Tree → Option (List Value)
  | [] => some []
  | v :: vs => do
    let x ← v.value? depth
    let xs ← itemValues? depth vs
    return x :: xs

def memberValues? (depth : Nat) : List (String × Tree) → Option (List (String × Value))
  | [] => some []
  | (name, v) :: ms => do
    let x ← v.value? depth
    let xs ← memberValues? depth ms
    return (name, x) :: xs
end

theorem toOption_bind {α β : Type} (x : Reading α) (f : α → Reading β) :
    (x >>= f).toOption = x.toOption.bind fun a => (f a).toOption := by
  cases x <;> rfl

theorem toOption_map {α β : Type} (x : Reading α) (f : α → β) : (x.map f).toOption = x.toOption.map f := by
  cases x <;> rfl

theorem ok_iff_toOption {α : Type} {x : Reading α} {a : α} : x = .ok a ↔ x.toOption = some a := by
  cases x with
  | ok b => simp [Except.toOption]
  | error e => simp [Except.toOption]

theorem readValue_blanks (h : Blanks w) (r : List UInt8) :
    readValue fuel depth (utf8 w ++ r) = readValue fuel depth r := by
  cases fuel with
  | zero => rw [readValue, readValue]
  | succ fuel => rw [readValue, readValue, skipSpace_blanks h]

theorem readValue_number {b : UInt8} (hb : b ∈ 0x2D :: digitBytes) (r : List UInt8) :
    readValue (fuel + 1) depth (b :: r) = (readNumber (b :: r)).map fun (n, r) => (.number n, r) := by
  obtain ⟨hs, h1, h2, h3, h4⟩ := number_start b hb
  rw [readValue, skipSpace_solid hs]
  simp only [h1, h2, h3, h4, Bool.false_eq_true, if_false, if_true]

theorem readNumber_written {n : Numeral} (h : NumeralText n t) (hr : Stops rest) :
    (readNumber (utf8 t ++ rest)).toOption = n.toNumber?.map (·, rest) := by
  rw [readNumber, readNumeral_written h hr]
  dsimp only [bind, Except.bind]
  cases n.toNumber? <;> rfl

mutual
theorem readValue_written {v : Tree} {t : List Char} {fuel depth : Nat} {rest : List UInt8} :
    Written v t → t.length < fuel → Stops rest →
      (readValue fuel depth (utf8 t ++ rest)).toOption = (v.value? depth).map (·, rest)
  | .null, hf, _ => by
    obtain ⟨fuel, rfl⟩ := fuel_succ hf
    rfl
  | .true, hf, _ => by
    obtain ⟨fuel, rfl⟩ := fuel_succ hf
    rfl
  | .false, hf, _ => by
    obtain ⟨fuel, rfl⟩ := fuel_succ hf
    rfl
  | .number hn, hf, hr => by
    obtain ⟨fuel, rfl⟩ := fuel_succ hf
    obtain ⟨b, r, hb, hs⟩ := numeral_head hn
    have hread := readNumber_written hn hr
    rw [hb, List.cons_append] at hread ⊢
    rw [readValue_number hs, toOption_map, hread, Tree.value?, Option.map_map, Option.map_map]
    rfl
  | .string hq, hf, _ => by
    obtain ⟨fuel, rfl⟩ := fuel_succ hf
    have hread := readString_quoted hq rest
    have hs (r : List UInt8) : readValue (fuel + 1) depth (0x22 :: r) =
      (readString r).map fun (s, r) => (.string s, r) := rfl
    rw [utf8_string, hs, hread]
    rfl
  | @Written.array vs u h, hf, _ => by
    obtain ⟨fuel, rfl⟩ := fuel_succ hf
    cases depth with
    | zero => rfl
    | succ depth =>
      have hread : (readItems fuel depth true (utf8 u ++ rest)).toOption =
        (itemValues? depth vs).map (·, rest) := readItems_written h (Nat.lt_of_succ_lt_succ hf)
      have ha (r : List UInt8) : readValue (fuel + 1) (depth + 1) (0x5B :: r) =
        (readItems fuel depth true r).map fun (vs, r) => (.array vs, r) := rfl
      have hb : utf8 ('[' :: u) = 0x5B :: utf8 u := rfl
      rw [hb, List.cons_append, ha, toOption_map, hread, Tree.value?, Option.map_map, Option.map_map]
      rfl
  | @Written.object ms u h, hf, _ => by
    obtain ⟨fuel, rfl⟩ := fuel_succ hf
    cases depth with
    | zero => rfl
    | succ depth =>
      have hread : (readMembers fuel depth true (utf8 u ++ rest)).toOption =
        (memberValues? depth ms).map (·, rest) := readMembers_written h (Nat.lt_of_succ_lt_succ hf)
      have ho (r : List UInt8) : readValue (fuel + 1) (depth + 1) (0x7B :: r) =
        (readMembers fuel depth true r).map fun (ms, r) => (.object (mergeMembers ms), r) := rfl
      have hb : utf8 ('\x7b' :: u) = 0x7B :: utf8 u := rfl
      rw [hb, List.cons_append, ho, toOption_map, hread, Tree.value?, Option.map_map, Option.map_map]
      rfl

theorem readItems_written {first : Bool} {vs : List Tree} {t : List Char} {fuel depth : Nat}
    {rest : List UInt8} :
    WrittenItems first vs t → t.length < fuel →
      (readItems fuel depth first (utf8 t ++ rest)).toOption = (itemValues? depth vs).map (·, rest)
  | .close hw, hf => by
    obtain ⟨fuel, rfl⟩ := fuel_succ hf
    rw [utf8_bracket, readItems, nextItem_close hw]
    rfl
  | @WrittenItems.item _ g v t vs u hg hv hvs, hf => by
    obtain ⟨fuel, rfl⟩ := fuel_succ hf
    have hpos := List.length_pos_iff.mpr (written_ne_nil hv)
    have hpos₂ := List.length_pos_iff.mpr (items_ne_nil hvs)
    simp only [List.length_append] at hf
    rw [utf8_item, readItems, nextItem_written hg hv]
    have hread : (readValue fuel depth (utf8 t ++ (utf8 u ++ rest))).toOption =
      (v.value? depth).map (·, utf8 u ++ rest) := readValue_written hv (by omega) (stops_items hvs)
    have hrest : (readItems fuel depth false (utf8 u ++ rest)).toOption =
      (itemValues? depth vs).map (·, rest) := readItems_written hvs (by omega)
    change (readValue fuel depth _ >>= fun p => readItems fuel depth false p.2 >>= fun q =>
      pure (p.1 :: q.1, q.2)).toOption = _
    rw [toOption_bind, hread, itemValues?]
    cases v.value? depth with
    | none => rfl
    | some x =>
      simp only [Option.map_some, Option.bind_some, toOption_bind, hrest]
      cases itemValues? depth vs <;> rfl

theorem readMembers_written {first : Bool} {ms : List (String × Tree)} {t : List Char} {fuel depth : Nat}
    {rest : List UInt8} :
    WrittenMembers first ms t → t.length < fuel →
      (readMembers fuel depth first (utf8 t ++ rest)).toOption = (memberValues? depth ms).map (·, rest)
  | .close hw, hf => by
    obtain ⟨fuel, rfl⟩ := fuel_succ hf
    rw [utf8_brace, readMembers, nextName_close hw]
    rfl
  | @WrittenMembers.member _ g name n w w' v t ms u hg hq hw hw' hv hms, hf => by
    obtain ⟨fuel, rfl⟩ := fuel_succ hf
    have hpos₂ := List.length_pos_iff.mpr (members_ne_nil hms)
    simp only [List.length_append, List.length_cons] at hf
    rw [utf8_member, readMembers, nextName_gap hg]
    have hread : (readValue fuel depth (utf8 t ++ (utf8 u ++ rest))).toOption =
      (v.value? depth).map (·, utf8 u ++ rest) := readValue_written hv (by omega) (stops_members hms)
    have hrest : (readMembers fuel depth false (utf8 u ++ rest)).toOption =
      (memberValues? depth ms).map (·, rest) := readMembers_written hms (by omega)
    simp only [bind, Except.bind, readString_quoted hq, colon_blanks hw, readValue_blanks hw']
    change (readValue fuel depth _ >>= fun p => readMembers fuel depth false p.2 >>= fun q =>
      pure ((name, p.1) :: q.1, q.2)).toOption = _
    rw [toOption_bind, hread, memberValues?]
    cases v.value? depth with
    | none => rfl
    | some x =>
      simp only [Option.map_some, Option.bind_some, toOption_bind, hrest]
      cases memberValues? depth ms <;> rfl
end

/-- Behind the value of a whole text only blanks come. -/
theorem readAll_blanks {α : Type} {reader : List UInt8 → Reading (Piece α)} {text : List UInt8}
    {o : Option α} (hw : Blanks w) (h : (reader text).toOption = o.map (·, utf8 w)) :
    (readAll reader text).toOption = o := by
  have hend := skipSpace_blanks hw []
  rw [List.append_nil] at hend
  rw [readAll, toOption_bind, h]
  cases o with
  | none => rfl
  | some a =>
    simp only [Option.map_some, Option.bind_some, hend]
    rfl

/-- A well-formed text is read as the value that it says. -/
theorem parse_wellFormed (h : WellFormed v t) :
    (Value.parse (utf8 t)).toOption = v.value? depthLimit := by
  cases h with
  | @mk w t w' hw hv hw' =>
    refine readAll_blanks hw' ?_
    have hlen := length_le_utf8 (w ++ (t ++ w'))
    simp only [List.length_append, utf8_append] at hlen ⊢
    rw [readValue_blanks hw]
    exact readValue_written hv (by omega) (stops_of_blanks hw')

end LogDesk.Json
