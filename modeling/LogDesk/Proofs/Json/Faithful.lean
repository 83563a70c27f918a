import LogDesk.Proofs.Json.Members
import LogDesk.Proofs.Json.Printed

/-! A value that was read is printed as a text that is read as the same value, if its numbers are integers:
`parse_print`. What is read keeps within the limits of the reader, `Fits`, and each name stands once in an object,
so that the printed members are merged no more. -/

namespace LogDesk.Json

open Text

variable {v : Value} {depth fuel : Nat} {bs r : List UInt8} {l : Layout}

/-- Lists and objects stand at most `depth` deep, a name stands once in an object, and integers have 64 bits. -/
inductive Fits : Nat → Value → Prop
  | null {d} : Fits d .null
  | bool {d} (b : Bool) : Fits d (.bool b)
  | int {d} {n : Int} : -(2 ^ 63 : Nat) ≤ n → n < UInt64.size → Fits d (.number (.int n))
  | double {d} (bits : UInt64) : Fits d (.number (.double bits))
  | string {d} (s : String) : Fits d (.string s)
  | array {d} {vs : List Value} : (∀ v ∈ vs, Fits d v) → Fits (d + 1) (.array vs)
  | object {d} {ms : List (String × Value)} : (ms.map (·.1)).Nodup → (∀ m ∈ ms, Fits d m.2) →
      Fits (d + 1) (.object ms)

theorem toNumber?_fits {n : Numeral} {x : Number} (h : n.toNumber? = some x) : Fits depth (.number x) := by
  unfold Numeral.toNumber? at h
  simp only [Bool.and_eq_true, decide_eq_true_eq] at h
  split_ifs at h with hpos hneg
  · obtain rfl := Option.some.inj h
    exact .int (by omega) (by exact_mod_cast hpos.2)
  · obtain rfl := Option.some.inj h
    have hle : natOfDigits n.whole ≤ 2 ^ 63 := hneg.2
    exact .int (by omega) (by omega)
  · obtain ⟨f, -, rfl⟩ := Option.map_eq_some_iff.mp h
    exact .double _

theorem map_ok {α β : Type} {x : Reading α} {f : α → β} {b : β} (h : x.map f = .ok b) :
    ∃ a, x = .ok a ∧ f a = b := by
  cases x with
  | ok a => exact ⟨a, rfl, Except.ok.inj h⟩
  | error e => cases h

theorem bind_ok {α β : Type} {x : Reading α} {f : α → Reading β} {b : β} (h : x >>= f = .ok b) :
    ∃ a, x = .ok a ∧ f a = .ok b := by
  cases x with
  | ok a => exact ⟨a, rfl, h⟩
  | error e => cases h

theorem readNumber_fits {x : Number} (h : readNumber bs = .ok (x, r)) : Fits depth (.number x) := by
  obtain ⟨⟨n, r'⟩, -, h⟩ := bind_ok h
  cases hn : n.toNumber? with
  | none => simp [hn] at h
  | some y =>
    simp only [hn] at h
    obtain ⟨rfl, -⟩ := Prod.mk.inj (Except.ok.inj h)
    exact toNumber?_fits hn

mutual
theorem readValue_fits : ∀ {fuel depth : Nat} {bs r : List UInt8} {v : Value},
    readValue fuel depth bs = .ok (v, r) → Fits depth v
  | 0, _, _, _, _, h => by cases h
  | fuel + 1, depth, bs, r, v, h => by
    rw [readValue] at h
    split at h
    · cases h
    · split_ifs at h
      · obtain ⟨_, -, he⟩ := map_ok h
        cases he
        exact .null
      · obtain ⟨_, -, he⟩ := map_ok h
        cases he
        exact .bool true
      · obtain ⟨_, -, he⟩ := map_ok h
        cases he
        exact .bool false
      · obtain ⟨_, hn, he⟩ := map_ok h
        cases he
        exact readNumber_fits hn
      · obtain ⟨⟨s, _⟩, -, he⟩ := map_ok h
        cases he
        exact .string s
      · cases depth with
        | zero => cases h
        | succ depth =>
          obtain ⟨_, hvs, he⟩ := map_ok h
          cases he
          exact .array (readItems_fits hvs)
      · cases depth with
        | zero => cases h
        | succ depth =>
          obtain ⟨⟨ms, _⟩, hms, he⟩ := map_ok h
          cases he
          obtain ⟨hnodup, hmem⟩ := nodup_mergeMembers ms
          exact .object hnodup fun m hm => readMembers_fits hms m (hmem m hm)

theorem readItems_fits : ∀ {fuel depth : Nat} {first : Bool} {bs r : List UInt8} {vs : List Value},
    readItems fuel depth first bs = .ok (vs, r) → ∀ v ∈ vs, Fits depth v
  | 0, _, _, _, _, _, h => by cases h
  | fuel + 1, depth, first, bs, r, vs, h => by
    obtain ⟨next, -, h⟩ := bind_ok h
    cases next with
    | close =>
      cases h
      exact fun _ hv => nomatch hv
    | item r =>
      obtain ⟨⟨v, _⟩, hv, h⟩ := bind_ok h
      obtain ⟨⟨vs, _⟩, hvs, h⟩ := bind_ok h
      cases h
      exact List.forall_mem_cons.mpr ⟨readValue_fits hv, readItems_fits hvs⟩

theorem readMembers_fits : ∀ {fuel depth : Nat} {first : Bool} {bs r : List UInt8} {ms : List (String × Value)},
    readMembers fuel depth first bs = .ok (ms, r) → ∀ m ∈ ms, Fits depth m.2
  | 0, _, _, _, _, _, h => by cases h
  | fuel + 1, depth, first, bs, r, ms, h => by
    obtain ⟨next, -, h⟩ := bind_ok h
    cases next with
    | close =>
      cases h
      exact fun _ hm => nomatch hm
    | item r =>
      obtain ⟨_, -, h⟩ := bind_ok h
      obtain ⟨_, -, h⟩ := bind_ok h
      obtain ⟨⟨v, _⟩, hv, h⟩ := bind_ok h
      obtain ⟨⟨ms, _⟩, hms, h⟩ := bind_ok h
      cases h
      exact List.forall_mem_cons.mpr ⟨readValue_fits hv, readMembers_fits hms⟩
end

theorem parse_fits (h : Value.parse bs = .ok v) : Fits depthLimit v := by
  obtain ⟨⟨v', r⟩, hread, h⟩ := bind_ok h
  dsimp only at h
  split_ifs at h
  cases h
  exact readValue_fits hread

inductive Integral : Value → Prop
  | null : Integral .null
  | bool (b : Bool) : Integral (.bool b)
  | int (n : Int) : Integral (.number (.int n))
  | string (s : String) : Integral (.string s)
  | array {vs : List Value} : (∀ v ∈ vs, Integral v) → Integral (.array vs)
  | object {ms : List (String × Value)} : (∀ m ∈ ms, Integral m.2) → Integral (.object ms)

theorem items_said {vs : List Value} (h : ∀ v ∈ vs, ∃ j, Prints l j v ∧ j.value? depth = some v) :
    ∃ js, List.Forall₂ (Prints l) js vs ∧ itemValues? depth js = some vs := by
  induction vs with
  | nil => exact ⟨[], .nil, rfl⟩
  | cons v vs ih =>
    obtain ⟨⟨j, hp, hj⟩, h⟩ := List.forall_mem_cons.mp h
    obtain ⟨js, hps, hjs⟩ := ih h
    exact ⟨j :: js, .cons hp hps, by rw [itemValues?, hj, hjs]; rfl⟩

theorem members_said {ms : List (String × Value)}
    (h : ∀ m ∈ ms, ∃ j, Prints l j m.2 ∧ j.value? depth = some m.2) :
    ∃ js, List.Forall₂ (Prints.Member l) js ms ∧ memberValues? depth js = some ms := by
  induction ms with
  | nil => exact ⟨[], .nil, rfl⟩
  | cons m ms ih =>
    obtain ⟨⟨j, hp, hj⟩, h⟩ := List.forall_mem_cons.mp h
    obtain ⟨js, hps, hjs⟩ := ih h
    exact ⟨(m.1, j) :: js, .cons (.mk m.1 hp) hps, by rw [memberValues?, hj, hjs]; rfl⟩

/-- What is printed of a value within the limits says this value. -/
theorem Fits.said (h : Fits depth v) (hi : Integral v) (hl : l.IsBlank) :
    ∃ j, Prints l j v ∧ j.value? depth = some v := by
  induction h with
  | null => exact ⟨_, .null, rfl⟩
  | bool b => exact ⟨_, .bool b, rfl⟩
  | @int _ n hlow hhigh =>
    refine ⟨_, .int n, ?_⟩
    rw [Tree.value?, toNumber?_ofInt hlow hhigh]
    rfl
  | double => cases hi
  | string s => exact ⟨_, .string s, rfl⟩
  | array _ ih =>
    cases hi with
    | array hi =>
      obtain ⟨js, hp, hjs⟩ := items_said fun v hv => ih v hv (hi v hv)
      exact ⟨.array js, .array hl hp, by rw [Tree.value?, hjs]; rfl⟩
  | object hnodup _ ih =>
    cases hi with
    | object hi =>
      obtain ⟨js, hp, hjs⟩ := members_said fun m hm => ih m hm (hi m hm)
      refine ⟨.object js, .object hl hp, ?_⟩
      -- The names are those of merged members, so merging them again changes nothing.
      rw [Tree.value?, hjs, Option.map_some, mergeMembers_nodup hnodup]

/-- A value within the limits, its numbers integers, is read of what is printed of it. -/
theorem Fits.parse_print (h : Fits depthLimit v) (hi : Integral v) (hl : l.IsBlank) :
    Value.parse (utf8 (v.print l 0)) = .ok v := by
  obtain ⟨j, hp, hj⟩ := h.said hi hl
  rw [ok_iff_toOption, parse_wellFormed hp.wellFormed, hj]

/-- A value that was read, its numbers integers, is read again of what is printed of it. -/
theorem parse_print (h : Value.parse bs = .ok v) (hi : Integral v) (hl : l.IsBlank) :
    Value.parse (utf8 (v.print l 0)) = .ok v :=
  (parse_fits h).parse_print hi hl

end LogDesk.Json
