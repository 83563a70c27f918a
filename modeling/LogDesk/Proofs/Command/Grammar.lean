import LogDesk.Proofs.Command
import LogDesk.Proofs.Text.Decimal
import LogDesk.Proofs.Uuid

/-! The language of commands: which lines mean the same, what events there are lines for, and how each of
them is typed. -/

namespace LogDesk

open Text (IsWord Spells Numeral)

namespace Event

def Typed : Event → Prop
  | submitEntry form => ∃ (level : List Char) (ws : List (List Char)) (exception : Bool),
      form = .entry (String.ofList level) (String.ofList (Text.unwords ws)) exception ∧
        IsWord level ∧ (∀ c ∈ level, ¬('a' ≤ c ∧ c ≤ 'z')) ∧
        ws ≠ [] ∧ (∀ w ∈ ws, IsWord w) ∧ (exception = false → ws.head? ≠ some "--exception".toList)
  | stopJob id => IsWord id.toList
  | expandRow pos | collapseRow pos => pos < UInt64.size
  | _ => True

end Event

namespace Command

theorem toUpper_cases (c : Char) : c.toUpper = c ∧ ¬('a' ≤ c ∧ c ≤ 'z') ∨
    65 ≤ c.toUpper.toNat ∧ c.toUpper.toNat ≤ 90 := by
  unfold Char.toUpper
  split
  next h =>
    have h1 : 97 ≤ c.val.toNat := UInt32.le_iff_toNat_le.mp h.1
    have h2 : c.val.toNat ≤ 122 := UInt32.le_iff_toNat_le.mp h.2
    have hs : (c.val + ('A'.val - 'a'.val)).toNat = c.val.toNat - 32 := by
      have hd : ('A'.val - 'a'.val).toNat = 2 ^ 32 - 32 := by decide
      rw [UInt32.toNat_add, hd]
      omega
    right
    change 65 ≤ (c.val + ('A'.val - 'a'.val)).toNat ∧ (c.val + ('A'.val - 'a'.val)).toNat ≤ 90
    omega
  next h => exact .inl ⟨rfl, h⟩

theorem toUpper_lower (c : Char) : ¬('a' ≤ c.toUpper ∧ c.toUpper ≤ 'z') := by
  intro h
  rcases toUpper_cases c with ⟨hc, hl⟩ | hc
  · exact hl (hc ▸ h)
  · have hn : 97 ≤ c.toUpper.toNat := UInt32.le_iff_toNat_le.mp h.1
    omega

theorem toUpper_of_not_lower {c : Char} (h : ¬('a' ≤ c ∧ c ≤ 'z')) : c.toUpper = c := dif_neg h

theorem isBlank_toUpper {c : Char} (h : Text.isBlank c = false) : Text.isBlank c.toUpper = false := by
  rcases toUpper_cases c with ⟨hc, -⟩ | hc
  · rw [hc, h]
  · simp [Text.isBlank]
    omega

theorem isWord_toUpper {w : List Char} (h : IsWord w) : IsWord (w.map Char.toUpper) := by
  refine ⟨by simpa using h.1, fun c hc => ?_⟩
  obtain ⟨d, hd, rfl⟩ := List.mem_map.mp hc
  exact isBlank_toUpper (h.2 d hd)

/-- The commands that do not read the words behind the one they need, or behind their name. -/
def needed (name : List Char) : Nat :=
  if name ∈ ["stop", "auto", "interval", "expand", "collapse", "dismiss"].map String.toList then 1 else 0

/-- One word is all that any command reads but `log`. -/
theorem ofWords_take {name : List Char} (h : name ≠ "log".toList) (ws : List (List Char)) :
    ofWords (name :: ws.take (needed name)) = ofWords (name :: ws) := by
  have first {text : String} (hn : String.ofList name = text) (ht : needed text.toList = 1) :
      ∀ usage, required usage (ws.take (needed name)) = required usage ws := by
    intro usage
    rw [← hn, String.toList_ofList] at ht
    rw [ht]
    cases ws <;> rfl
  unfold ofWords
  dsimp only
  split
  -- Only the commands that read further words are left.
  all_goals try rfl
  next hn => rw [first hn rfl]
  next hn => exact absurd (by rw [← hn, String.toList_ofList]) h
  next hn => rw [autoRefresh, autoRefresh, first hn rfl]
  next hn => rw [number, number, first hn rfl]
  next hn => rw [number, number, first hn rfl]
  next hn => rw [number, number, first hn rfl]
  next hn => rw [dismissal, dismissal, first hn rfl]

theorem number_eq (usage : Usage) (bound : Nat) (w : List Char) (ws : List (List Char)) :
    number usage bound (w :: ws) =
      (Text.numeralBelow? bound w).elim (.error (.notNumber w usage)) .ok := by
  unfold number
  simp only [required, Except.bind, bind]
  cases Text.numeralBelow? bound w <;> rfl

theorem number_ok {usage : Usage} {bound n : Nat} {ws : List (List Char)}
    (h : number usage bound ws = .ok n) : n < bound := by
  cases ws with
  | nil => cases h
  | cons w ws =>
    rw [number_eq] at h
    cases hn : Text.numeralBelow? bound w with
    | none =>
      rw [hn] at h
      cases h
    | some m =>
      rw [hn] at h
      cases h
      exact (Text.numeralBelow?_iff.mp hn).2

theorem logEntry_typed {ws : List (List Char)} {e : Event} (hws : ∀ w ∈ ws, IsWord w)
    (h : logEntry ws = .ok e) : e.Typed := by
  cases ws with
  | nil => cases h
  | cons level rest =>
    unfold logEntry at h
    dsimp -zeta only at h
    extract_lets exception message at h
    split at h
    · cases h
    next hm =>
      cases h
      refine ⟨level.map Char.toUpper, message, _, rfl, isWord_toUpper (hws level List.mem_cons_self),
        ?_, ?_, ?_, ?_⟩
      · intro c hc
        obtain ⟨d, -, rfl⟩ := List.mem_map.mp hc
        exact toUpper_lower d
      · simpa using hm
      · intro w hw
        have hmem : w ∈ rest := by
          dsimp only [message] at hw
          split at hw
          · exact List.mem_of_mem_drop hw
          · exact hw
        exact hws w (List.mem_cons_of_mem level hmem)
      · intro hx
        have hne : ¬exception := by simpa using hx
        dsimp only [message]
        rw [if_neg hne]
        exact hne

theorem ofWords_typed {ws : List (List Char)} {e : Event} (hws : ∀ w ∈ ws, IsWord w)
    (h : ofWords ws = .ok (.event e)) : e.Typed := by
  cases ws with
  | nil => cases h
  | cons name rest =>
    have hrest : ∀ w ∈ rest, IsWord w := fun w hw => hws w (List.mem_cons_of_mem name hw)
    unfold ofWords at h
    dsimp only at h
    split at h
    -- Only the commands that read further words are left.
    all_goals try (cases h; try trivial)
    next =>
      obtain ⟨w, hw, he⟩ := map_ok h
      cases he
      have hword := hrest w (required_ok hw)
      rwa [← String.toList_ofList (l := w)] at hword
    next =>
      obtain ⟨e, he, hc⟩ := map_ok h
      cases hc
      exact logEntry_typed hrest he
    next =>
      obtain ⟨e, he, hc⟩ := map_ok h
      obtain ⟨on, rfl⟩ := autoRefresh_ok he
      cases hc
      trivial
    next =>
      obtain ⟨seconds, -, hc⟩ := map_ok h
      cases hc
      trivial
    next =>
      obtain ⟨pos, hn, hc⟩ := map_ok h
      cases hc
      exact number_ok hn
    next =>
      obtain ⟨pos, hn, hc⟩ := map_ok h
      cases hc
      exact number_ok hn
    next =>
      obtain ⟨e, he, hc⟩ := map_ok h
      obtain ⟨toast, rfl⟩ := dismissal_ok he
      cases hc
      trivial

/-- The words of an event, each by itself. -/
theorem print_words {e : Event} {ws : List (List Char)} (hws : ∀ w ∈ ws, IsWord w)
    (h : e.print = Text.unwords ws) : parse e.print = ofWords ws := by
  rw [parse, h, Text.words_unwords hws]

theorem isWord_digits (n : Nat) : IsWord (Text.digits n) :=
  ⟨Text.digits_ne_nil n, fun _ hc => Text.isBlank_of_isDigit (Text.isDigit_of_mem_digits hc)⟩

theorem number_digits (usage : Usage) {bound n : Nat} (h : n < bound) (ws : List (List Char)) :
    number usage bound (Text.digits n :: ws) = .ok n := by
  rw [number_eq, Text.numeralBelow?_iff.mpr ⟨Text.numeral?_iff.mp (Text.numeral?_digits n), h⟩]
  rfl

/-- The commands that read a number: how each is used, below what bound the number has to be, and what
event comes of it. -/
inductive Counts : (name : List Char) → Usage → (bound : Nat) → (Nat → Event) → Prop where
  | interval : Counts "interval".toList .interval (2 ^ 32) fun n => .setInterval (UInt32.ofNat n)
  | expand : Counts "expand".toList .expand (2 ^ 64) .expandRow
  | collapse : Counts "collapse".toList .collapse (2 ^ 64) .collapseRow

theorem ofWords_counts {name : List Char} {usage : Usage} {bound : Nat} {make : Nat → Event}
    (h : Counts name usage bound make) (ws : List (List Char)) :
    ofWords (name :: ws) = (number usage bound ws).map fun n => .event (make n) := by
  cases h <;> rfl

theorem parse_counts {name : List Char} {usage : Usage} {bound : Nat} {make : Nat → Event}
    (h : Counts name usage bound make) {n : Nat} (hn : n < bound) :
    parse (make n).print = .ok (.event (make n)) := by
  have hw : (make n).words = [name, Text.digits n] := by
    cases h with
    | interval => simp [Event.words, UInt32.toNat_ofNat_of_lt' hn]
    | expand | collapse => rfl
  have hname : IsWord name := by
    cases h <;> decide
  have hwords : ∀ w ∈ [name, Text.digits n], IsWord w := by
    simpa using ⟨hname, isWord_digits n⟩
  rw [print_words hwords (congrArg Text.unwords hw), ofWords_counts h, number_digits usage hn]
  rfl

theorem dismissal_print (id : Uuid) : dismissal [id.print] = .ok (.dismissToast id) := by
  unfold dismissal
  simp only [required, Except.bind, bind, id.parse?_print]
  rfl

theorem ofWords_dismiss (ws : List (List Char)) :
    ofWords ("dismiss".toList :: ws) = (dismissal ws).map .event := rfl

def exceptionFlag (exception : Bool) : List (List Char) :=
  if exception then ["--exception".toList] else []

theorem entry_print (level : List Char) {ws : List (List Char)} (exception : Bool) (h : ws ≠ []) :
    (Event.submitEntry (.entry (String.ofList level) (String.ofList (Text.unwords ws)) exception)).print =
      Text.unwords ("log".toList :: level :: (exceptionFlag exception ++ ws)) := by
  have hw : (Event.submitEntry
      (.entry (String.ofList level) (String.ofList (Text.unwords ws)) exception)).words =
      ("log".toList :: level :: exceptionFlag exception) ++ [Text.unwords ws] := by
    cases exception
    all_goals
      simp [Event.words, Event.fieldText, EntryForm.entry, EntryForm.add, List.lookup_cons, exceptionFlag]
  rw [Event.print, hw, Text.unwords_append _ h]
  rfl

theorem logEntry_flag {level : List Char} {ws : List (List Char)} {exception : Bool}
    (hl : ∀ c ∈ level, ¬('a' ≤ c ∧ c ≤ 'z')) (h : ws ≠ [])
    (hx : exception = false → ws.head? ≠ some "--exception".toList) :
    logEntry (level :: (exceptionFlag exception ++ ws)) = .ok (.submitEntry
      (.entry (String.ofList level) (String.ofList (Text.unwords ws)) exception)) := by
  have hup : level.map Char.toUpper = level :=
    (List.map_congr_left fun c hc => toUpper_of_not_lower (hl c hc)).trans level.map_id
  have hsome : ws.isEmpty ≠ true := by simpa using h
  cases exception with
  | true => simp [logEntry, exceptionFlag, hup, h]
  | false =>
    have hno : ¬ws.head? = some "--exception".toList := hx rfl
    change logEntry (level :: ws) = _
    unfold logEntry
    dsimp only
    rw [if_neg hno, if_neg hsome, decide_eq_false hno, hup]

theorem parse_print {e : Event} (h : e.Typed) : parse e.print = .ok (.event e) := by
  cases e with
  | submitEntry form =>
    obtain ⟨level, ws, exception, rfl, hlevel, hl, hne, hws, hx⟩ := h
    have hflag : ∀ w ∈ exceptionFlag exception, IsWord w := by
      cases exception <;> decide
    have hw : ∀ w ∈ "log".toList :: level :: (exceptionFlag exception ++ ws), IsWord w :=
      List.forall_mem_cons.mpr ⟨by decide, List.forall_mem_cons.mpr
        ⟨hlevel, List.forall_mem_append.mpr ⟨hflag, hws⟩⟩⟩
    rw [print_words hw (entry_print level exception hne)]
    change (logEntry (level :: (exceptionFlag exception ++ ws))).map _ = _
    rw [logEntry_flag hl hne hx]
    rfl
  | stopJob id =>
    have hw : ∀ w ∈ (Event.stopJob id).words, IsWord w := by
      simpa [Event.words] using ⟨by decide, h⟩
    rw [print_words hw rfl]
    change Except.ok (Command.event (.stopJob (String.ofList id.toList))) = _
    rw [String.ofList_toList]
  | setAutoRefresh on => cases on <;> rfl
  | setInterval seconds => simpa using parse_counts .interval seconds.toNat_lt
  | expandRow pos => exact parse_counts .expand h
  | collapseRow pos => exact parse_counts .collapse h
  | dismissToast id =>
    have hw : ∀ w ∈ (Event.dismissToast id).words, IsWord w := by
      simpa [Event.words] using ⟨by decide, id.isWord_print⟩
    rw [print_words hw rfl, Event.words, ofWords_dismiss, dismissal_print]
    rfl
  | _ => rfl

structure Language : Prop where
  spelled : ∀ line, ∃! ws, Spells line ws
  /-- Nothing counts but the words. -/
  words : ∀ line line' ws, Spells line ws → Spells line' ws → parse line = parse line'
  /-- But for `log`, no words count behind those that are needed. -/
  spare : ∀ line line' name ws ws', Spells line (name :: ws) → Spells line' (name :: ws') →
    name ≠ "log".toList → ws.take (needed name) = ws'.take (needed name) → parse line = parse line'
  print : ∀ line e, parse line = .ok (.event e) → parse e.print = .ok (.event e)
  typed : ∀ e, (∃ line, parse line = .ok (.event e)) ↔ e.Typed
  /-- A word is read as the number that it is in writing, and as none if there is none below the bound. -/
  numbers : ∀ line name usage bound make w ws, Counts name usage bound make → Spells line (name :: w :: ws) →
    (∀ n < bound, Numeral w n → parse line = .ok (.event (make n))) ∧
      ((∀ n < bound, ¬Numeral w n) → parse line = .error (.notNumber w usage))

theorem parse_spelled {line : List Char} {ws : List (List Char)} (h : Spells line ws) :
    parse line = ofWords ws := by
  rw [parse, Text.spells_iff.mp h]

theorem parse_typed {line : List Char} {e : Event} (h : parse line = .ok (.event e)) : e.Typed :=
  ofWords_typed (fun _ => Text.isWord_of_mem_words) h

theorem language : Language where
  spelled line := ⟨_, Text.spells_words line, fun _ h => (Text.spells_iff.mp h).symm⟩
  words line line' ws h h' := by rw [parse_spelled h, parse_spelled h']
  spare line line' name ws ws' h h' hlog htake := by
    rw [parse_spelled h, parse_spelled h', ← ofWords_take hlog ws, htake, ofWords_take hlog ws']
  print line e h := parse_print (parse_typed h)
  typed e := by
    constructor
    · rintro ⟨line, h⟩
      exact parse_typed h
    · intro h
      exact ⟨e.print, parse_print h⟩
  numbers line name usage bound make w ws hc h := by
    rw [parse_spelled h, ofWords_counts hc, number_eq]
    constructor
    · intro n hn hw
      rw [Text.numeralBelow?_iff.mpr ⟨hw, hn⟩]
      rfl
    · intro hno
      have hnone : Text.numeralBelow? bound w = none := by
        by_contra hne
        obtain ⟨n, hs⟩ := Option.ne_none_iff_exists'.mp hne
        obtain ⟨hw, hn⟩ := Text.numeralBelow?_iff.mp hs
        exact hno n hn hw
      rw [hnone]
      rfl

/-- A line with blanks of several kinds, a level in small letters, and a flag. -/
theorem language_log :
    let e : Event := .submitEntry (.entry "WARN" "disk --exception full" true)
    parse "\u2003log\twarn  --exception disk\u00A0--exception full ".toList = .ok (.event e) ∧
      e.print = "log WARN --exception disk --exception full".toList ∧
      parse e.print = .ok (.event e) ∧ e.Typed := by
  intro e
  have h : parse "\u2003log\twarn  --exception disk\u00A0--exception full ".toList = .ok (.event e) := by
    decide +kernel
  exact ⟨h, by decide +kernel, language.print _ e h, (language.typed e).mp ⟨_, h⟩⟩

end Command

end LogDesk
