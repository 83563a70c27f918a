import LogDesk.Proofs.Command
import LogDesk.Proofs.Text.Utf8
import LogDesk.Proofs.Text.Words
import LogDesk.Script

/-! A script is read one line after another. A line puts its own event, if it means one, in front of the
events behind it, and where it is not UTF-8 there are none behind it (`events_line`). So scripts of whole
lines can be put one behind the other, and a line that means no event can be left out. -/

namespace LogDesk.Script

open LogDesk.Text (IsUtf8 isBlank utf8)

/-- Bytes are one last line, or a first line, a line feed, and more of them. -/
@[elab_as_elim]
theorem lines_induction {motive : List UInt8 → Prop} (last : ∀ line, 0x0A ∉ line → motive line)
    (line : ∀ line rest, 0x0A ∉ line → motive rest → motive (line ++ 0x0A :: rest)) (bytes : List UInt8) :
    motive bytes := by
  induction hn : bytes.length using Nat.strongRecOn generalizing bytes with
  | ind n ih =>
    by_cases h : 0x0A ∈ bytes
    · obtain ⟨front, rest, rfl, hf⟩ := List.eq_append_cons_of_mem h
      apply line front rest hf
      refine ih rest.length ?_ rest rfl
      rw [← hn, List.length_append, List.length_cons]
      omega
    · exact last bytes h

theorem splitLines_last {line : List UInt8} (h : 0x0A ∉ line) : splitLines line = [line] := by
  induction line with
  | nil => rfl
  | cons b line ih =>
    obtain ⟨hb, hl⟩ := not_or.mp (List.mem_cons.not.mp h)
    have hne : (b == 0x0A) = false := beq_eq_false_iff_ne.mpr (Ne.symm hb)
    rw [splitLines, hne, ih hl]
    rfl

theorem splitLines_line {line : List UInt8} (h : 0x0A ∉ line) (rest : List UInt8) :
    splitLines (line ++ 0x0A :: rest) = line :: splitLines rest := by
  induction line with
  | nil => rfl
  | cons b line ih =>
    obtain ⟨hb, hl⟩ := not_or.mp (List.mem_cons.not.mp h)
    have hne : (b == 0x0A) = false := beq_eq_false_iff_ne.mpr (Ne.symm hb)
    rw [List.cons_append, splitLines, hne, ih hl]
    rfl

def heard (line : List UInt8) (later : List Event) : List Event :=
  match Text.ofUtf8? line with
  | some cs => (event? (Command.parse cs)).toList ++ later
  | none => []

theorem heard_utf8 (cs : List Char) (later : List Event) :
    heard (utf8 cs) later = (event? (Command.parse cs)).toList ++ later := by
  rw [heard, Text.ofUtf8?_utf8]

theorem heard_broken {line : List UInt8} (h : ¬ IsUtf8 line) (later : List Event) : heard line later = [] := by
  rw [heard, Text.ofUtf8?_eq_none_iff.mpr h]

theorem events_lines (line : List UInt8) (rest : List (List UInt8)) :
    ((readable (line :: rest)).map Command.parse).filterMap event? =
      heard line (((readable rest).map Command.parse).filterMap event?) := by
  rw [readable, heard]
  cases Text.ofUtf8? line with
  | none => rfl
  | some cs => cases h : event? (Command.parse cs) <;> simp [h]

theorem events_last {line : List UInt8} (h : 0x0A ∉ line) : events line = heard line [] := by
  rw [events, commands, splitLines_last h, events_lines]
  rfl

theorem events_line {line : List UInt8} (h : 0x0A ∉ line) (rest : List UInt8) :
    events (line ++ 0x0A :: rest) = heard line (events rest) := by
  rw [events, commands, splitLines_line h, events_lines]
  rfl

theorem events_nil : events [] = [] := rfl

/-- No bytes, or bytes with a line feed at their end. -/
def Whole (bytes : List UInt8) : Prop := bytes = [] ∨ bytes.getLast? = some 0x0A

theorem Whole.last {line : List UInt8} (h : Whole line) (hl : 0x0A ∉ line) : line = [] := by
  rcases h with h | h
  · exact h
  · exact absurd (List.mem_of_getLast? h) hl

theorem Whole.rest {line rest : List UInt8} (h : Whole (line ++ 0x0A :: rest)) : Whole rest := by
  cases rest with
  | nil => exact .inl rfl
  | cons b rest =>
    rcases h with h | h
    · simp at h
    · right
      simpa using h

def withReturns (bytes : List UInt8) : List UInt8 :=
  bytes.flatMap fun b => if b = 0x0A then [0x0D, 0x0A] else [b]

theorem withReturns_last {line : List UInt8} (h : 0x0A ∉ line) : withReturns line = line := by
  have hb : ∀ b ∈ line, (if b = 0x0A then [0x0D, 0x0A] else [b]) = [b] := by
    intro b hb
    rw [if_neg]
    rintro rfl
    exact h hb
  rw [withReturns, List.flatMap_congr hb]
  exact List.flatMap_singleton' line

theorem withReturns_line {line : List UInt8} (h : 0x0A ∉ line) (rest : List UInt8) :
    withReturns (line ++ 0x0A :: rest) = (line ++ [0x0D]) ++ 0x0A :: withReturns rest := by
  have hl := withReturns_last h
  unfold withReturns at hl ⊢
  rw [List.flatMap_append, hl, List.flatMap_cons]
  simp

/-- A carriage return at the end of a line is blank. -/
theorem heard_return (line : List UInt8) (later : List Event) :
    heard (line ++ [0x0D]) later = heard line later := by
  rw [heard, heard, Text.ofUtf8?_concat (by decide)]
  cases Text.ofUtf8? line with
  | none => rfl
  | some cs =>
    have hp : Command.parse (cs ++ ['\r']) = Command.parse cs := by
      rw [Command.parse, Command.parse, Text.words_concat_blank (by decide)]
    exact congrArg (fun c => (event? c).toList ++ later) hp

theorem feed_not_mem {line : List Char} (h : '\n' ∉ line) : 0x0A ∉ utf8 line := by
  intro hm
  obtain ⟨front, rest, hcut, -⟩ := List.eq_append_cons_of_mem hm
  obtain ⟨ds, es, rfl, -, -⟩ := Text.cut_of_utf8 (by decide) hcut
  exact h (List.mem_append_right ds List.mem_cons_self)

/-- A line that is blank, asks for help or is turned away. -/
inductive Idle (line : List Char) : Prop where
  | blank (blank : ∀ c ∈ line, isBlank c = true)
  | help (help : Command.parse line = .ok .help)
  | rejected (e : CommandError) (rejected : Command.parse line = .error e)

theorem Idle.event?_parse {line : List Char} (h : Idle line) : event? (Command.parse line) = none := by
  cases h with
  | blank hb =>
    have hw : Text.words line = [] := Text.words_of_spells (.blank hb)
    rw [Command.parse, hw]
    rfl
  | help hp =>
    rw [hp]
    rfl
  | rejected e hp =>
    rw [hp]
    rfl

/-- Every other line means an event. -/
theorem idle_iff {line : List Char} : Idle line ↔ event? (Command.parse line) = none := by
  constructor
  · exact Idle.event?_parse
  intro h
  cases hp : Command.parse line with
  | error e => exact .rejected e hp
  | ok c =>
    cases c with
    | event e =>
      rw [hp] at h
      cases h
    | help => exact .help hp
    | empty =>
      have hs := Text.spells_words line
      rw [Command.ofWords_empty hp] at hs
      cases hs with
      | blank hb => exact .blank hb

theorem Idle.heard_eq {line : List Char} (h : Idle line) (later : List Event) :
    heard (utf8 line) later = later := by
  rw [heard_utf8, h.event?_parse]
  rfl

/-- What whole lines make of the bytes behind them hangs on the events of these alone. -/
theorem events_congr {front : List UInt8} (hw : Whole front) {b c : List UInt8} (h : events b = events c) :
    events (front ++ b) = events (front ++ c) := by
  induction front using lines_induction with
  | last line hl =>
    rw [hw.last hl]
    exact h
  | line line rest hl ih =>
    rw [List.append_assoc, List.append_assoc, List.cons_append, List.cons_append, events_line hl,
      events_line hl, ih hw.rest]

theorem events_append {front : List UInt8} (hu : IsUtf8 front) (hw : Whole front) (b : List UInt8) :
    events (front ++ b) = events front ++ events b := by
  induction front using lines_induction with
  | last line hl =>
    rw [hw.last hl]
    rfl
  | line line rest hl ih =>
    obtain ⟨⟨cs, rfl⟩, hr⟩ := (Text.isUtf8_split (by decide)).mp hu
    rw [List.append_assoc, List.cons_append, events_line hl, events_line hl, ih hr hw.rest, heard_utf8,
      heard_utf8, List.append_assoc]

theorem events_withReturns (bytes : List UInt8) : events (withReturns bytes) = events bytes := by
  induction bytes using lines_induction with
  | last line hl => rw [withReturns_last hl]
  | line line rest hl ih =>
    have hl' : 0x0A ∉ line ++ [0x0D] := by simp [hl]
    rw [withReturns_line hl, events_line hl', events_line hl, heard_return, ih]

theorem events_feed (bytes : List UInt8) : events (bytes ++ [0x0A]) = events bytes := by
  induction bytes using lines_induction with
  | last line hl =>
    rw [events_line hl, events_last hl]
    rfl
  | line line rest hl ih => rw [List.append_assoc, List.cons_append, events_line hl, events_line hl, ih]

/-- A reader that takes a script line by line, and passes over the lines that mean no event. -/
structure Linewise (read : List UInt8 → List Event) : Prop where
  append : ∀ a b, IsUtf8 a → Whole a → read (a ++ b) = read a ++ read b
  /-- Nothing is read behind a line that is not UTF-8. -/
  broken : ∀ a line b, Whole a → 0x0A ∉ line → ¬ IsUtf8 line → read (a ++ (line ++ 0x0A :: b)) = read a
  returns : ∀ bytes, read (withReturns bytes) = read bytes
  /-- The last line may end without a line feed. -/
  feed : ∀ bytes, read (bytes ++ [0x0A]) = read bytes
  idle : ∀ a line b, Whole a → '\n' ∉ line → Idle line →
    read (a ++ (utf8 line ++ 0x0A :: b)) = read (a ++ b)
  idleLast : ∀ a line, Whole a → '\n' ∉ line → Idle line → read (a ++ utf8 line) = read a

/-- The events of a script are those of its lines. -/
theorem linewise : Linewise events where
  append a b hu hw := events_append hu hw b
  broken a line b hw hl hb := by
    have h : events (line ++ 0x0A :: b) = events [] := by
      rw [events_line hl, heard_broken hb, events_nil]
    rw [events_congr hw h, List.append_nil]
  returns := events_withReturns
  feed := events_feed
  idle a line b hw hl hi := by
    apply events_congr hw
    rw [events_line (feed_not_mem hl), hi.heard_eq]
  idleLast a line hw hl hi := by
    have h : events (utf8 line) = events [] := by
      rw [events_last (feed_not_mem hl), hi.heard_eq, events_nil]
    rw [events_congr hw h, List.append_nil]

/-- The blank line and the command that there is not are passed over, and the line that is not UTF-8 hides
the command behind it. -/
theorem linewise_start :
    events (utf8 "start\n".toList ++ utf8 "stop-all".toList) = [.startJob, .stopAll] ∧
      events (utf8 "start\n".toList ++ ([0xFF] ++ 0x0A :: utf8 "quit".toList)) = [.startJob] ∧
      events (withReturns (utf8 "start\njobs".toList)) = [.startJob, .openJobs] ∧
      events (utf8 "start".toList ++ [0x0A]) = [.startJob] ∧
      events (utf8 "start\n".toList ++ (utf8 " \t".toList ++ 0x0A :: utf8 "jobs".toList)) =
        [.startJob, .openJobs] ∧
      events (utf8 "start\n".toList ++ utf8 "fly".toList) = [.startJob] := by
  have whole : Whole (utf8 "start\n".toList) := .inr (by decide +kernel)
  have start : IsUtf8 (utf8 "start\n".toList) := ⟨"start\n".toList, rfl⟩
  have broken : ¬ IsUtf8 [0xFF] := Text.ofUtf8?_eq_none_iff.mp (by decide +kernel)
  have blank : Idle " \t".toList := .blank (List.all_eq_true.mp (by decide))
  have rejected : Idle "fly".toList := .rejected (.unknown "fly".toList) (by decide +kernel)
  refine ⟨?_, ?_, ?_, ?_, ?_, ?_⟩
  · rw [linewise.append _ _ start whole]
    decide +kernel
  · rw [linewise.broken _ _ _ whole (by decide +kernel) broken]
    decide +kernel
  · rw [linewise.returns]
    decide +kernel
  · rw [linewise.feed]
    decide +kernel
  · rw [linewise.idle _ _ _ whole (by decide +kernel) blank]
    decide +kernel
  · rw [linewise.idleLast _ _ whole (by decide +kernel) rejected]
    decide +kernel

end LogDesk.Script
