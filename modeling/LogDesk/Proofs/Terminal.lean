import LogDesk.Proofs.Text.Decimal
import LogDesk.Proofs.Text.Trim
import LogDesk.Terminal

/-! The log table on the terminal: a line for each row, in order. The white space at the end of the whole
text is left out, and it reaches back to the thread name of the last row at most. -/

namespace LogDesk.Terminal

open LogDesk.Text (isBlank trimEnd)

def Fills (width : Nat) (text room : List Char) : Prop :=
  (∀ c ∈ room, c = ' ') ∧ room.length + text.length = max width text.length

def AtRight (width : Nat) (text column : List Char) : Prop :=
  ∃ room, Fills width text room ∧ column = room ++ text

def AtLeft (width : Nat) (text column : List Char) : Prop :=
  ∃ room, Fills width text room ∧ column = text ++ room

inductive Mark : Option Highlight → String → Prop where
  | danger : Mark (some .danger) "!!"
  | warning : Mark (some .warning) "! "
  | none : Mark none "  "

def Heading (r : Row) (heading : List Char) : Prop :=
  ∃ mark index time level, Mark r.highlight mark ∧ AtRight 4 (Text.digits r.index) index ∧
    AtLeft 12 r.time.toList time ∧ AtLeft 7 r.level.toList level ∧
    heading = mark.toList ++ index ++ "  ".toList ++ time ++ "  ".toList ++ level ++ " [".toList ++
      r.loggerName.toList ++ "] (".toList ++ r.threadName.toList ++ [')']

def Line (r : Row) (line : List Char) : Prop :=
  ∃ heading, Heading r heading ∧ line = heading ++ ' ' :: r.message.toList

/-- The line of a row without the white space at the end of its message, and without the blank before the
message where nothing of the message is left. -/
def LastLine (r : Row) (line : List Char) : Prop :=
  ∃ heading kept gap, Heading r heading ∧ ' ' :: r.message.toList = kept ++ gap ∧
    (∀ c ∈ kept.getLast?, isBlank c = false) ∧ (∀ c ∈ gap, isBlank c = true) ∧ line = heading ++ kept

/-- A line for each row, in order: the whole line, and for the last row one of the kind `Last`. -/
inductive Lines (Last : Row → List Char → Prop) : List Row → List (List Char) → Prop where
  | last {r : Row} {line : List Char} (h : Last r line) : Lines Last [r] [line]
  | cons {r : Row} {line : List Char} {rows : List Row} {lines : List (List Char)} (h : Line r line)
    (rest : Lines Last rows lines) : Lines Last (r :: rows) (line :: lines)

/-- Such lines as one text, each with a line feed at its end and nowhere else. -/
def Shows (Last : Row → List Char → Prop) (rows : List Row) (text : List Char) : Prop :=
  ∃ lines, Lines Last rows lines ∧ (∀ line ∈ lines, '\n' ∉ line) ∧ text = lines.flatMap (· ++ ['\n'])

structure OneLine (r : Row) : Prop where
  time : '\n' ∉ r.time.toList
  level : '\n' ∉ r.level.toList
  loggerName : '\n' ∉ r.loggerName.toList
  threadName : '\n' ∉ r.threadName.toList
  message : '\n' ∉ r.message.toList

theorem fills_iff {width : Nat} {text room : List Char} :
    Fills width text room ↔ room = List.replicate (width - text.length) ' ' := by
  have hlength : room.length + text.length = max width text.length ↔
      room.length = width - text.length := by omega
  rw [Fills, List.eq_replicate_iff, hlength, and_comm]

theorem atRight_iff {width : Nat} {text column : List Char} :
    AtRight width text column ↔ column = Text.padLeft width text := by
  simp [AtRight, fills_iff, Text.padLeft]

theorem atLeft_iff {width : Nat} {text column : List Char} :
    AtLeft width text column ↔ column = Text.padRight width text := by
  simp [AtLeft, fills_iff, Text.padRight]

theorem mark_iff {h : Option Highlight} {mark : String} : Mark h mark ↔ mark.toList = marker h := by
  constructor
  · rintro (_ | _ | _) <;> rfl
  · intro hm
    have he : mark = String.ofList (marker h) := by rw [← hm, String.ofList_toList]
    rw [he]
    rcases h with _ | _ | _
    · exact .none
    · exact .warning
    · exact .danger

def rowHead (r : Row) : List Char :=
  marker r.highlight ++ Text.padLeft 4 (Text.digits r.index) ++ "  ".toList ++
    Text.padRight 12 r.time.toList ++ "  ".toList ++ Text.padRight 7 r.level.toList ++ " [".toList ++
    r.loggerName.toList ++ "] (".toList ++ r.threadName.toList ++ [')']

theorem rowLine_eq (r : Row) : rowLine r = rowHead r ++ ' ' :: r.message.toList := by
  simp [rowLine, rowHead]

theorem heading_iff {r : Row} {heading : List Char} : Heading r heading ↔ heading = rowHead r := by
  constructor
  · rintro ⟨mark, index, time, level, hm, hi, ht, hl, rfl⟩
    rw [mark_iff.mp hm, atRight_iff.mp hi, atLeft_iff.mp ht, atLeft_iff.mp hl]
    rfl
  · rintro rfl
    refine ⟨String.ofList (marker r.highlight), _, _, _, mark_iff.mpr String.toList_ofList,
      atRight_iff.mpr rfl, atLeft_iff.mpr rfl, atLeft_iff.mpr rfl, ?_⟩
    rw [String.toList_ofList]
    rfl

theorem line_rowLine (r : Row) : Line r (rowLine r) :=
  ⟨rowHead r, heading_iff.mpr rfl, rowLine_eq r⟩

theorem OneLine.feed_not_mem {r : Row} (h : OneLine r) : '\n' ∉ rowLine r := by
  have mark : '\n' ∉ marker r.highlight := by
    rcases r.highlight with _ | _ | _ <;> decide
  have index : '\n' ∉ Text.digits r.index := by
    intro hm
    have hd := Text.isDigit_of_mem_digits hm
    revert hd
    decide
  simp [rowLine, Text.padLeft, Text.padRight, mark, index, h.time, h.level, h.loggerName, h.threadName,
    h.message]

theorem trimEnd_rowLine (r : Row) : trimEnd (rowLine r) = rowHead r ++ trimEnd (' ' :: r.message.toList) := by
  have hb : isBlank ')' = false := by decide
  obtain ⟨front, hf⟩ : ∃ front, rowHead r = front ++ [')'] := ⟨_, rfl⟩
  rw [rowLine_eq, hf, List.append_assoc, List.singleton_append, Text.trimEnd_append_solid front hb,
    List.append_assoc, List.singleton_append]

theorem lastLine_rowLine (r : Row) : LastLine r (trimEnd (rowLine r)) := by
  obtain ⟨gap, hgap, hcut⟩ := Text.exists_gap (' ' :: r.message.toList)
  refine ⟨rowHead r, _, gap, heading_iff.mpr rfl, hcut.symm, ?_, hgap, trimEnd_rowLine r⟩
  intro c hc
  exact Text.solid_of_getLast? hc

theorem trimEnd_rows_ne_nil {rows : List Row} (h : rows ≠ []) :
    trimEnd (rows.flatMap fun r => rowLine r ++ ['\n']) ≠ [] := by
  obtain ⟨r, rest, rfl⟩ := List.exists_cons_of_ne_nil h
  have hb : isBlank ')' = false := by decide
  apply Text.trimEnd_ne_nil hb
  simp [rowLine_eq, rowHead]

theorem lines_trimEnd {rows : List Row} (hne : rows ≠ []) (h : ∀ r ∈ rows, OneLine r) :
    ∃ lines, Lines LastLine rows lines ∧ (∀ line ∈ lines, '\n' ∉ line) ∧
      trimEnd (rows.flatMap fun r => rowLine r ++ ['\n']) ++ ['\n'] = lines.flatMap (· ++ ['\n']) := by
  induction rows with
  | nil => exact absurd rfl hne
  | cons r rows ih =>
    have hr := (h r List.mem_cons_self).feed_not_mem
    rcases eq_or_ne rows [] with rfl | hrows
    · -- the line feed behind the last line goes with the white space in front of it
      have hfeed : isBlank '\n' = true := by decide
      obtain ⟨gap, -, hcut⟩ := Text.exists_gap (rowLine r)
      refine ⟨[trimEnd (rowLine r)], .last (lastLine_rowLine r), ?_, ?_⟩
      · rw [List.forall_mem_singleton]
        intro hm
        apply hr
        rw [← hcut]
        exact List.mem_append_left gap hm
      · rw [List.flatMap_singleton, List.flatMap_singleton, Text.trimEnd_blank_end hfeed]
    · obtain ⟨lines, hl, hfeed, ht⟩ := ih hrows fun s hs => h s (List.mem_cons_of_mem r hs)
      refine ⟨rowLine r :: lines, .cons (line_rowLine r) hl, List.forall_mem_cons.mpr ⟨hr, hfeed⟩, ?_⟩
      rw [List.flatMap_cons, Text.trimEnd_append _ (trimEnd_rows_ne_nil hrows), List.append_assoc, ht,
        List.flatMap_cons]

/-- The rows stand on a line each, in order, and only the last line may miss white space. -/
theorem shows_rows {rows : List Row} (hne : rows ≠ []) (h : ∀ r ∈ rows, OneLine r) :
    Shows LastLine rows (print (.renderLogs rows)) := by
  obtain ⟨lines, hl, hfeed, ht⟩ := lines_trimEnd hne h
  refine ⟨lines, hl, hfeed, ?_⟩
  rw [← ht]
  obtain ⟨r, rest, rfl⟩ := List.exists_cons_of_ne_nil hne
  rfl

/-- The last message loses its white space, the first one keeps its own. -/
theorem shows_rows_mended :
    Shows LastLine
      [⟨7, "12:34:56.789", "ERROR", "shop", "main", "broken  ", some .danger⟩,
        ⟨10008, "12:34:57.001", "INFO", "shop", "main", "mended \t", none⟩]
      ("!!   7  12:34:56.789  ERROR   [shop] (main) broken  \n".toList ++
        "  10008  12:34:57.001  INFO    [shop] (main) mended\n".toList) := by
  have hp : print (.renderLogs
      [⟨7, "12:34:56.789", "ERROR", "shop", "main", "broken  ", some .danger⟩,
        ⟨10008, "12:34:57.001", "INFO", "shop", "main", "mended \t", none⟩]) =
      "!!   7  12:34:56.789  ERROR   [shop] (main) broken  \n".toList ++
        "  10008  12:34:57.001  INFO    [shop] (main) mended\n".toList := by decide +kernel
  rw [← hp]
  apply shows_rows
  · simp
  · rw [List.forall_mem_cons, List.forall_mem_singleton]
    constructor <;> constructor <;> decide

/-- The line of a row without the white space at the end of its message. -/
def TrimmedLine (r : Row) (line : List Char) : Prop :=
  ∃ heading kept gap, Heading r heading ∧ r.message.toList = kept ++ gap ∧
    (∀ c ∈ gap, isBlank c = true) ∧ line = heading ++ ' ' :: kept

def quiet : Row := ⟨0, "12:34:56.789", "INFO", "lg", "th", "", none⟩

/-- Of a last row without a message the blank before the message is missing, too. -/
theorem not_shows_trimmed : OneLine quiet ∧ ¬ Shows TrimmedLine [quiet] (print (.renderLogs [quiet])) := by
  constructor
  · constructor <;> decide
  · rintro ⟨lines, hl, -, ht⟩
    cases hl with
    | cons _ hrest => cases hrest
    | last hlast =>
      obtain ⟨heading, kept, gap, hh, hm, -, rfl⟩ := hlast
      obtain ⟨rfl, -⟩ := List.append_eq_nil_iff.mp hm.symm
      rw [heading_iff.mp hh] at ht
      revert ht
      decide

end LogDesk.Terminal
