import LogDesk.Text.Blank

/-! Files of settings, a `NAME=value` a line. A value may stand in quotes, which may hold line ends;
may have escapes; and may name other settings behind a dollar sign. -/

namespace LogDesk.EnvFile

/-- How far the reading of a line is, as far as it matters for where the line ends. -/
inductive Place where
  | plain
  | blank
  | escape
  | weak
  | weakEscape
  | strong
  | strongEscape
  deriving DecidableEq

def Place.open (c : Char) : Place :=
  if c == '\\' then .escape
  else if c == '"' then .weak
  else if c == '\x27' then .strong
  else .plain

def Place.next (c : Char) : Place → Place
  | .plain => if Text.isBlank c && c != '\n' && c != '\r' then .blank else .open c
  | .blank => .open c
  | .escape => .plain
  | .weak => if c == '\\' then .weakEscape else if c == '"' then .plain else .weak
  | .weakEscape => .weak
  | .strong => if c == '\\' then .strongEscape else if c == '\x27' then .plain else .strong
  | .strongEscape => .strong

/-- The lines of a file. A line end does not count where a quote is open or an escape begun, and
neither does anything behind a number sign after a blank. The file may end in a broken line. -/
def lines : (line : List Char) → (place : Place) → (comment : Bool) → List Char →
    List (Option (List Char))
  | line, place, comment, [] =>
    if line.isEmpty then [] else if comment || place = .plain then [some line] else [none]
  | line, place, true, c :: cs =>
    if c == '\n' then some line :: lines [] .plain false cs else lines line place true cs
  | line, place, false, c :: cs =>
    if c == '#' && (place = .blank || (Text.trimStart line).isEmpty) then
      lines line place true cs
    else
      let place := place.next c
      if c == '\n' && place = .plain then some line :: lines [] .plain false cs
      else lines (line ++ [c]) place false cs

/-- What is known of settings: those that were there before, and those of the file so far. -/
structure Known where
  outer : List (String × String)
  inner : List (String × String) := []

/-- The value that a name stands for, empty where there is none. What was there before wins. -/
def Known.value (k : Known) (name : List Char) : List Char :=
  let name := String.ofList name
  (((k.outer.lookup name).orElse fun _ => k.inner.lookup name).getD "").toList

inductive Mode where
  | plain
  | escape (weak : Bool)
  | strong
  | weak
  /-- A name behind a dollar sign, within weak quotes or not. -/
  | name (weak : Bool) (text : List Char)
  /-- A name in braces behind a dollar sign. -/
  | braced (weak : Bool) (text : List Char)
  /-- Nothing may come but blanks and a comment. -/
  | ended

def back (weak : Bool) : Mode := if weak then .weak else .plain

def escaped? (c : Char) : Option Char :=
  if c == 'n' then some '\n'
  else if c == '\\' || c == '\x27' || c == '"' || c == '$' || c == ' ' then some c
  else none

def readValue (k : Known) : Mode → List Char → Option (List Char)
  | .plain, [] | .ended, [] | .escape false, [] => some []
  | .name false text, [] => some (k.value text)
  | _, [] => none
  | .ended, c :: cs =>
    if c == ' ' || c == '\t' then readValue k .ended cs else if c == '#' then some [] else none
  | .escape weak, c :: cs => do return (← escaped? c) :: (← readValue k (back weak) cs)
  | .strong, c :: cs =>
    if c == '\x27' then readValue k .plain cs else (readValue k .strong cs).map (c :: ·)
  | .name weak text, c :: cs =>
    if c.isAlphanum then readValue k (.name weak (text ++ [c])) cs
    else if c == '\x7b' && text.isEmpty then readValue k (.braced weak []) cs
    else if c == '$' then (readValue k (.name weak []) cs).map (k.value text ++ ·)
    else (readValue k (back weak) cs).map (k.value text ++ c :: ·)
  | .braced weak text, c :: cs =>
    if c == '\x7d' then (readValue k (back weak) cs).map (k.value text ++ ·)
    else readValue k (.braced weak (text ++ [c])) cs
  | .weak, c :: cs =>
    if c == '$' then readValue k (.name true []) cs
    else if c == '"' then readValue k .plain cs
    else if c == '\\' then readValue k (.escape true) cs
    else (readValue k .weak cs).map (c :: ·)
  | .plain, c :: cs =>
    if c == '$' then readValue k (.name false []) cs
    else if c == '\x27' then readValue k .strong cs
    else if c == '"' then readValue k .weak cs
    else if c == '\\' then readValue k (.escape false) cs
    else if c == ' ' || c == '\t' then readValue k .ended cs
    else (readValue k .plain cs).map (c :: ·)

def isNameChar (c : Char) : Bool := c.isAlphanum || c == '_' || c == '.'

def readName (cs : List Char) : Option (List Char × List Char) :=
  if (cs.head?.map fun c => c.isAlpha || c == '_').getD false then
    some (cs.takeWhile isNameChar, Text.trimStart (cs.dropWhile isNameChar))
  else none

/-- A name that may follow the word `export`, and what comes behind its equals sign. -/
def readHead (cs : List Char) : Option (List Char × List Char) := do
  match ← readName cs with
  | (name, '=' :: rest) => return (name, Text.trimStart rest)
  | (name, rest) =>
    if name = "export".toList then
      match ← readName rest with
      | (name, '=' :: rest) => return (name, Text.trimStart rest)
      | _ => none
    else none

/-- The setting of a line. A blank line has none, and a broken line is no line. -/
def readLine (k : Known) (line : List Char) : Option (Option (String × String)) :=
  match Text.trim line with
  | [] => some none
  | '#' :: _ => some none
  | cs => do
    let (name, rest) ← readHead cs
    let value ← match rest with
      | [] => some []
      | '#' :: _ => some []
      | rest => readValue k .plain rest
    return some (String.ofList name, String.ofList value)

/-- The settings of lines up to the first broken one. -/
def readLines (k : Known) : List (Option (List Char)) → List (String × String)
  | [] => []
  | none :: _ => []
  | some line :: rest =>
    match readLine k line with
    | none => []
    | some none => readLines k rest
    | some (some s) => s :: readLines { k with inner := k.inner ++ [s] } rest

def settings (outer : List (String × String)) (text : List Char) : List (String × String) :=
  let text := match text with
    | '\uFEFF' :: cs => cs
    | cs => cs
  readLines { outer } (lines [] .plain false text)

end LogDesk.EnvFile
