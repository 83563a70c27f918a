import LogDesk.Text.Blank

/-! Markup: text made safe to stand in it, and the plain text that shows when it is laid out. -/

namespace LogDesk.Markup

/-- The five characters that markup gives a meaning, each with the entity that stands for it. -/
def entity? (c : Char) : Option String :=
  if c == '&' then some "&amp;"
  else if c == '<' then some "&lt;"
  else if c == '>' then some "&gt;"
  else if c == '"' then some "&quot;"
  else if c == '\x27' then some "&#39;"
  else none

/-- Every occurrence of a text put in the place of another, found from the left. -/
def replace (old new : List Char) : Nat → List Char → List Char
  | _, [] => []
  | 0, c :: cs =>
    if old.isPrefixOf (c :: cs) then new ++ replace old new (old.length - 1) cs
    else c :: replace old new 0 cs
  | skip + 1, _ :: cs => replace old new skip cs

def replaceAll (old new : String) (cs : List Char) : List Char :=
  replace old.toList new.toList 0 cs

/-- Text as markup shows it: the ampersand first, so that no entity is escaped again. -/
def escape (cs : List Char) : List Char :=
  replaceAll "'" "&#39;" <| replaceAll "\"" "&quot;" <| replaceAll ">" "&gt;" <|
    replaceAll "<" "&lt;" <| replaceAll "&" "&amp;" cs

/-- Entities back to characters: the ampersand last, so that none is decoded twice. -/
def unescape (cs : List Char) : List Char :=
  replaceAll "&amp;" "&" <| replaceAll "&#39;" "'" <| replaceAll "&quot;" "\"" <|
    replaceAll "&gt;" ">" <| replaceAll "&lt;" "<" cs

/-- Text with its tags left out. A space stands where a span ends. `tag` is what was read of a tag
that is open. -/
def dropTags : (tag : Option (List Char)) → List Char → List Char
  | _, [] => []
  | none, c :: cs => if c == '<' then dropTags (some []) cs else c :: dropTags none cs
  | some tag, c :: cs =>
    if c == '>' then
      if tag == "/span".toList then ' ' :: dropTags none cs else dropTags none cs
    else dropTags (some (tag ++ [c])) cs

/-- The plain text of markup: without tags and without the white space at its end, and its entities
decoded. -/
def plain (cs : List Char) : List Char := unescape (Text.trimEnd (dropTags none cs))

def plainText (html : String) : String := String.ofList (plain html.toList)

end LogDesk.Markup
