import LogDesk.Text.LowerCase
import LogDesk.Text.Printable
import LogDesk.Url.Punycode

/-! Domain names as ASCII: in lower case, and each label that is not ASCII in Punycode. -/

namespace LogDesk.Url

/-- The characters that a label takes for one of the name. Wide forms of ASCII stand for it, and
what only guides hyphenation and layout is dropped. This is less than the standard mapping: other
compatible forms (U+017F, U+FB00) stay as they are, and nothing is composed. -/
def domainChar (c : Char) : List Char :=
  let n := c.toNat
  if n == 0x3002 || n == 0xFF0E || n == 0xFF61 then ['.']
  else if 0xFF01 ≤ n && n ≤ 0xFF5E then [(Char.ofNat (n - 0xFEE0)).toLower]
  else if n == 0xAD || n == 0x200B || n == 0x2060 || n == 0xFEFF || (0xFE00 ≤ n && n ≤ 0xFE0F) then []
  else [Text.lowerChar c]

def forbiddenInDomain (c : Char) : Bool :=
  c.toNat ≤ 0x20 || c.toNat == 0x7F || "%#/:<>?@[\\]^|".toList.contains c

def splitOn (sep : Char) : List Char → List (List Char)
  | [] => [[]]
  | c :: cs =>
    if c == sep then [] :: splitOn sep cs
    else match splitOn sep cs with
      | [] => [[c]]
      | piece :: rest => (c :: piece) :: rest

def joinWith (sep : Char) : List (List Char) → List Char
  | [] => []
  | [piece] => piece
  | piece :: rest => piece ++ sep :: joinWith sep rest

def isLabelChar (c : Char) : Bool := c.toNat < 0x80 || !Text.isHidden c

def isLabel (cs : List Char) : Bool :=
  cs.all isLabelChar && !(cs.head?.map Text.isExtending).getD false

/-- A label as ASCII. One that says it is Punycode must be that of a label that needs it. -/
def asciiLabel (cs : List Char) : Option (List Char) :=
  if "xn--".toList.isPrefixOf cs then
    match Punycode.decode? (cs.drop 4) with
    | some text =>
      if isLabel text && !text.all Punycode.isBasic && text.flatMap domainChar == text &&
          "xn--".toList ++ Punycode.encode text == cs then some cs
      else none
    | none => none
  else if cs.all Punycode.isBasic then some cs
  else if isLabel cs then some ("xn--".toList ++ Punycode.encode cs)
  else none

/-- A domain name as ASCII, as far as `domainChar` goes. -/
def asciiDomain (cs : List Char) : Option (List Char) := do
  let labels ← (splitOn '.' (cs.flatMap domainChar)).mapM asciiLabel
  let name := joinWith '.' labels
  if name.any forbiddenInDomain then none else some name

end LogDesk.Url
