import LogDesk.Text.Hexadecimal
import LogDesk.Text.Printable

/-! Quoted text: what stands in messages for a word that was not understood. -/

namespace LogDesk.Text

/-- One character between double quotes: a backslash before a quote or a backslash, a short escape
where there is one, and a numbered escape for what would not show by itself. -/
def quoteChar (c : Char) : List Char :=
  if c == '\x00' then ['\\', '0']
  else if c == '\t' then ['\\', 't']
  else if c == '\r' then ['\\', 'r']
  else if c == '\n' then ['\\', 'n']
  else if c == '"' || c == '\\' then ['\\', c]
  else if isExtending c || isHidden c then
    "\\u".toList ++ '\x7b' :: hexDigits c.toNat ++ ['\x7d']
  else [c]

def quote (cs : List Char) : List Char := '"' :: cs.flatMap quoteChar ++ ['"']

end LogDesk.Text
