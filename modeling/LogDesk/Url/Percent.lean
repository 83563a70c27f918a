import LogDesk.Text.Hexadecimal
import LogDesk.Text.Utf8

/-! Percent-encoding: the characters that each part of a URL cannot hold as they are, and the bytes
that stand for them. -/

namespace LogDesk.Url

def inControlSet (c : Char) : Bool := c.toNat < 0x20 || 0x7E < c.toNat

def inFragmentSet (c : Char) : Bool :=
  inControlSet c || c == ' ' || c == '"' || c == '<' || c == '>' || c == '`'

/-- The query of a special scheme also encodes its apostrophes. -/
def inQuerySet (special : Bool) (c : Char) : Bool :=
  inControlSet c || c == ' ' || c == '"' || c == '#' || c == '<' || c == '>' ||
    (special && c == '\x27')

def inPathSet (c : Char) : Bool :=
  inFragmentSet c || c == '#' || c == '?' || c == '\x7b' || c == '\x7d'

/-- What a text put in as one segment of a path cannot hold. -/
def inSegmentSet (special : Bool) (c : Char) : Bool :=
  inPathSet c || c == '/' || c == '%' || (special && c == '\\')

def inUserSet (c : Char) : Bool :=
  inPathSet c || c == '/' || c == ':' || c == ';' || c == '=' || c == '@' || c == '[' ||
    c == '\\' || c == ']' || c == '^' || c == '|'

def percentByte (b : UInt8) : List Char :=
  ['%', Text.upperHexDigit (b.toNat / 16), Text.upperHexDigit (b.toNat % 16)]

def encodeChar (set : Char → Bool) (c : Char) : List Char :=
  if set c then (Text.charBytes c).flatMap percentByte else [c]

def encode (set : Char → Bool) (cs : List Char) : List Char := cs.flatMap (encodeChar set)

/-- The bytes of a text, its percent-encoded ones decoded. A percent sign without two digits stands
for itself. -/
def decode : List Char → List UInt8
  | [] => []
  | '%' :: a :: b :: r =>
    match Text.hexValue? a, Text.hexValue? b with
    | some x, some y => UInt8.ofNat (16 * x + y) :: decode r
    | _, _ => 0x25 :: decode (a :: b :: r)
  | c :: r => Text.charBytes c ++ decode r

end LogDesk.Url
