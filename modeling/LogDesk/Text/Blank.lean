/-! White space: the characters of the property, trimming, and the words of a line. -/

namespace LogDesk.Text

/-- The 25 characters with the property White_Space. -/
def isBlank (c : Char) : Bool :=
  let n := c.toNat
  (9 ≤ n && n ≤ 13) || n == 0x20 || n == 0x85 || n == 0xA0 || n == 0x1680 ||
    (0x2000 ≤ n && n ≤ 0x200A) || n == 0x2028 || n == 0x2029 || n == 0x202F ||
    n == 0x205F || n == 0x3000

def trimStart (cs : List Char) : List Char := cs.dropWhile isBlank

def trimEnd : List Char → List Char
  | [] => []
  | c :: cs =>
    match trimEnd cs with
    | [] => if isBlank c then [] else [c]
    | t => c :: t

def trim (cs : List Char) : List Char := trimEnd (trimStart cs)

/-- The text before the first blank, and the words after it. -/
def cut : List Char → List Char × List (List Char)
  | [] => ([], [])
  | c :: cs =>
    let (word, rest) := cut cs
    if isBlank c then ([], if word.isEmpty then rest else word :: rest)
    else (c :: word, rest)

/-- The longest runs of characters that are not blank, in order. -/
def words (cs : List Char) : List (List Char) :=
  let (word, rest) := cut cs
  if word.isEmpty then rest else word :: rest

def unwords : List (List Char) → List Char
  | [] => []
  | [w] => w
  | w :: ws => w ++ ' ' :: unwords ws

def allBlank (s : String) : Bool := s.toList.all isBlank

end LogDesk.Text
