import LogDesk.Url.Domain
import LogDesk.Url.Percent

/-! Paths as lists of segments, with the dots in them followed. -/

namespace LogDesk.Url

inductive Family where
  | file
  /-- A scheme of the web: it has a host and backslashes are slashes. -/
  | web
  | other
  deriving DecidableEq

def Family.isSpecial (f : Family) : Bool := f != .other

def isSlash (f : Family) (c : Char) : Bool := c == '/' || (f.isSpecial && c == '\\')

def lowerAscii (cs : List Char) : List Char := cs.map Char.toLower

def isSingleDot (cs : List Char) : Bool :=
  [".".toList, "%2e".toList].contains (lowerAscii cs)

def isDoubleDot (cs : List Char) : Bool :=
  ["..".toList, "%2e.".toList, ".%2e".toList, "%2e%2e".toList].contains (lowerAscii cs)

def isDriveLetter (cs : List Char) : Bool :=
  match cs with
  | [a, b] => a.isAlpha && (b == ':' || b == '|')
  | _ => false

def isDrive (cs : List Char) : Bool := isDriveLetter cs && cs.getLast? == some ':'

/-- Goes up from the last segment. The drive of a file stays. -/
def shorten (f : Family) (path : List (List Char)) : List (List Char) :=
  match path with
  | [only] => if f == .file && isDrive only then path else []
  | _ => path.dropLast

/-- Puts a segment behind a path. The last one closes it, even where it is made of dots. -/
def addSegment (f : Family) (path : List (List Char)) (segment : List Char) (last : Bool) :
    List (List Char) :=
  if isDoubleDot segment then shorten f path ++ (if last then [[]] else [])
  else if isSingleDot segment then path ++ (if last then [[]] else [])
  else if f == .file && path.isEmpty && isDriveLetter segment then
    path ++ [segment.take 1 ++ [':']]
  else path ++ [encode inPathSet segment]

def addSegments (f : Family) (path : List (List Char)) : List (List Char) → List (List Char)
  | [] => path
  | [s] => addSegment f path s true
  | s :: rest => addSegments f (addSegment f path s false) rest

def cutSegments (f : Family) : List Char → List (List Char)
  | [] => [[]]
  | c :: cs =>
    if isSlash f c then [] :: cutSegments f cs
    else match cutSegments f cs with
      | [] => [[c]]
      | piece :: rest => (c :: piece) :: rest

/-- The path of a file begins with no empty segments. -/
def dropEmpty : List (List Char) → List (List Char)
  | [] :: s :: rest => dropEmpty (s :: rest)
  | path => path

def readPath (f : Family) (cs : List Char) : List (List Char) :=
  let cs := match cs with
    | c :: r => if isSlash f c then r else c :: r
    | [] => []
  let path := addSegments f [] (cutSegments f cs)
  if f == .file then dropEmpty path else path

def printSegments (path : List (List Char)) : List Char := path.flatMap ('/' :: ·)

end LogDesk.Url
