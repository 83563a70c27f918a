import LogDesk.Url

/-! The log resource of a server, and the resources below it. -/

namespace LogDesk

namespace Url

/-- Puts names in the place of the last segment. Query and fragment go. -/
def replaceLast (u : Url) (names : List (List Char)) : Option Url :=
  match u.path with
  | .plain _ => none
  | .segments path =>
    some { u with path := .segments (addSegments u.family (shorten u.family path) names),
                  query := none, fragment := none }

def withoutLastSlash (path : List (List Char)) : List (List Char) :=
  if path.getLast? = some [] then path.dropLast else path

/-- Puts a text behind a path as one segment. Names of folders made of dots are passed over. -/
def putName (f : Family) (path : List (List Char)) (name : List Char) : List (List Char) :=
  if name = ['.'] || name = ['.', '.'] then path
  else
    let text := name.filter fun c => c != '\t' && c != '\n' && c != '\r'
    if text = ['.', '.'] then shorten f path ++ [[]]
    else if text = ['.'] then path ++ [[]]
    else path ++ [encode (inSegmentSet f.isSpecial) text]

def below (u : Url) (names : List (List Char)) : Url :=
  match u.path with
  | .plain _ => u
  | .segments path =>
    { u with path := .segments (names.foldl (putName u.family) (withoutLastSlash path)) }

end Url

namespace Api

def resourceNames : List (List Char) := ["rest".toList, "log".toList, []]

/-- The text of a server URL, taken as that of a folder. -/
def folderText (server : String) : List Char :=
  let text := Text.trim server.toList
  if text.getLast? = some '/' then text else text ++ ['/']

/-- The URL of the log resource of a server. -/
def resolve? (server : String) : Option Url := do
  (← Url.parse? (folderText server)).replaceLast resourceNames

end Api

end LogDesk
