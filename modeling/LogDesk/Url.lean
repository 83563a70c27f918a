import LogDesk.Url.Host
import LogDesk.Url.Segments
import LogDesk.Text.Blank

/-! URLs: read as the URL standard says, and written back in one form. -/

namespace LogDesk

/-- What stands behind the host, or behind the scheme where there is none. -/
inductive Url.Path where
  | segments (names : List (List Char))
  /-- A text that is no list of segments. Nothing can be joined to it. -/
  | plain (text : List Char)
  deriving DecidableEq

/-- All parts are held as they are written, percent-encoded where they need it. -/
structure Url where
  scheme : List Char
  user : List Char := []
  password : List Char := []
  host : Option Url.Host := none
  /-- Where it is not the one that goes without saying. -/
  port : Option Nat := none
  path : Url.Path
  query : Option (List Char) := none
  fragment : Option (List Char) := none
  deriving DecidableEq

namespace Url

def familyOf (scheme : List Char) : Family :=
  match String.ofList scheme with
  | "file" => .file
  | "http" | "https" | "ws" | "wss" | "ftp" => .web
  | _ => .other

def family (u : Url) : Family := familyOf u.scheme

def defaultPort? (scheme : List Char) : Option Nat :=
  match String.ofList scheme with
  | "http" | "ws" => some 80
  | "https" | "wss" => some 443
  | "ftp" => some 21
  | _ => none

/-- Controls and spaces around a URL do not count, nor do tabs and line ends in it. -/
def clean (cs : List Char) : List Char :=
  let outer (c : Char) : Bool := c.toNat ≤ 0x20
  ((cs.dropWhile outer).reverse.dropWhile outer).reverse.filter
    fun c => c != '\t' && c != '\n' && c != '\r'

def isSchemeChar (c : Char) : Bool := c.isAlphanum || c == '+' || c == '-' || c == '.'

def readScheme (cs : List Char) : Option (List Char × List Char) :=
  match cs.dropWhile isSchemeChar with
  | ':' :: rest =>
    let scheme := cs.takeWhile isSchemeChar
    if (scheme.head?.map Char.isAlpha).getD false then some (lowerAscii scheme, rest) else none
  | _ => none

def cutAt (sep : Char) (cs : List Char) : List Char × Option (List Char) :=
  match cs.dropWhile (· != sep) with
  | [] => (cs, none)
  | _ :: rest => (cs.takeWhile (· != sep), some rest)

/-- The text before the last `@`, if there is one, and the text after it. -/
def splitUser (cs : List Char) : Option (List Char) × List Char :=
  if cs.contains '@' then
    let tail := (cs.reverse.takeWhile (· != '@')).reverse
    (some (cs.take (cs.length - tail.length - 1)), tail)
  else (none, cs)

/-- The host, and what follows the first colon outside of brackets. -/
def splitPort : (bracket : Bool) → List Char → List Char × Option (List Char)
  | _, [] => ([], none)
  | bracket, c :: cs =>
    if c == ':' && !bracket then ([], some cs)
    else
      let (host, port) := splitPort (if c == '[' then true else if c == ']' then false else bracket) cs
      (c :: host, port)

def readPort (scheme cs : List Char) : Option (Option Nat) :=
  if !cs.all Text.isDigit then none
  else if UInt16.size ≤ Text.ofDigits 0 cs then none
  else if cs.isEmpty || defaultPort? scheme = some (Text.ofDigits 0 cs) then some none
  else some (some (Text.ofDigits 0 cs))

def readAuthority (scheme cs : List Char) : Option Url := do
  let (info, rest) := splitUser cs
  let (host, port) := splitPort false rest
  let special := (familyOf scheme).isSpecial
  if host.isEmpty && (special || port.isSome || info.isSome) then none
  else
    let host ← if special then Host.ofSpecial host else Host.ofOther host
    let port ← readPort scheme (port.getD [])
    let (user, password) := cutAt ':' (info.getD [])
    return { scheme, user := encode inUserSet user, password := encode inUserSet (password.getD []),
             host := some host, port, path := .segments [] }

/-- The host of a file. A drive is no host, and `localhost` stands for none. -/
def readFileHost (cs : List Char) : Option Host :=
  if cs.isEmpty then some (.name [])
  else (Host.ofSpecial cs).map fun h => if h = .name "localhost".toList then .name [] else h

def readFile (scheme cs : List Char) : Option Url :=
  match cs with
  | a :: b :: rest =>
    if isSlash .file a && isSlash .file b then
      let name := rest.takeWhile (!isSlash .file ·)
      if isDriveLetter name then
        some { scheme, host := some (.name []), path := .segments (readPath .file ('/' :: rest)) }
      else
        let path := readPath .file (rest.dropWhile (!isSlash .file ·))
        let onDrive := (path.head?.map isDrive).getD false
        (readFileHost name).map fun host =>
          { scheme, host := some (if onDrive then .name [] else host), path := .segments path }
    else some { scheme, host := some (.name []), path := .segments (readPath .file cs) }
  | _ => some { scheme, host := some (.name []), path := .segments (readPath .file cs) }

def readHosted (f : Family) (scheme cs : List Char) : Option Url :=
  let rest := cs.dropWhile (!isSlash f ·)
  (readAuthority scheme (cs.takeWhile (!isSlash f ·))).map fun u =>
    { u with path := .segments (if rest.isEmpty && f == .other then [] else readPath f rest) }

def readHierarchy (scheme cs : List Char) : Option Url :=
  match familyOf scheme with
  | .file => readFile scheme cs
  | .web => readHosted .web scheme (cs.dropWhile (isSlash .web))
  | .other =>
    match cs with
    | '/' :: '/' :: rest => readHosted .other scheme rest
    | '/' :: rest => some { scheme, path := .segments (readPath .other ('/' :: rest)) }
    | _ => some { scheme, path := .plain (encode inControlSet cs) }

def parse? (text : List Char) : Option Url := do
  let (scheme, rest) ← readScheme (clean text)
  let (rest, fragment) := cutAt '#' rest
  let (rest, query) := cutAt '?' rest
  let u ← readHierarchy scheme rest
  return { u with
    query := query.map (encode (inQuerySet u.family.isSpecial))
    fragment := fragment.map (encode inFragmentSet) }

def printUser (u : Url) : List Char :=
  if u.user.isEmpty && u.password.isEmpty then []
  else u.user ++ (if u.password.isEmpty then [] else ':' :: u.password) ++ ['@']

def printPort (u : Url) : List Char := (u.port.map fun n => ':' :: Text.digits n).getD []

/-- The path. Two slashes behind a scheme would begin a host, so a dot parts them. -/
def printPath (u : Url) : List Char :=
  match u.path with
  | .plain text => text
  | .segments path =>
    match u.host, path with
    | none, [] :: _ :: _ => '/' :: '.' :: printSegments path
    | _, _ => printSegments path

def printHost (u : Url) : List Char :=
  match u.host with
  | none => []
  | some h => '/' :: '/' :: u.printUser ++ h.print ++ u.printPort

def print (u : Url) : List Char :=
  u.scheme ++ ':' :: u.printHost ++ u.printPath ++ (u.query.map ('?' :: ·)).getD [] ++
    (u.fragment.map ('#' :: ·)).getD []

def toText (u : Url) : String := String.ofList u.print

end Url

end LogDesk
