import LogDesk.Api.Error
import LogDesk.Api.Resource
import LogDesk.Log.EntryForm
import LogDesk.Text.Base64
import LogDesk.Wire

/-! Calls of the server: the request that each sends, and what it makes of the reply. -/

namespace LogDesk

inductive Call where
  | stopAll
  | startJob (seconds : UInt32)
  | triggerError
  | createEntry (form : EntryForm)
  | listRecords
  | listRaw
  | listJobs
  | stopJob (id : String)
  deriving DecidableEq

/-- What a call gives when it succeeds. -/
abbrev Call.Answer : Call → Type
  | stopAll => List StopOutcome
  | startJob _ => StartedJob
  | listRecords => List Record
  | listRaw => Json.Value
  | listJobs => List RunningJob
  | triggerError | createEntry _ | stopJob _ => Unit

abbrev Call.Outcome (c : Call) : Type := Except ApiError c.Answer

namespace Api

inductive Method where
  | get
  | post
  deriving DecidableEq, Repr

structure Request where
  method : Method
  url : Url
  contentType : Option String := none
  authorization : Option String := none
  body : Option String := none

def withoutUser (u : Url) : Url := { u with user := [], password := [] }

/-- The header by which a user that a URL names is known to the server. -/
def authorization? (u : Url) : Option String :=
  if u.user.isEmpty && u.password.isEmpty then none
  else some <| String.ofList <| "Basic ".toList ++
    Text.base64 (Url.decode u.user ++ 0x3A :: Url.decode u.password)

/-- The names that lead from the log resource to what a call is for. -/
def names : Call → List (List Char)
  | .stopAll => ["stop".toList]
  | .startJob seconds => ["start".toList, Text.digits seconds.toNat]
  | .triggerError => ["error".toList]
  | .listJobs => ["active".toList]
  | .stopJob id => ["stop".toList, id.toList]
  | .createEntry _ | .listRecords | .listRaw => []

def endpoint (base : Url) (c : Call) : Url :=
  match names c with
  | [] => base
  | names => base.below names

def method : Call → Method
  | .triggerError | .listRecords | .listRaw | .listJobs => .get
  | .stopAll | .startJob _ | .createEntry _ | .stopJob _ => .post

def request (base : Url) (c : Call) : Request :=
  let url := endpoint base c
  let plain : Request :=
    { method := method c, url := withoutUser url, authorization := authorization? url }
  match c with
  | .createEntry form =>
    { plain with contentType := some "application/json", body := some form.toJson.compact }
  | _ => plain

/-- What comes back for a request. Headers of an answer are left out, and so is what they may say of the
characters of its body. -/
inductive Reply where
  /-- An answer. `whole` says whether its body came to its end. -/
  | answer (status : Nat) (body : List UInt8) (whole : Bool)
  /-- The connection was closed before any answer. -/
  | closed
  /-- Nothing came in time. -/
  | hung

/-- The text of a body that is UTF-8. Broken pieces are replaced, and a mark of its byte order is passed
over. Other encodings are left out, also where such a mark would tell them (UTF-16). -/
def bodyText (body : List UInt8) : String :=
  match Text.ofUtf8Lossy body with
  | '\uFEFF' :: cs => String.ofList cs
  | cs => String.ofList cs

def undecodable {α : Type} : Json.Reading α → Except ApiError α
  | .ok a => .ok a
  | .error _ => .error (.request .undecodable)

/-- Reads the body of an answer that is a success. Calls without a result do not look at it. -/
def readBody (body : List UInt8) : (c : Call) → c.Outcome
  | .stopAll => undecodable (parseMany StopOutcome.read body)
  | .startJob _ => undecodable (parseOne StartedJob.read body)
  | .listRecords => undecodable (parseMany Record.read body)
  | .listRaw => undecodable (Json.Value.parse body)
  | .listJobs => undecodable (parseMany RunningJob.read body)
  | .triggerError | .createEntry _ | .stopJob _ => .ok ()

def readsBody : Call → Bool
  | .triggerError | .createEntry _ | .stopJob _ => false
  | _ => true

def readAnswer (status : Nat) (body : List UInt8) (whole : Bool) (c : Call) : c.Outcome :=
  if isSuccess status then
    if readsBody c && !whole then .error (.request .undecodable) else readBody body c
  else .error (.status status (if whole then bodyText body else "<unreadable body>"))

def isHttp (u : Url) : Bool := u.scheme == "http".toList || u.scheme == "https".toList

/-- How a call ends, by the reply to its request. A request to no HTTP server is not sent. -/
def outcome (base : Url) (c : Call) (reply : Reply) : c.Outcome :=
  let url := withoutUser (endpoint base c)
  if !isHttp url then .error (.request (.notHttp url.toText))
  else match reply with
    | .closed => .error (.request (.notAnswered url.toText))
    | .hung => .error (.request (.timedOut url.toText))
    | .answer status body whole =>
      if isBodyless status then readAnswer status [] true c else readAnswer status body whole c

end Api

end LogDesk
