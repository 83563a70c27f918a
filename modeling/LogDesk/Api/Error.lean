import LogDesk.Api.Status
import LogDesk.Notification

/-! Why a call of the server failed, and what the user is told of it. -/

namespace LogDesk

/-- What befell a request that got no usable answer. -/
inductive RequestFailure where
  /-- The URL is of a scheme that is no HTTP. -/
  | notHttp (url : String)
  | notAnswered (url : String)
  | timedOut (url : String)
  | undecodable
  deriving DecidableEq, Repr

inductive ApiError where
  /-- The server URL cannot hold the log resource. -/
  | invalidServer (url : String)
  | request (failure : RequestFailure)
  /-- The server answered with a status that is no success. -/
  | status (code : Nat) (body : String)
  deriving DecidableEq, Repr

namespace RequestFailure

def message : RequestFailure → String
  | notHttp url => "builder error for url (" ++ url ++ ")"
  | notAnswered url => "error sending request for url (" ++ url ++ ")"
  | timedOut url => "error sending request for url (" ++ url ++ ")"
  | undecodable => "error decoding response body"

def word : RequestFailure → String
  | timedOut _ => "timeout"
  | undecodable => "parsererror"
  | _ => "error"

end RequestFailure

/-- A failure in short: a status, zero without an answer, a word for its kind, and the reason. -/
structure ErrorReport where
  status : Nat
  word : String
  reason : String
  deriving DecidableEq

namespace ErrorReport

def summary (r : ErrorReport) : String := toString r.status ++ " " ++ r.word ++ " " ++ r.reason

def notification (r : ErrorReport) : Notification := .requestFailed r.status r.word r.reason

end ErrorReport

namespace ApiError

def message : ApiError → String
  | invalidServer url => "Invalid server URL: " ++ url
  | request failure => "HTTP request failed: " ++ failure.message
  | status code body => "Log API error (" ++ toString code ++ "): " ++ body

def report : ApiError → ErrorReport
  | invalidServer url => ⟨0, "error", "Invalid server URL " ++ url⟩
  | request failure => ⟨0, failure.word, failure.message⟩
  | status code _ => ⟨code, "error", Api.phrase code⟩

end ApiError

end LogDesk
