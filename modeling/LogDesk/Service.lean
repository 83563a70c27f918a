import LogDesk.Api.Call

/-! Services: what answers the calls of a console. -/

namespace LogDesk

/-- A service settles how a call ends when the call is made, and delivers it some milliseconds
later. -/
class LogService (ς : Type) where
  ask : ς → (c : Call) → ς × c.Outcome × Nat

/-- A server that answers requests over HTTP, by replies that are known beforehand. -/
structure Remote where
  base : Url
  /-- The replies to the next requests, in order. -/
  replies : List Api.Reply := []
  /-- The reply to each request after those. -/
  otherwise : Api.Reply
  /-- The requests so far, the latest first. -/
  requests : List Api.Request := []

namespace Remote

/-- Sends the request of a call. No request goes to what is no HTTP server. -/
def send (s : Remote) (c : Call) : Remote :=
  if Api.isHttp s.base then
    { s with replies := s.replies.drop 1, requests := Api.request s.base c :: s.requests }
  else s

def ask (s : Remote) (c : Call) : Remote × c.Outcome × Nat :=
  (s.send c, Api.outcome s.base c (s.replies.head?.getD s.otherwise), 0)

instance : LogService Remote := ⟨ask⟩

end Remote

structure Rehearsed where
  records : List Record := []
  stopped : List StopOutcome := []
  started : String := ""
  jobs : List String := []
  raw : Json.Value := .null
  /-- The calls that fail, by name. -/
  failures : List (String × ApiError) := []
  /-- How long the next calls of a name take. -/
  delays : List (String × List Nat) := []

namespace Rehearsed

def callName : Call → String
  | .stopAll => "stop_all"
  | .startJob _ => "start_job"
  | .triggerError => "trigger_error"
  | .createEntry _ => "create_log"
  | .listRecords => "list_logs"
  | .listRaw => "list_logs_raw"
  | .listJobs => "active_jobs"
  | .stopJob _ => "stop_job"

def answer (s : Rehearsed) : (c : Call) → c.Answer
  | .stopAll => s.stopped
  | .startJob _ => ⟨s.started⟩
  | .listRecords => s.records
  | .listRaw => s.raw
  | .listJobs => s.jobs.map fun id => ⟨id⟩
  | .triggerError | .createEntry _ | .stopJob _ => ()

def outcome (s : Rehearsed) (c : Call) : c.Outcome :=
  match s.failures.lookup (callName c) with
  | some e => .error e
  | none => .ok (s.answer c)

def popDelay (name : String) : List (String × List Nat) → List (String × List Nat) × Nat
  | [] => ([], 0)
  | (n, ms) :: rest =>
    if n = name then ((n, ms.drop 1) :: rest, ms.head?.getD 0)
    else
      let (rest, d) := popDelay name rest
      ((n, ms) :: rest, d)

def ask (s : Rehearsed) (c : Call) : Rehearsed × c.Outcome × Nat :=
  let (delays, d) := popDelay (callName c) s.delays
  ({ s with delays }, s.outcome c, d)

instance : LogService Rehearsed := ⟨ask⟩

end Rehearsed

end LogDesk
