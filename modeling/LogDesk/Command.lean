import LogDesk.Event
import LogDesk.Text.Quoted
import LogDesk.Text.Utf8

/-! Commands: what a typed line means, and what is said of a line that means nothing. -/

namespace LogDesk

inductive Command where
  | event (e : Event)
  | help
  | empty
  deriving DecidableEq

/-- The commands that take words of their own. -/
inductive Usage where
  | stop
  | log
  | auto
  | interval
  | expand
  | collapse
  | dismiss
  deriving DecidableEq

def Usage.text : Usage → String
  | stop => "stop <job-id>"
  | log => "log <LEVEL> [--exception] <message>"
  | auto => "auto on|off"
  | interval => "interval <secs>"
  | expand => "expand <row>"
  | collapse => "collapse <row>"
  | dismiss => "dismiss <toast-id>"

inductive CommandError where
  | missing (usage : Usage)
  | notOnOff (word : List Char)
  | notNumber (word : List Char) (usage : Usage)
  | notToast (word : List Char)
  | unknown (word : List Char)
  deriving DecidableEq

def CommandError.message : CommandError → String
  | missing usage => "usage: " ++ usage.text
  | notOnOff word => "expected on or off, got " ++ String.ofList (Text.quote word)
  | notNumber word usage =>
    "not a number: " ++ String.ofList (Text.quote word) ++ " (usage: " ++ usage.text ++ ")"
  | notToast word => "not a toast id: " ++ String.ofList (Text.quote word)
  | unknown word => "unknown command " ++ String.ofList (Text.quote word) ++ ", type help"

namespace Command

def required (usage : Usage) : List (List Char) → Except CommandError (List Char)
  | [] => .error (.missing usage)
  | w :: _ => .ok w

/-- The first word as a number below a bound. -/
def number (usage : Usage) (bound : Nat) (ws : List (List Char)) : Except CommandError Nat := do
  let w ← required usage ws
  match Text.numeralBelow? bound w with
  | some n => return n
  | none => throw (.notNumber w usage)

/-- A level, then maybe the wish for an exception, then the words of the message. -/
def logEntry : List (List Char) → Except CommandError Event
  | [] => .error (.missing .log)
  | level :: rest =>
    let exception := rest.head? = some "--exception".toList
    let message := if exception then rest.drop 1 else rest
    if message.isEmpty then .error (.missing .log)
    else .ok <| .submitEntry <| .entry (String.ofList (level.map Char.toUpper))
      (String.ofList (Text.unwords message)) exception

def autoRefresh (ws : List (List Char)) : Except CommandError Event := do
  let w ← required .auto ws
  match String.ofList w with
  | "on" => return .setAutoRefresh true
  | "off" => return .setAutoRefresh false
  | _ => throw (.notOnOff w)

def dismissal (ws : List (List Char)) : Except CommandError Event := do
  let w ← required .dismiss ws
  match Uuid.parse? w with
  | some id => return .dismissToast id
  | none => throw (.notToast w)

/-- What a line of these words means. Words that a command has no need of are passed over. -/
def ofWords : List (List Char) → Except CommandError Command
  | [] => .ok .empty
  | name :: ws =>
    match String.ofList name with
    | "help" | "?" => .ok .help
    | "quit" | "exit" => .ok (.event .quit)
    | "start" => .ok (.event .startJob)
    | "stop-all" => .ok (.event .stopAll)
    | "stop" => (required .stop ws).map fun w => .event (.stopJob (String.ofList w))
    | "error" => .ok (.event .triggerError)
    | "refresh" => .ok (.event .refresh)
    | "jobs" => .ok (.event .openJobs)
    | "close-jobs" => .ok (.event .closeJobs)
    | "json" => .ok (.event .showRawJson)
    | "log" => (logEntry ws).map .event
    | "auto" => (autoRefresh ws).map .event
    | "interval" =>
      (number .interval UInt32.size ws).map fun n => .event (.setInterval (UInt32.ofNat n))
    | "expand" => (number .expand UInt64.size ws).map fun n => .event (.expandRow n)
    | "collapse" => (number .collapse UInt64.size ws).map fun n => .event (.collapseRow n)
    | "dismiss" => (dismissal ws).map .event
    | _ => .error (.unknown name)

def parse (line : List Char) : Except CommandError Command := ofWords (Text.words line)

def helpText : String :=
  "Commands:
  start                              start a job with the configured interval
  stop-all                           stop every running job
  stop <job-id>                      stop one job
  error                              make the server log an error
  refresh                            reload the log table
  jobs | close-jobs                  open or close the active-jobs table
  json                               show every log entry as raw JSON
  log <LEVEL> [--exception] <msg>    write a log entry
  auto on|off                        toggle auto-refresh
  interval <secs>                    set the job interval
  expand <row> | collapse <row>      open or close a row's details
  dismiss <toast-id>                 remove a toast
  help | quit"

end Command

end LogDesk
