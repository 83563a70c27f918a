import LogDesk.Config
import LogDesk.Console
import LogDesk.Preferences.FileStore
import LogDesk.Script
import LogDesk.Terminal

/-! A session at a terminal: a console on a server and a file of preferences, and the commands that it
is given. -/

namespace LogDesk.Session

abbrev Runner := Console.Runner Remote FileStore

/-- What a session has at its start: the server's replies, and the disk with the preferences. -/
structure Setting where
  config : Config
  disk : Node
  replies : List Api.Reply := []
  otherwise : Api.Reply

/-- The session before its first command; none where the server URL or the preferences are bad. The
log is fetched once. -/
def start? (s : Setting) : Option Runner := do
  let base ← Api.resolve? s.config.server
  let store ← (FileStore.open? s.disk (Path.ofText s.config.preferences)).toOption
  let service : Remote := { base, replies := s.replies, otherwise := s.otherwise }
  let r ← (Console.start service store 0).toOption
  return Console.settle (Console.apply .refresh r)

/-- Takes one event: a request is handed to a task, all others are applied at once. -/
def take (e : Event) (r : Runner) : Runner :=
  Console.settle (if e.isRequest then Console.dispatch e r else Console.apply e r)

/-- Takes commands up to the first that quits, and gives what is said of those that are no events. -/
def play (r : Runner) : List (Except CommandError Command) → Runner × List String
  | [] => (r, [])
  | c :: rest =>
    match Script.event? c with
    | some .quit => (r, [])
    | some e => play (take e r) rest
    | none =>
      let (r, notices) := play r rest
      (r, (Script.notice? c).toList ++ notices)

def finish (r : Runner) : Runner := Console.settle (Console.shutdown r)

def shown (r : Runner) (told : Nat) : List ViewCall :=
  (r.state.world.log.reverse.filterMap fun e =>
    match e.act with
    | .shown v => some v
    | .asked _ => none).drop told

def output (r : Runner) : String := String.ofList (Terminal.printAll (shown r 0))

def notices (ns : List String) : String :=
  String.join ((Command.helpText :: ns).map (· ++ "\n"))

end LogDesk.Session
