import LogDesk.Session

/-! The command line: a session on the environment, the disk and the terminal. Requests are not sent
from here, so each counts as one that nobody answered. -/

namespace LogDesk.Main

def named (name : String) : IO (Option (String × String)) := do
  return (← IO.getEnv name).map fun v => (name, v)

def environment : IO (List (String × String)) := do
  return (← named Config.serverName).toList ++ (← named Config.preferencesName).toList

def settingsFile : IO (Option (List Char)) := do
  try
    return Text.ofUtf8? (← IO.FS.readBinFile ".env").toList
  catch _ => return none

/-- A disk on which only what stands at a path is known. -/
def diskAt (path : String) : IO Node := do
  let names := Path.ofText path
  let place (n : Node) : Node := (names.dropLast.foldr (fun name n => .folder [(name, n)])
    (.folder ((names.getLast?.map fun name => (name, n)).toList)))
  try
    return place (.file (← IO.FS.readBinFile path).toList)
  catch
    | .inappropriateType _ 20 _ => return .folder ((names.head?.map fun n => (n, .file [])).toList)
    | .inappropriateType _ _ _ => return place .empty
    | _ => return .empty

/-- Writes the preferences where the session has changed them. -/
def save (path : String) (before : Node) (r : Session.Runner) : IO Unit := do
  let store := r.state.world.store
  match store.disk.read store.path, before.read store.path with
  | .ok content, old =>
    if old.toOption != some content then
      try
        let folder := "/".intercalate (path.splitOn "/").dropLast
        if folder != "" then IO.FS.createDirAll folder
        IO.FS.writeBinFile path ⟨content.toArray⟩
      catch _ => return
  | _, _ => return

def onDisk (disk : Node) (r : Session.Runner) : Session.Runner :=
  let d := r.state.world
  { r with state := { r.state with world := { d with store := { d.store with disk } } } }

/-- Prints what the view was told since `told`, and gives how much it has been told now. -/
def flush (told : Nat) (r : Session.Runner) : IO Nat := do
  let calls := Session.shown r told
  IO.print (String.ofList (Terminal.printAll calls))
  (← IO.getStdout).flush
  return told + calls.length

partial def loop (path : String) (started told : Nat) (r : Session.Runner) : IO UInt32 := do
  let stdin ← IO.getStdin
  let line ← (do return (← stdin.getLine)) <|> return ""
  let disk ← diskAt path
  let r := Console.advance ((← IO.monoMsNow) - started - r.state.now) (onDisk disk r)
  let command := Command.parse line.toList
  if line.isEmpty || Script.event? command == some .quit then
    let _ ← flush told (Session.finish r)
    return 0
  let (r, notices) := Session.play r [command]
  for n in notices do IO.eprintln n
  save path disk r
  loop path started (← flush told r) r

end LogDesk.Main

def main : IO UInt32 := do
  let config := LogDesk.Config.ofEnvironment (← LogDesk.Main.environment) (← LogDesk.Main.settingsFile)
  let disk ← LogDesk.Main.diskAt config.preferences
  match LogDesk.Session.start? { config, disk, otherwise := .closed } with
  | none => return 1
  | some r =>
    LogDesk.Main.save config.preferences disk r
    IO.eprintln LogDesk.Command.helpText
    LogDesk.Main.loop config.preferences (← IO.monoMsNow) (← LogDesk.Main.flush 0 r) r
