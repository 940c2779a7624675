import AccessGroups.Command.Run
import AccessGroups.Store.Files
import AccessGroups.Store.Saved
import Std.Time.DateTime.Timestamp

/-!
# The command line program

Reads the arguments, the environment and the database file, runs a command, and saves the database.
The log goes to standard error. The daemon sweeps until the process is ended, and saves the database
after every sweep.
-/

namespace AccessGroups.Main

/-- The environment variables that the program looks at. -/
def variableNames : List String :=
  ["DATABASE_URL", "WARDEN_METRICS_ADDR"] ++
    ([.interval, .initialDelay, .jitter, .operator, .bypass] : List Variable).map Variable.name

/-- The texts of the environment variables. -/
def readEnvironment : IO Environment := do
  let values ← variableNames.mapM fun name => return (name, ← IO.getEnv name)
  return fun name => (values.find? fun v => v.1 = name).bind fun v => v.2

/-- The current time. -/
def readClock : IO Timestamp := do
  let nanos := (← Std.Time.Timestamp.now).toNanosecondsSinceUnixEpoch.toInt
  return ⟨Int.fdiv nanos 1000000000, (Int.fmod nanos 1000000000).toNat⟩

/-- A fresh name for a run: the milliseconds of the clock, a version and random bits. -/
def freshRunId : IO RunId := do
  let t ← readClock
  let millis := (t.seconds * 1000).toNat + t.nanos / 1000000
  let random ← (← IO.getRandomBytes 10).toList.foldlM (fun n b => return n * 256 + b.toNat) 0
  let low := random % Nat.pow 2 62
  let high := random / Nat.pow 2 62 % 4096
  return .ofNat (millis % Nat.pow 2 48 * Nat.pow 2 80 + 7 * Nat.pow 2 76 + high * Nat.pow 2 64 +
    2 * Nat.pow 2 62 + low)

/-- Print the log; the events for debugging are left out. -/
def printLog (w : World) : IO Unit := do
  for e in w.log.reverse do
    if e.level ≠ .debug then IO.eprintln e.text

/-- The database in a file. -/
def loadFile (path : String) : IO (Option Database) := do
  try
    let text ← IO.FS.readFile path
    if text.trimAscii.isEmpty then return some {}
    return (Json.Source.ofString? text).bind Database.ofJson?
  catch _ => return none

/-- Save a database in the file in which its changes are kept. -/
def save (file : Option String) (w : World) : IO Unit := do
  if let (some path, .database _ d) := (file, w.backend) then
    IO.FS.writeFile path (d.toJson.pretty ++ "\n")

/-- Create an empty file where there is none. -/
def createFile (path : String) : IO Bool := do
  try
    let _ ← IO.FS.Handle.mk path .writeNew
    return true
  catch _ => return false

/-- Open the database at a location, with the file in which its changes are kept. -/
def openDatabase (url : String) : IO (Except DatabaseError (Database × Option String)) := do
  match Location.ofUrl url >>= Opening.ofLocation with
  | .error e => return .error e
  | .ok o =>
    let path := FilePath.ofText [] o.path
    let found ← if o.isKept then loadFile o.path else pure none
    let missing := o.isKept && found.isNone
    let created ← if missing && o.access = .create then createFile o.path else pure false
    let files : Files := {
      databases := (found.map fun d => (path, d)).toList
      directories := if created then [path.dropLast] else [] }
    return (files.openUrl url).map fun opened => (opened.data, opened.file.map fun _ => o.path)

/-- Sweep on a timetable until the process is ended. -/
partial def serveLoop (file : Option String) (operator : UserId) (t : Timetable)
    (delay : Duration) (start : Nat) (stage : Stage) (w : World) : IO Unit := do
  let now := (← IO.monoMsNow) - start
  match stage.step t.interval.millis delay.millis now false with
  | some (move, stage) =>
    let after := Command.makeMove operator t delay w move
    printLog after
    if move = .sweep then save file after
    serveLoop file operator t delay start stage { after with log := [] }
  | none =>
    match stage.due? with
    | none => return ()
    | some due =>
      IO.sleep (min (due - now) 1000000000).toUInt32
      serveLoop file operator t delay start stage w

/-- Begin to sweep on the timetable of the settings. -/
def serve (env : Environment) (file : Option String) (overrides : Command.Overrides)
    (address : Option Command.SocketAddress) (w : World) : IO UInt32 := do
  match Command.prepareServe env overrides address with
  | .error e =>
    IO.eprintln ("Error: " ++ e.diagnostic)
    return 1
  | .ok (operator, t) =>
    let draw ← IO.rand 0 t.jitterMillis
    let w := Command.opening address w
    printLog w
    let delay := t.firstDelay ⟨draw % (t.jitterMillis + 1), Nat.mod_lt _ (Nat.succ_pos _)⟩
    serveLoop file operator t delay (← IO.monoMsNow) .fresh { w with log := [] }
    return 0

end AccessGroups.Main

open AccessGroups in
/-- The program. -/
def main (args : List String) : IO UInt32 := do
  let env ← Main.readEnvironment
  match Command.parse? env args with
  | none =>
    IO.eprintln "error: the command line was refused"
    return 2
  | some invocation =>
    match ← Main.openDatabase invocation.databaseUrl with
    | .error e =>
      IO.eprintln ("Error: " ++ e.toStoreError.diagnostic)
      return 1
    | .ok (data, file) =>
      let w : World := { backend := .database .standard data }
      match invocation.request with
      | .serve overrides address => Main.serve env file overrides address w
      | request =>
        let run ← Main.freshRunId
        let started ← Main.readClock
        let (ending, after) := Command.run env "SIGTERM" (fun _ => true) 0 w request
        Main.printLog after
        Main.save file after
        let text := ending.output.text ⟨run, started, ← Main.readClock⟩
        unless text.isEmpty do IO.println text
        if let some e := ending.error then IO.eprintln ("Error: " ++ e.diagnostic)
        return ending.exit.toUInt32
