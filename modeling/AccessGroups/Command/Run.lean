import AccessGroups.Command.Arguments
import AccessGroups.Program.World
import AccessGroups.Schedule
import AccessGroups.Service.Access
import AccessGroups.Service.Removal
import AccessGroups.Sweep.Run

/-!
# Running a command

A command works on one database. The database is opened before the settings are read, and what the
command line gives replaces the settings of the environment only after those have been accepted.

## Main definitions

* `Command.mergeSettings`: the settings of a sweep.
* `Command.run`: a command that ends by itself.
* `Command.serve`: the daemon until it is told to stop.
-/

namespace AccessGroups.Command

/-- Why a command failed. -/
inductive CommandError where
  | store (e : StoreError)
  | setting (e : SettingError)
  | service (e : ServiceError)
  | busy
  /-- No connections can be taken at the address for metrics. -/
  | noListener
  deriving DecidableEq

/-- The failure in diagnostic form. -/
def CommandError.diagnostic : CommandError → String
  | .store e => e.diagnostic
  | .setting e => e.diagnostic
  | .service e => e.diagnostic
  | .busy => Text.Quoted.ofString "a sweep is already running"
  | .noListener =>
    "FailedToCreateHTTPListener(" ++
      Text.Quoted.ofString "Cannot assign requested address (os error 99)" ++ ")"

/-- The settings of the environment, with the parts that the command line replaces. -/
def mergeSettings (env : Environment) (o : Overrides) : Except SettingError SweepSettings := do
  let s ← SweepSettings.ofEnvironment env
  let merged : SweepSettings := {
    interval := (o.interval.map fun n => Duration.ofSecs n.toUInt64).getD s.interval
    initialDelay := (o.initialDelay.map fun n => Duration.ofSecs n.toUInt64).getD s.initialDelay
    jitter := (o.jitter.map fun n => Duration.ofSecs n.toUInt64).getD s.jitter
    operator := o.operator.getD s.operator }
  merged.validate
  return merged

/-- What a command prints. -/
inductive Output where
  | nothing
  | line (text : String)
  | summary (s : Summary)
  deriving DecidableEq

/-- The name and the times of a run of the sweep. -/
structure Stamp where
  run : RunId
  started : Timestamp
  finished : Timestamp

/-- The text that is printed; the report of a run carries the stamp. -/
def Output.text (stamp : Stamp) : Output → String
  | .nothing => ""
  | .line text => text
  | .summary s =>
    let report : Report :=
      { s with run := stamp.run, started := stamp.started, finished := some stamp.finished }
    report.toJson.pretty

/-- How a command ends: its exit code, what it prints, and what it reports as an error. -/
structure Ending where
  exit : Nat
  output : Output := .nothing
  error : Option CommandError := none
  deriving DecidableEq

/-- The command failed. -/
def Ending.failed (e : CommandError) : Ending :=
  { exit := 1, error := some e }

/-- Sweep once and print what was done. -/
def sweepOnce (env : Environment) (o : Overrides) (w : World) : Ending × World :=
  match mergeSettings env o with
  | .error e => (.failed (.setting e), w)
  | .ok s =>
    match w.run (Sweep.runOnce s.operator) with
    | (some (.ok (.completed summary)), w) => ({ exit := 0, output := .summary summary }, w)
    | (some (.error e), w) => (.failed (.service e), w)
    | (_, w) => (.failed .busy, w)

/-- Check whether a user has a privilege in a group. -/
def checkAccess (env : Environment) (group : GroupId) (user : UserId) (units : List UnitId)
    (privilege : Privilege) (w : World) : Ending × World :=
  match AccessSettings.ofEnvironment env with
  | .error e => (.failed (.setting e), w)
  | .ok settings =>
    let w := { w with principals := ({ user := some user } : Principals).withUnits user units }
    let check := do
      Access.prepare settings
      Access.satisfies settings group privilege.mask
    match w.run check with
    | (some (.ok true), w) => ({ exit := 0, output := .line "granted" }, w)
    | (some (.ok false), w) => ({ exit := 1, output := .line "denied" }, w)
    | (some (.error e), w) => (.failed (.service e), w)
    | (none, w) => (.failed .busy, w)

/-- Delete a resource with its group. -/
def deleteResource (kind : ResourceKind) (resource : ResourceId) (w : World) : Ending × World :=
  match w.run (Removal.deleteResource kind resource) with
  | (some (.ok ()), w) =>
    ({ exit := 0, output := .line ("deleted " ++ kind.name ++ " " ++ resource.text) }, w)
  | (some (.error e), w) => (.failed (.service e), w)
  | (none, w) => (.failed .busy, w)

/-! ### The daemon -/

/-- The operator and the timetable of the daemon, when it can serve metrics at the address. -/
def prepareServe (env : Environment) (o : Overrides) (address : Option SocketAddress) :
    Except CommandError (UserId × Timetable) := do
  match mergeSettings env o with
  | .error e => throw (.setting e)
  | .ok s =>
    if address.any fun a => a.host.isForeign then throw .noListener
    match Timetable.ofSettings s with
    | .error e => throw (.setting e)
    | .ok t => return (s.operator, t)

/-- What the daemon says when it begins. -/
def opening (address : Option SocketAddress) (w : World) : World :=
  match address with
  | some address => w.say (.exporterStarted address.text)
  | none => w

/-- One sweep of the daemon. -/
def scheduledSweep (operator : UserId) (w : World) : World :=
  match w.run (Sweep.runOnce operator) with
  | (some (.ok (.completed r)), w) => w.say (.scheduledFinished r.repairs)
  | (some (.ok .skipped), w) => w.say .scheduledSkipped
  | (some (.error e), w) => w.say (.scheduledAborted e)
  | (none, w) => w

/-- What the daemon does for a move of its task. -/
def makeMove (operator : UserId) (t : Timetable) (delay : Duration) (w : World) : Move → World
  | .announce => w.say (.scheduled t.interval.secs delay.secs)
  | .ready => w
  | .sweep => scheduledSweep operator w
  | .stop early => w.say (if early then .stoppedEarly else .stopped)

/-- Note the signal to stop once something in the log has called for it. -/
def noteSignal (signal : String) (calledFor : Event → Bool) (w : World) : World :=
  if !w.cancelled && w.log.any calledFor then
    { w.say (.signalReceived signal) with cancelled := true }
  else w

/-- The daemon until it has stopped, for so many moves at most. The clock goes on to the time at
which the task is due, unless the signal to stop has come. -/
def serve (operator : UserId) (t : Timetable) (delay : Duration) (signal : String)
    (calledFor : Event → Bool) : Nat → Stage → Nat → World → World
  | 0, _, _, w => w
  | moves + 1, stage, now, w =>
    let now := if w.cancelled then now else max now (stage.due?.getD now)
    match stage.step t.interval.millis delay.millis now w.cancelled with
    | none => w.say .shutdownComplete
    | some (next, stage) =>
      serve operator t delay signal calledFor moves stage now
        (noteSignal signal calledFor (makeMove operator t delay w next))

/-- Run a command that ends by itself, or the daemon until something in its log has called for a
signal to stop. -/
def run (env : Environment) (signal : String) (calledFor : Event → Bool) (moves : Nat)
    (w : World) : Request → Ending × World
  | .sweep o => sweepOnce env o w
  | .check group user units privilege => checkAccess env group user units privilege w
  | .deleteResource kind resource => deleteResource kind resource w
  | .serve o address =>
    match prepareServe env o address with
    | .error e => (.failed e, w)
    | .ok (operator, t) =>
      ({ exit := 0 },
        serve operator t (t.firstDelay 0) signal calledFor moves .fresh 0 (opening address w))

end AccessGroups.Command
