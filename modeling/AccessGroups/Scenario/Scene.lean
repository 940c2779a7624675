import AccessGroups.Scenario.Act
import AccessGroups.Scenario.Step

/-!
# The scene of a scenario

The scene is the world of a scenario together with its watches and what has been observed. Every
call that a service makes is noted, counted by the watches and perhaps disturbed by them before the
world answers it. Several threads act on the scene: the steps of the scenario, and the tasks that
sweep on timetables.

## Main definitions

* `Scenario.Scene`: the world, the watches and the observations.
* `Scenario.launch`: starting a task on a timetable.
* `Scenario.handle`: answering an operation of a program on the scene.
* `Scenario.perform`: what a step does.
-/

namespace AccessGroups.Scenario

/-- A watch with the number of calls that it has counted. -/
structure Watch where
  method : String
  arguments : Option String
  first : Nat
  times : Nat
  fault : Option Fault
  cancels : Bool
  steps : List Step
  seen : Nat := 0

namespace Watch

/-- The watch counts the call. -/
def counts (w : Watch) (c : Call) : Bool :=
  w.method = c.method && w.arguments.all (· = c.arguments)

/-- The watch fires on the call that it counted last. -/
def fires (w : Watch) : Bool :=
  w.first ≤ w.seen && w.seen < w.first + w.times

end Watch

/-- The threads that act on a scene: the steps, and the tasks that sweep on timetables. -/
inductive Thread where
  | main
  | task (number : Nat)
  deriving DecidableEq, Repr

/-- The world of a scenario with its watches and what has been observed. -/
structure Scene where
  world : World
  operator : UserId
  watches : List Watch := []
  /-- The calls that have been made, the last one first. -/
  calls : List Call := []
  nested : List Result := []
  /-- The request to cancel the innermost sweep among the steps, if there is one. -/
  sweepCancelled : Option Bool := none
  /-- The number of tasks that have been started. -/
  started : Nat := 0
  /-- The task started last, unless it has been stopped. -/
  current : Option Nat := none
  /-- The tasks whose cancellation has been requested. -/
  cancelledTasks : List Nat := []

namespace Scene

/-- Change the world. -/
def onWorld {α : Type} (f : World → α × World) (s : Scene) : α × Scene :=
  let (a, world) := f s.world
  (a, { s with world })

/-- Say something in the log. -/
def say (e : Event) (s : Scene) : Scene :=
  { s with world := s.world.say e }

/-- Note a call and count it. Returns the watches that fire on it. -/
def observe (c : Call) (s : Scene) : List Watch × Scene :=
  let counted := s.watches.map fun w =>
    if w.counts c then { w with seen := w.seen + 1 } else w
  (counted.filter fun w => w.counts c && w.fires,
    { s with watches := counted, calls := c :: s.calls })

/-- Request the cancellation of the current task, if there is one. -/
def cancelTask (s : Scene) : Scene :=
  { s with cancelledTasks := s.current.toList ++ s.cancelledTasks }

/-- Request the cancellation of the sweep among the steps, or else of the current task. -/
def cancel (s : Scene) : Scene :=
  match s.sweepCancelled with
  | some _ => { s with sweepCancelled := some true }
  | none => s.cancelTask

/-- Whether the sweep of a thread has been cancelled. -/
def isCancelled (s : Scene) : Thread → Bool
  | .main => s.sweepCancelled.getD false
  | .task number => s.cancelledTasks.contains number

end Scene

/-- Acts on a scene. -/
abbrev SceneAct := Act Scene

/-- The call fails with the fault, if the fault is one of its kind. -/
def Fault.answer? : Fault → (c : Call) → Option c.Answer
  | .store e, .store _ => some (.error e)
  | .store e, .registry _ => some (.error e)
  | .principal e, .principal _ => some (.error e)
  | _, _ => none

/-- Start a task on a timetable with a random draw for its first delay; it is the current one. -/
def launch (t : Timetable) (draw : Fin (t.jitterMillis + 1)) : SceneAct Result := do
  let number ← Act.modify fun s =>
    (s.started, { s with started := s.started + 1, current := some s.started })
  .start number t.interval.millis (t.firstDelay draw).millis (.done .done)

section

variable (nested : Step → SceneAct Result)

/-- Run the steps of a watch; their results are noted in the order of completion. -/
def runNested : List Step → SceneAct Unit
  | [] => return ()
  | step :: rest => do
    let result ← nested step
    Act.update fun s => { s with nested := s.nested ++ [result] }
    runNested rest

/-- Let watches fire: all request cancellation first and run their steps then. Returns the first
fault among them. -/
def fire (firing : List Watch) : SceneAct (Option Fault) := do
  if firing.any fun w => w.cancels then Act.update Scene.cancel
  runNested nested (firing.flatMap fun w => w.steps)
  return firing.findSome? fun w => w.fault

/-- Answer an operation of a program that a thread runs. -/
def handle (thread : Thread) : (op : Op) → SceneAct (Option op.Answer)
  | .call c => do
    let firing ← Act.modify (Scene.observe c)
    match (← fire nested firing).bind (·.answer? c) with
    | some answer => return some answer
    | none => Act.modify (Scene.onWorld (·.answer c))
  | .poll => Act.read fun s => some (s.isCancelled thread)
  | op => Act.modify (Scene.onWorld (·.handle op))

/-- Run a program on the scene. -/
def runProgram {α : Type} (thread : Thread) (p : Prog α) : SceneAct (Option α) :=
  p.exec (handle nested thread)

/-- Make several allocations at once, during which time passes so many times at most. There is no
result as soon as one of them has none. -/
def allocateMany (thread : Thread) (rounds count : Nat) :
    SceneAct (Option (List (Except StoreError GroupId))) := do
  let allocation := runProgram nested thread (Prog.store .allocateGroup)
  let answers ← Act.join Option.isNone rounds (List.replicate count allocation)
  return answers.bind fun answers => answers.mapM id

/-- The identifiers of allocations made at once in ascending order, or the first failure. -/
def collect (answers : Option (List (Except StoreError GroupId))) : Result :=
  .ofRun .store (fun gs => .groups (Identifier.sorted gs)) (answers.map fun gs => gs.mapM id)

/-- Spoil a database. -/
def spoil (what : Damage) (d : Database) : Database :=
  let onMigrations (f : Migration → Migration) : Database :=
    { d with migrations := d.migrations.map fun record => record.map f }
  match what with
  | .entriesTable => d.dropEntries
  | .sequenceTable => { d with sequence := .dropped }
  | .sequenceRow => if d.sequence = .dropped then d else { d with sequence := .empty }
  | .checksum => onMigrations fun m => { m with checksum := .altered }
  | .dirtyMigration => onMigrations fun m => { m with success := 0 }
  | .unknownMigration =>
    { d with migrations := d.migrations.map fun record => Migration.append record 99999999999999 }

/-- What another writer does behind the services; there may be no result. -/
def writeBehind (step : Step) (b : Backend) : Option Backend :=
  match step, b with
  | .insertRaw entry, .memory store registry =>
    (store.insertRaw? entry).map (.memory · registry)
  | .insertRaw entry, .database tables data => some (.database tables (data.insertRaw entry))
  | .put kind row, .memory store registry =>
    some (.memory store (registry.put kind ⟨row.resource, row.groupOrZero⟩))
  | .put kind row, .database tables data =>
    some (.database tables (data.putResource (tables.table kind) row))
  | .dropTable kind, .database tables data =>
    some (.database tables (data.dropTable (tables.table kind).table))
  | .damage what, .database tables data => some (.database tables (spoil what data))
  | _, b => some b

/-- Let another writer act. -/
def write (step : Step) (s : Scene) : Result × Scene :=
  match writeBehind step s.world.backend with
  | some backend => (.done, { s with world := { s.world with backend } })
  | none => (.crashed, s)

/-- Open the database again; if that fails, it stays as it is. -/
def reopen (s : Scene) : Result × Scene :=
  match s.world.backend with
  | .database tables data =>
    match data.migrate with
    | .ok data => (.done, { s with world := { s.world with backend := .database tables data } })
    | .error e => (.failed (.store e.toStoreError), s)
  | .memory _ _ => (.done, s)

/-- The settings of checks that may be bypassed, announced as such. -/
def prepared {α : Type} (bypass : Bool) (p : AccessSettings → Prog α) : Prog α := do
  Access.prepare ⟨bypass⟩
  p ⟨bypass⟩

/-- What a step of a thread does, during which time passes so many times at most. -/
def perform (rounds : Nat) (thread : Thread) : Step → SceneAct Result
  | .reopen => Act.modify reopen
  | .become user units => do
    let principals := units.foldl (fun p u => p.withUnits u.1 u.2) ({ user } : Principals)
    Act.update fun s => { s with world := { s.world with principals } }
    return .done
  | .watch method arguments first times fault cancels steps => do
    let w : Watch := { method, arguments, first, times, fault, cancels, steps }
    Act.update fun s => { s with watches := s.watches ++ [w] }
    return .done
  | .clearWatches => do
    Act.update fun s => { s with watches := [] }
    return .done
  | .store c => return .ofRun .store (Result.ofStoreValue c) (← runProgram nested thread (.store c))
  | .registry c =>
    return .ofRun .store (Result.ofRegistryValue c) (← runProgram nested thread (.registry c))
  | .allocate count => return collect (← allocateMany nested thread rounds count)
  | .groups request => return (← runProgram nested thread request.program).getD .crashed
  | .check mask group bypass =>
    return .ofRun .service .granted
      (← runProgram nested thread (prepared bypass (Access.satisfies · group mask)))
  | .authenticate bypass =>
    return .ofRun .service .user
      (← runProgram nested thread (prepared bypass fun _ => Access.currentUser))
  | .remove kind resource =>
    return .ofRun .service (fun _ => .done)
      (← runProgram nested thread (Removal.deleteResource kind resource))
  | .sweep cancelled => do
    let (operator, outer) ← Act.read fun s => (s.operator, s.sweepCancelled)
    Act.update fun s => { s with sweepCancelled := some cancelled }
    let outcome ← runProgram nested .main (Sweep.runOnce operator)
    Act.update fun s => { s with sweepCancelled := outer }
    return .ofRun .service Result.ofOutcome outcome
  | .metrics => Act.read fun s => .recorded s.world.recorder
  | .schedule interval delay jitter =>
    match Timetable.ofParts (.ofMillis (UInt64.ofNat interval)) (.ofMillis (UInt64.ofNat delay))
        (.ofMillis (UInt64.ofNat jitter)) with
    | .error e => return .failed (.setting e)
    | .ok t => launch t ⟨0, Nat.succ_pos _⟩
  | .sleep millis => .sleep millis (.done .done)
  | .stop => do
    match ← Act.modify fun s => (s.current, { s.cancelTask with current := none }) with
    | none => return .done
    | some number => .await number fun crashed => .done (if crashed then .crashed else .done)
  | step => Act.modify (write step)

end

/-- What a step does, when the steps of watches weigh so much at most. -/
def performWithin : Nat → Thread → Step → SceneAct Result
  | 0, thread => perform (fun _ => return .done) 0 thread
  | weight + 1, thread => perform (performWithin weight thread) (weight + 1) thread

/-- A run of the sweep by a task on a timetable. The value says whether it was abandoned. -/
def scheduledRun (weight number : Nat) : SceneAct Bool := do
  let operator ← Act.read fun s => s.operator
  let thread := Thread.task number
  match ← runProgram (performWithin weight thread) thread (Sweep.runOnce operator) with
  | some outcome =>
    Act.update <| Scene.say <|
      match outcome with
      | .ok (.completed r) => .scheduledFinished r.repairs
      | .ok .skipped => .scheduledSkipped
      | .error e => .scheduledAborted e
    return false
  | none => return true

end AccessGroups.Scenario
