import AccessGroups.Program.World
import AccessGroups.Schedule
import AccessGroups.Service.Access
import AccessGroups.Service.Groups
import AccessGroups.Service.Removal
import AccessGroups.Sweep.Run

/-!
# Steps of a scenario

A scenario drives a world step by step: it calls the services, writes behind their backs, and sets
watches that disturb later calls with failures, cancellation or further steps.

## Main definitions

* `Scenario.Step`: the steps.
* `Scenario.Result`: what a step results in.
* `Scenario.Step.weight`: a bound on what can happen because of a step.
-/

namespace AccessGroups.Scenario

/-- Ways to spoil a database. -/
inductive Damage where
  | entriesTable
  | sequenceTable
  | sequenceRow
  | checksum
  | dirtyMigration
  | unknownMigration
  deriving DecidableEq, Repr

/-- A failure that a watch puts in the place of an answer. -/
inductive Fault where
  | store (e : StoreError)
  | principal (e : PrincipalError)
  deriving DecidableEq, Repr

/-- Requests to the service of permission groups. -/
inductive GroupRequest where
  | findAll
  | findGroup (group : GroupId)
  | create (grant : Grant)
  | update (entry : Entry)
  | replaceGroup (group : GroupId) (grants : List Grant)
  | createGroup (grants : List Grant)
  | deleteGroup (group : GroupId)
  | deleteEntry (id : EntryId)
  | nextGroup
  | findDuplicates
  deriving DecidableEq

/-- A step of a scenario. -/
inductive Step where
  /-- Another writer stores a row under its own identifier. -/
  | insertRaw (entry : Entry)
  /-- Another writer adds a resource or overwrites its reference. -/
  | put (kind : ResourceKind) (row : HostRow)
  | dropTable (kind : ResourceKind)
  | damage (what : Damage)
  /-- Open the database again. -/
  | reopen
  /-- Set the current user and the units of users. -/
  | become (user : Option UserId) (units : List (UserId × List UnitId))
  /-- Watch the calls of a method, with certain arguments if they are given. Counting from one, the
  watch fires on the calls from `first` on, `times` times: it requests cancellation, runs steps, and
  lets the call fail. -/
  | watch (method : String) (arguments : Option String) (first times : Nat)
      (fault : Option Fault) (cancels : Bool) (steps : List Step)
  | clearWatches
  /-- Call the store directly. -/
  | store (call : StoreCall)
  /-- Call the resources directly. -/
  | registry (call : RegistryCall)
  /-- Ask for so many group identifiers at once. -/
  | allocate (count : Nat)
  | groups (request : GroupRequest)
  | check (mask : Privileges) (group : GroupId) (bypass : Bool)
  | authenticate (bypass : Bool)
  | remove (kind : ResourceKind) (resource : ResourceId)
  /-- Sweep once; cancellation may have been requested before. -/
  | sweep (cancelled : Bool)
  | metrics
  /-- Start to sweep on a timetable, in milliseconds. -/
  | schedule (interval delay jitter : Nat)
  /-- Let time pass. -/
  | sleep (millis : Nat)
  /-- Cancel the timetable and wait for its end. -/
  | stop

/-- A failure that ends a step. -/
inductive Failure where
  | store (e : StoreError)
  | service (e : ServiceError)
  | setting (e : SettingError)
  deriving DecidableEq, Repr

/-- What a step results in. -/
inductive Result where
  | done
  | entry (e : Entry)
  | entries (es : List Entry)
  | group (g : GroupId)
  | groups (gs : List GroupId)
  | count (n : Nat)
  | refs (rs : List GroupRef)
  | granted (b : Bool)
  | user (u : UserId)
  | summary (s : Summary)
  | skipped
  | recorded (r : Recorder)
  | failed (e : Failure)
  /-- The step ended without a result. -/
  | crashed

namespace Result

/-- The result of a step that may fail. -/
def ofExcept {ε α : Type} (failure : ε → Failure) (success : α → Result) : Except ε α → Result
  | .error e => .failed (failure e)
  | .ok a => success a

/-- The result of a program that may be abandoned. -/
def ofRun {ε α : Type} (failure : ε → Failure) (success : α → Result) :
    Option (Except ε α) → Result
  | none => .crashed
  | some r => ofExcept failure success r

/-- The result of a call to the store. -/
def ofStoreValue : (c : StoreCall) → c.Value → Result
  | .findAll, es => .entries es
  | .findGroup _, es => .entries es
  | .findDuplicateGroups, gs => .groups gs
  | .findMixed, es => .entries es
  | .insert _, e => .entry e
  | .update _, _ => .done
  | .deleteEntry _, _ => .done
  | .deleteGroup _, n => .count n
  | .replaceGroup _ _, es => .entries es
  | .allocateGroup, g => .group g

/-- The result of a call to the resources. -/
def ofRegistryValue : (c : RegistryCall) → c.Value → Result
  | .listRefs _, rs => .refs rs
  | .findRef _ _, g => .group g
  | .assign _ _ _, _ => .done
  | .delete _ _, _ => .done

/-- The result of a run of the sweep. -/
def ofOutcome : SweepOutcome → Result
  | .completed r => .summary r
  | .skipped => .skipped

end Result

/-- The program of a request, with its result. -/
def GroupRequest.program : GroupRequest → Prog Result
  | .findAll => return .ofExcept .service .entries (← Groups.findAll)
  | .findGroup group => return .ofExcept .service .entries (← Groups.findGroup group)
  | .create grant => return .ofExcept .service .entry (← Groups.create grant)
  | .update entry => return .ofExcept .service (fun _ => .done) (← Groups.update entry)
  | .replaceGroup group grants =>
    return .ofExcept .service .entries (← Groups.replaceGroup group grants)
  | .createGroup grants => return .ofExcept .service .group (← Groups.createGroup grants)
  | .deleteGroup group =>
    return .ofExcept .service (fun _ => .done) (← Groups.deleteGroup group)
  | .deleteEntry id => return .ofExcept .service (fun _ => .done) (← Groups.deleteEntry id)
  | .nextGroup => return .ofExcept .service .group (← Groups.nextGroup)
  | .findDuplicates => return .ofExcept .service .groups (← Groups.findDuplicates)

namespace Step

mutual

/-- The weight of a step: a bound on the number of watches that fire and of steps that run because
of it, and on the milliseconds for which they let time pass. A watch fires at most `times` times,
and its steps can set further watches every time. -/
def weight : Step → Nat
  | .watch _ _ _ times _ _ steps => 1 + times * (1 + weightOf steps)
  | .sleep millis => 1 + millis
  | _ => 1

/-- The weight of the steps of a list. -/
def weightOf : List Step → Nat
  | [] => 0
  | s :: rest => s.weight + weightOf rest

end

end Step

end AccessGroups.Scenario
