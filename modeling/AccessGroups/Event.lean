import AccessGroups.Failure
import AccessGroups.Sweep.Report

/-!
# Log events

What the program says about its work. An event has a level, a fixed message and fields with values.

## Main definitions

* `Event`: the events, with `Event.level` and `Event.text`.
-/

namespace AccessGroups

/-- The importance of an event. -/
inductive Level where
  | debug
  | info
  | warn
  | error
  deriving DecidableEq, Repr

/-- The level as it is written in the log. -/
def Level.name : Level → String
  | .debug => "DEBUG"
  | .info => "INFO"
  | .warn => "WARN"
  | .error => "ERROR"

/-- Something worth a line in the log. -/
inductive Event where
  -- groups
  | entryCreated (group : GroupId) (entry : EntryId)
  | groupReplaced (group : GroupId) (count : Nat)
  | groupCreated (group : GroupId) (count : Nat)
  | groupDeleted (group : GroupId) (removed : Nat)
  -- access
  | bypassEnabled
  | checkBypassed (group : GroupId) (mask : Privileges)
  -- removal
  | restoreFailed (kind : ResourceKind) (resource : ResourceId) (group : GroupId)
      (error : StoreError)
  | resourceDeleted (kind : ResourceKind) (resource : ResourceId) (group : GroupId)
  | resourceGone (kind : ResourceKind) (resource : ResourceId)
  -- the sweep
  | sweepRunning
  | sweepStarting
  | sweepRepaired (repairs failures : Nat) (cancelled : Bool)
  | sweepIdle (cancelled : Bool)
  | sweepCancelled
  | unrepairable (ids : List EntryId)
  | listingIncomplete
  | scanFinished (entries resources shared missing orphans : Nat)
  | repairFailed (failure : RepairFailure)
  | entrySplit (group : GroupId) (entry : EntryId)
  | resourceMoved (kind : ResourceKind) (resource : ResourceId) (old new : GroupId)
  | resourceVanished (kind : ResourceKind) (resource : ResourceId)
  | allocationReferenced (group : GroupId)
  | missingCreated (group : GroupId) (operator : UserId)
  | groupAppeared (group : GroupId)
  | orphanDeleted (group : GroupId) (removed : Nat)
  | orphanGone (group : GroupId)
  | duplicatesCollapsed (group : GroupId) (removed : Nat)
  -- the timetable
  | scheduled (intervalSecs firstRunSecs : Nat)
  | stoppedEarly
  | stopped
  | scheduledFinished (repairs : Nat)
  | scheduledSkipped
  | scheduledAborted (error : ServiceError)
  -- the daemon
  | signalReceived (name : String)
  | exporterStarted (address : String)
  | shutdownComplete
  deriving DecidableEq

namespace Event

/-- The level at which the event is logged. -/
def level : Event → Level
  | .entryCreated .. | .resourceGone .. | .sweepRunning | .sweepStarting | .sweepIdle _
  | .scanFinished .. | .resourceVanished .. | .allocationReferenced _ | .groupAppeared _
  | .orphanGone _ | .scheduledFinished _ | .scheduledSkipped => .debug
  | .bypassEnabled | .checkBypassed .. | .unrepairable _ | .listingIncomplete | .repairFailed _
  | .scheduledAborted _ => .warn
  | .restoreFailed .. => .error
  | _ => .info

/-- The fixed part of the event. -/
def message : Event → String
  | .entryCreated .. => "Created permission entry"
  | .groupReplaced .. => "Replaced permission group"
  | .groupCreated .. => "Created permission group"
  | .groupDeleted .. => "Deleted permission group"
  | .bypassEnabled => "Access evaluation bypass is enabled; every privilege check will succeed"
  | .checkBypassed .. => "Access check bypassed"
  | .restoreFailed .. => "Failed to restore permission group after resource delete failed"
  | .resourceDeleted .. => "Deleted resource and its permission group"
  | .resourceGone .. => "resource already gone"
  | .sweepRunning => "Sweep already in progress, skipping"
  | .sweepStarting => "Starting consistency sweep"
  | .sweepRepaired .. => "Consistency sweep completed"
  | .sweepIdle _ => "Consistency sweep completed (nothing to repair)"
  | .sweepCancelled => "Sweep cancelled, stopping between items"
  | .unrepairable _ => "Entries without a principal or without privileges, left in place"
  | .listingIncomplete =>
    "Resource listing incomplete, orphan groups will not be deleted this run"
  | .scanFinished .. => "Scan finished"
  | .repairFailed _ => "Repair failed"
  | .entrySplit .. => "Split mixed-principal entry"
  | .resourceMoved .. => "Moved resource to its own group"
  | .resourceVanished .. => "Resource vanished before reassignment"
  | .allocationReferenced _ => "Allocated group id is referenced by a resource, skipping"
  | .missingCreated .. => "Created missing permission group"
  | .groupAppeared _ => "Group appeared since scan, leaving it"
  | .orphanDeleted .. => "Deleted orphan permission group"
  | .orphanGone _ => "Orphan group already gone"
  | .duplicatesCollapsed .. => "Collapsed duplicate entries"
  | .scheduled .. => "Consistency sweep scheduled"
  | .stoppedEarly => "Consistency sweep stopped before first run"
  | .stopped => "Consistency sweep stopped"
  | .scheduledFinished _ => "Scheduled sweep finished"
  | .scheduledSkipped => "Scheduled sweep skipped, previous run still active"
  | .scheduledAborted _ => "Scheduled sweep aborted"
  | .signalReceived name => "Received " ++ name ++ ", shutting down gracefully..."
  | .exporterStarted _ => "Prometheus metrics exporter started"
  | .shutdownComplete => "Shutdown complete"

/-- The fields of the event with their values. -/
def fields : Event → List (String × String)
  | .entryCreated group entry => [("group_id", group.text), ("entry_id", entry.text)]
  | .groupReplaced group count => [("group_id", group.text), ("count", toString count)]
  | .groupCreated group count => [("group_id", group.text), ("count", toString count)]
  | .groupDeleted group removed => [("group_id", group.text), ("removed", toString removed)]
  | .checkBypassed group mask => [("group_id", group.text), ("mask", mask.labelled)]
  | .restoreFailed kind resource group error =>
    [("kind", kind.name), ("resource_id", resource.text), ("group_id", group.text),
      ("error", error.message)]
  | .resourceDeleted kind resource group =>
    [("kind", kind.name), ("resource_id", resource.text), ("group_id", group.text)]
  | .resourceGone kind resource => [("kind", kind.name), ("resource_id", resource.text)]
  | .sweepRepaired repairs failures cancelled =>
    [("repairs", toString repairs), ("failures", toString failures),
      ("cancelled", toString cancelled)]
  | .sweepIdle cancelled => [("cancelled", toString cancelled)]
  | .unrepairable ids =>
    [("count", toString ids.length),
      ("entry_ids", "[" ++ String.intercalate ", " (ids.map Identifier.labelled) ++ "]")]
  | .scanFinished entries resources shared missing orphans =>
    [("entries", toString entries), ("resources", toString resources),
      ("shared", toString shared), ("missing", toString missing), ("orphans", toString orphans)]
  | .repairFailed failure =>
    [("phase", failure.phase.label), ("target", failure.target), ("error", failure.error)]
  | .entrySplit group entry => [("group_id", group.text), ("entry_id", entry.text)]
  | .resourceMoved kind resource old new =>
    [("kind", kind.name), ("resource_id", resource.text), ("old_group_id", old.text),
      ("new_group_id", new.text)]
  | .resourceVanished kind resource => [("kind", kind.name), ("resource_id", resource.text)]
  | .allocationReferenced group => [("group_id", group.text)]
  | .missingCreated group operator => [("group_id", group.text), ("operator", operator.text)]
  | .groupAppeared group => [("group_id", group.text)]
  | .orphanDeleted group removed => [("group_id", group.text), ("removed", toString removed)]
  | .orphanGone group => [("group_id", group.text)]
  | .duplicatesCollapsed group removed =>
    [("group_id", group.text), ("removed", toString removed)]
  | .scheduled intervalSecs firstRunSecs =>
    [("interval_secs", toString intervalSecs), ("first_run_in_secs", toString firstRunSecs)]
  | .scheduledFinished repairs => [("repairs", toString repairs)]
  | .scheduledAborted error => [("error", error.message)]
  | .exporterStarted address => [("metrics_addr", address)]
  | _ => []

/-- The level, the message and the fields of the event. -/
def text (e : Event) : String :=
  String.intercalate " "
    (e.level.name :: e.message :: e.fields.map fun f => f.1 ++ "=" ++ f.2)

end Event

end AccessGroups
