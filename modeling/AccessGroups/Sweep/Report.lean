import AccessGroups.Json.Value
import AccessGroups.Time.Timestamp

/-!
# Reports of a sweep

What one run of the sweep saw and did: how much it scanned, how many repairs each phase made, and
which items failed. The report of a run adds the name of the run and when it started and finished.

## Main definitions

* `Phase`: the scan and the five repairs.
* `Summary`: the counters, flags and failures of a run, with `Summary.repairs`.
* `Report`: a summary with the name and the times of the run.
-/

namespace AccessGroups

open Json (Value)

/-- The phases of a sweep. -/
inductive Phase where
  | scan
  | splitMixed
  | reassignShared
  | createMissing
  | deleteOrphans
  | collapseDuplicates
  deriving DecidableEq, Repr

namespace Phase

/-- The phases in the order of a run. -/
def all : List Phase :=
  [.scan, .splitMixed, .reassignShared, .createMissing, .deleteOrphans, .collapseDuplicates]

/-- The name of the phase in reports and metrics. -/
def name : Phase → String
  | .scan => "scan"
  | .splitMixed => "split_mixed_principals"
  | .reassignShared => "reassign_shared_groups"
  | .createMissing => "create_missing_groups"
  | .deleteOrphans => "delete_orphan_groups"
  | .collapseDuplicates => "collapse_duplicates"

/-- The name of the phase in log events. -/
def label : Phase → String
  | .scan => "Scan"
  | .splitMixed => "SplitMixedPrincipals"
  | .reassignShared => "ReassignSharedGroups"
  | .createMissing => "CreateMissingGroups"
  | .deleteOrphans => "DeleteOrphanGroups"
  | .collapseDuplicates => "CollapseDuplicates"

/-- The name of the phase. -/
def toJson (p : Phase) : Value :=
  .text p.name

end Phase

/-- An item of a phase that failed. -/
structure RepairFailure where
  phase : Phase
  target : String
  error : String
  deriving DecidableEq, Repr

/-- What a run of the sweep saw and did. -/
structure Summary where
  scannedEntries : Nat := 0
  scannedResources : Nat := 0
  /-- Entries that name nobody or give nothing; they are only reported. -/
  unrepairableEntries : Nat := 0
  splitEntries : Nat := 0
  reassignedResources : Nat := 0
  createdGroups : Nat := 0
  deletedOrphanGroups : Nat := 0
  deletedDuplicateEntries : Nat := 0
  /-- A listing failed, so that no orphan group was deleted. -/
  orphanPhaseSkipped : Bool := false
  cancelled : Bool := false
  failures : List RepairFailure := []
  deriving DecidableEq, Repr

namespace Summary

instance : Inhabited Summary := ⟨{}⟩

/-- The number of repairs that a phase made. -/
def repairsOf (s : Summary) : Phase → Nat
  | .scan => 0
  | .splitMixed => s.splitEntries
  | .reassignShared => s.reassignedResources
  | .createMissing => s.createdGroups
  | .deleteOrphans => s.deletedOrphanGroups
  | .collapseDuplicates => s.deletedDuplicateEntries

/-- The number of repairs of all phases. -/
def repairs (s : Summary) : Nat :=
  s.splitEntries + s.reassignedResources + s.createdGroups + s.deletedOrphanGroups +
    s.deletedDuplicateEntries

/-- The number of repairs, if it fits in a 64-bit word. -/
def repairs? (s : Summary) : Option Nat :=
  if s.repairs < UInt64.size then some s.repairs else none

/-- The summary with another failure at its end. -/
def fail (s : Summary) (failure : RepairFailure) : Summary :=
  { s with failures := s.failures ++ [failure] }

/-- The members of a report that stand after the name and the times of the run. -/
def members (s : Summary) : List (String × Value) :=
  [("scanned_entries", .int s.scannedEntries), ("scanned_resources", .int s.scannedResources),
    ("unrepairable_entries", .int s.unrepairableEntries), ("split_entries", .int s.splitEntries),
    ("reassigned_resources", .int s.reassignedResources),
    ("created_groups", .int s.createdGroups),
    ("deleted_orphan_groups", .int s.deletedOrphanGroups),
    ("deleted_duplicate_entries", .int s.deletedDuplicateEntries),
    ("orphan_phase_skipped", .bool s.orphanPhaseSkipped), ("cancelled", .bool s.cancelled),
    ("failures", .list (s.failures.map fun f =>
      .record [("phase", f.phase.toJson), ("target", .text f.target), ("error", .text f.error)]))]

end Summary

/-- The name of a run: 128 bits, written as 32 hexadecimal digits in five groups. -/
structure RunId where
  bits : Nat
  bounded : bits < UInt64.size * UInt64.size
  deriving DecidableEq

namespace RunId

/-- The run named by the low 128 bits of a number. -/
def ofNat (n : Nat) : RunId :=
  ⟨n % (UInt64.size * UInt64.size), Nat.mod_lt _ (by decide)⟩

/-- The digits of the name from the given one on, counted from the left. -/
def digits (r : RunId) (start length : Nat) : List Char :=
  let n := r.bits / Nat.pow 16 (32 - start - length) % Nat.pow 16 length
  let ds := Nat.toDigits 16 n
  List.replicate (length - ds.length) '0' ++ ds

/-- The digits in groups of eight, four, four, four and twelve. -/
def text (r : RunId) : String :=
  String.ofList (r.digits 0 8 ++ '-' :: r.digits 8 4 ++ '-' :: r.digits 12 4 ++
    '-' :: r.digits 16 4 ++ '-' :: r.digits 20 12)

end RunId

/-- The summary of a run with its name and times. -/
structure Report extends Summary where
  run : RunId
  started : Timestamp
  finished : Option Timestamp
  deriving DecidableEq

namespace Report

/-- The name and the times of the run, followed by its summary. -/
def toJson (r : Report) : Value :=
  .record (("run_id", .text r.run.text) :: ("started_at", .text r.started.text) ::
    ("finished_at", (r.finished.map fun t => Value.text t.text).getD .null) ::
    r.toSummary.members)

end Report

end AccessGroups
