import AccessGroups.Program.Basic

/-!
# The scan of a sweep

A sweep first reads every row and then the references of every kind of resource. The rows come
first, so that a group that is created in between is seen as missing and never as an orphan. From
what was read the scan derives what has to be repaired: groups that are referenced but have no row,
references that are invalid or repeat an earlier one of their kind, and groups without a reference.
A listing that fails leaves its references unknown, and then no group counts as an orphan.

## Main definitions

* `Scan`: what was read, with `Scan.start`, `Scan.addListing`, `Scan.addFailure` and
  `Scan.orphans`.
* `Sweep.scan`: the program that reads it.
-/

namespace AccessGroups

/-- What a sweep has read. -/
structure Scan where
  /-- The groups that have a row, in ascending order. -/
  stored : List GroupId
  /-- The positive groups that some listing refers to, in ascending order. -/
  referenced : List GroupId := []
  /-- The groups of `referenced` without a row, in ascending order. -/
  missing : List GroupId := []
  /-- The references that are invalid or repeat an earlier one of their kind. -/
  shared : List (ResourceKind × ResourceId) := []
  listingFailed : Bool := false
  deriving DecidableEq, Repr

namespace Scan

/-- The scan after the rows were read. -/
def start (entries : List Entry) : Scan where
  stored := Identifier.distinct (entries.map fun e => e.group)

/-- Add one reference. The groups `seen` so far are those of earlier references of its kind. -/
def addRef (kind : ResourceKind) (seen : List GroupId) (s : Scan) (r : GroupRef) : Scan :=
  if ¬ r.group.IsValid ∨ r.group ∈ seen then
    { s with shared := s.shared ++ [(kind, r.resource)] }
  else
    { s with
      referenced := Identifier.insertInto r.group s.referenced
      missing :=
        if r.group ∈ s.stored then s.missing else Identifier.insertInto r.group s.missing }

/-- Add the references of one kind, after those whose groups are `seen`. -/
def addRefs (kind : ResourceKind) : List GroupId → Scan → List GroupRef → Scan
  | _, s, [] => s
  | seen, s, r :: rest => addRefs kind (r.group :: seen) (s.addRef kind seen r) rest

/-- Add the listing of one kind. -/
def addListing (s : Scan) (kind : ResourceKind) (refs : List GroupRef) : Scan :=
  addRefs kind [] s refs

/-- Note that the listing of a kind failed. -/
def addFailure (s : Scan) : Scan :=
  { s with listingFailed := true }

/-- The groups with a row that nothing refers to, unless a listing failed. -/
def orphans (s : Scan) : List GroupId :=
  if s.listingFailed then [] else s.stored.filter fun g => g ∉ s.referenced

end Scan

namespace Sweep

/-- Read the references of the kinds one after another. -/
def scanKinds : List ResourceKind → Scan → Summary → Prog (Scan × Summary)
  | [], s, r => return (s, r)
  | kind :: kinds, s, r => do
    match ← Prog.registry (.listRefs kind) with
    | .error e =>
      let failure := ⟨.scan, kind.name ++ " listing", e.message⟩
      Prog.log (.repairFailed failure)
      scanKinds kinds s.addFailure (r.fail failure)
    | .ok refs =>
      scanKinds kinds (s.addListing kind refs)
        { r with scannedResources := r.scannedResources + refs.length }

/-- Report the rows that nobody can repair. -/
def reportUnrepairable (ids : List EntryId) : Prog Unit := do
  if !ids.isEmpty then Prog.log (.unrepairable ids)

/-- Read all rows and all references. -/
def scan : Prog (Except ServiceError (Scan × Summary)) := do
  match ← Prog.store .findAll with
  | .error e => return .error (.store e)
  | .ok entries =>
    let inert := (entries.filter fun e => e.isInert).map fun e => e.id
    reportUnrepairable inert
    let (s, r) ← scanKinds ResourceKind.all (Scan.start entries)
      { scannedEntries := entries.length, unrepairableEntries := inert.length }
    if s.listingFailed then Prog.log .listingIncomplete
    Prog.log (.scanFinished r.scannedEntries r.scannedResources s.shared.length s.missing.length
      s.orphans.length)
    return .ok (s, { r with orphanPhaseSkipped := s.listingFailed })

end Sweep

end AccessGroups
