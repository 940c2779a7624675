import AccessGroups.Service.Groups
import AccessGroups.Sweep.Scan

/-!
# The repairs of a sweep

After the scan a sweep repairs in five phases: it splits rows with two principals, moves resources
that share a group to groups of their own, makes up rows for missing groups, deletes groups that
nothing refers to, and collapses rows that repeat one another. An item that fails is noted and the
sweep goes on with the next one. Cancellation is looked at between items only.

## Main definitions

* `Sweep.forItems`: one phase over its items.
* `Sweep.splitEntry`, `Sweep.reassign`, `Sweep.createMissing`, `Sweep.collapseGroup`: the handling
  of one item.
* `Sweep.repair`: the five phases.
-/

namespace AccessGroups.Sweep

/-! ### Items -/

/-- Note that an item of a phase failed. -/
def fail (r : Summary) (phase : Phase) (target error : String) : Prog Summary := do
  let failure := ⟨phase, target, error⟩
  Prog.log (.repairFailed failure)
  return r.fail failure

/-- Look whether the sweep has been cancelled. -/
def checkpoint (r : Summary) : Prog Summary := do
  if ← Prog.perform .poll then
    if !r.cancelled then Prog.log .sweepCancelled
    return { r with cancelled := true }
  else return r

/-- Handle the items of a phase one after another until the sweep is cancelled. -/
def forItems {ι : Type} (handle : ι → Summary → Prog Summary) : List ι → Summary → Prog Summary
  | [], r => return r
  | item :: rest, r => do
    let r ← checkpoint r
    if r.cancelled then return r
    let r ← handle item r
    forItems handle rest r

/-! ### Rows with two principals -/

/-- Turn a row with two principals into a row of the user and a row of the unit. The new row comes
first, so that an interruption leaves a grant twice and never loses one. -/
def splitEntry (entry : Entry) : Prog (Except StoreError Unit) := do
  match entry.user, entry.unit with
  | some user, some _ =>
    match ← Prog.store (.insert (Grant.forUser entry.group user entry.privileges)) with
    | .error e => return .error e
    | .ok _ => Prog.store (.update { entry with user := none })
  | _, _ => return .ok ()

/-- Split one row. -/
def splitItem (entry : Entry) (r : Summary) : Prog Summary := do
  match ← splitEntry entry with
  | .ok () =>
    Prog.log (.entrySplit entry.group entry.id)
    return { r with splitEntries := r.splitEntries + 1 }
  | .error e =>
    fail r .splitMixed ("entry " ++ entry.id.text ++ " in group " ++ entry.group.text) e.message

/-- Split every row with two principals. -/
def splitMixed (r : Summary) : Prog Summary := do
  let r ← checkpoint r
  if r.cancelled then return r
  match ← Prog.store .findMixed with
  | .error e => fail r .splitMixed "listing" e.message
  | .ok mixed => forItems splitItem mixed r

/-! ### Resources that share a group -/

/-- The row that a sweep makes up: all privileges for the operator. -/
def fallback (operator : UserId) (group : GroupId) : Grant :=
  Grant.forUser group operator .full

/-- Ask for group identifiers until one is not referenced. The first argument bounds the number of
identifiers to ask for. -/
def allocateFresh (referenced : List GroupId) : Nat → Prog (Except ServiceError GroupId)
  | 0 => .abandon
  | limit + 1 => do
    match ← Groups.nextGroup with
    | .error e => return .error e
    | .ok group =>
      if group ∉ referenced then return .ok group
      Prog.log (.allocationReferenced group)
      allocateFresh referenced limit

/-- A fresh group that no reference of the scan names. There are 2^64 identifiers, so that more
refusals than that and the number of references cannot be met one at a time. -/
def allocateUnreferenced (referenced : List GroupId) : Prog (Except ServiceError GroupId) :=
  allocateFresh referenced (referenced.length + UInt64.size)

/-- The grants of a group stamped with a fresh one, or the fallback if there are none. -/
def copies (operator : UserId) (source : List Entry) (fresh : GroupId) : List Grant :=
  if source.isEmpty then [fallback operator fresh]
  else source.map fun e => e.toGrant.withGroup fresh

/-- The rows of a group, if the group is valid. -/
def readGroup (group : GroupId) : Prog (Except StoreError (List Entry)) := do
  if group.IsValid then Prog.store (.findGroup group) else return .ok []

/-- Give a resource a fresh group with copies of the rows of its current one. Returns the old and
the new group, or nothing if the resource is gone. -/
def reassign (operator : UserId) (s : Scan) (kind : ResourceKind) (resource : ResourceId) :
    Prog (Except ServiceError (Option (GroupId × GroupId))) := do
  match ← Prog.registry (.findRef kind resource) with
  | .error .notFound => return .ok none
  | .error e => return .error (.store e)
  | .ok current =>
    match ← allocateUnreferenced s.referenced with
    | .error e => return .error e
    | .ok fresh =>
      match ← readGroup current with
      | .error e => return .error (.store e)
      | .ok source =>
        match ← Prog.store (.replaceGroup fresh (copies operator source fresh)) with
        | .error e => return .error (.store e)
        | .ok _ =>
          match ← Prog.registry (.assign kind resource fresh) with
          | .error e => return .error (.store e)
          | .ok () => return .ok (some (current, fresh))

/-- Move one resource to a group of its own. -/
def reassignItem (operator : UserId) (s : Scan) (item : ResourceKind × ResourceId)
    (r : Summary) : Prog Summary := do
  match ← reassign operator s item.1 item.2 with
  | .ok (some (old, fresh)) =>
    Prog.log (.resourceMoved item.1 item.2 old fresh)
    return { r with reassignedResources := r.reassignedResources + 1 }
  | .ok none =>
    Prog.log (.resourceVanished item.1 item.2)
    return r
  | .error e => fail r .reassignShared (item.1.name ++ " " ++ item.2.text) e.message

/-- Move every resource that shares a group, or has none, to a group of its own. -/
def reassignShared (operator : UserId) (s : Scan) (r : Summary) : Prog Summary :=
  forItems (reassignItem operator s) s.shared r

/-! ### Missing groups -/

/-- Make up a row for a group, unless it has rows by now. Returns whether it did. -/
def createMissing (operator : UserId) (group : GroupId) : Prog (Except ServiceError Bool) := do
  match ← Prog.store (.findGroup group) with
  | .error e => return .error (.store e)
  | .ok entries =>
    if !entries.isEmpty then return .ok false
    match ← Groups.create (fallback operator group) with
    | .error e => return .error e
    | .ok _ => return .ok true

/-- Make up a row for one group. -/
def createItem (operator : UserId) (group : GroupId) (r : Summary) : Prog Summary := do
  match ← createMissing operator group with
  | .ok true =>
    Prog.log (.missingCreated group operator)
    return { r with createdGroups := r.createdGroups + 1 }
  | .ok false =>
    Prog.log (.groupAppeared group)
    return r
  | .error e => fail r .createMissing ("group " ++ group.text) e.message

/-- Make up a row for every group that is referenced but has none. -/
def createMissingGroups (operator : UserId) (s : Scan) (r : Summary) : Prog Summary :=
  forItems (createItem operator) s.missing r

/-! ### Orphan groups -/

/-- Delete the rows of one group. -/
def deleteItem (group : GroupId) (r : Summary) : Prog Summary := do
  match ← Prog.store (.deleteGroup group) with
  | .ok removed =>
    if removed = 0 then
      Prog.log (.orphanGone group)
      return r
    else
      Prog.log (.orphanDeleted group removed)
      return { r with deletedOrphanGroups := r.deletedOrphanGroups + 1 }
  | .error .notFound =>
    Prog.log (.orphanGone group)
    return r
  | .error e => fail r .deleteOrphans ("group " ++ group.text) e.message

/-- Delete the rows of every group that nothing refers to. -/
def deleteOrphans (s : Scan) (r : Summary) : Prog Summary :=
  forItems deleteItem s.orphans r

/-! ### Rows that repeat one another -/

/-- Delete the rows whose grants are among those `kept` so far. Returns how many were deleted. -/
def deleteRepeated : List Grant → Nat → List Entry → Prog (Except StoreError Nat)
  | _, removed, [] => return .ok removed
  | kept, removed, entry :: rest => do
    if entry.toGrant ∉ kept then deleteRepeated (entry.toGrant :: kept) removed rest
    else
      match ← Prog.store (.deleteEntry entry.id) with
      | .ok () => deleteRepeated kept (removed + 1) rest
      | .error .notFound => deleteRepeated kept removed rest
      | .error e => return .error e

/-- Insert a row into rows in ascending order of their identifiers. -/
def insertRow (entry : Entry) : List Entry → List Entry
  | [] => [entry]
  | e :: rest => if entry.id ≤ e.id then entry :: e :: rest else e :: insertRow entry rest

/-- The rows in ascending order of their identifiers. -/
def sortRows (entries : List Entry) : List Entry :=
  entries.foldr insertRow []

/-- Of the rows of a group with the same grant, keep the one with the lowest identifier. Returns
how many were deleted. -/
def collapseGroup (group : GroupId) : Prog (Except StoreError Nat) := do
  match ← Prog.store (.findGroup group) with
  | .error e => return .error e
  | .ok entries => deleteRepeated [] 0 (sortRows entries)

/-- Collapse the rows of one group. -/
def collapseItem (group : GroupId) (r : Summary) : Prog Summary := do
  match ← collapseGroup group with
  | .ok removed =>
    if removed > 0 then Prog.log (.duplicatesCollapsed group removed)
    return { r with deletedDuplicateEntries := r.deletedDuplicateEntries + removed }
  | .error e => fail r .collapseDuplicates ("group " ++ group.text) e.message

/-- Collapse the rows of every group in which some repeat others. -/
def collapseDuplicates (r : Summary) : Prog Summary := do
  let r ← checkpoint r
  if r.cancelled then return r
  match ← Groups.findDuplicates with
  | .error e => fail r .collapseDuplicates "listing" e.message
  | .ok groups => forItems collapseItem groups r

/-! ### All phases -/

/-- The five phases in their order. -/
def repair (operator : UserId) (s : Scan) (r : Summary) : Prog Summary := do
  let r ← splitMixed r
  let r ← reassignShared operator s r
  let r ← createMissingGroups operator s r
  let r ← deleteOrphans s r
  collapseDuplicates r

end AccessGroups.Sweep
