import AccessGroups.Program.Call
import AccessGroups.Store.Table

/-!
# The store in memory

Rows are kept in a table ordered by their identifiers, next to two counters for the identifiers of
rows and groups. A counter that is advanced beyond the largest identifier wraps around; a sum that
leaves the range otherwise ends the call without an answer and without a change. The resources are
kept in one table for each kind.

## Main definitions

* `MemoryStore`: the rows and the counters, with `MemoryStore.perform`.
* `MemoryRegistry`: the references of the resources, with `MemoryRegistry.perform`.
-/

namespace AccessGroups

/-- Rows and the counters for new identifiers. -/
structure MemoryStore where
  entries : Table Entry.id := .empty
  nextEntry : Int64 := 1
  nextGroup : Int64 := 1
  deriving DecidableEq

namespace MemoryStore

instance : Inhabited MemoryStore := ⟨{}⟩

/-- Put a row of another writer into the store. There is no result if no larger identifier is left
for the counter. -/
def insertRaw? (s : MemoryStore) (entry : Entry) : Option MemoryStore :=
  if entry.id.val = Int64.maxValue then none
  else some { s with
    entries := s.entries.put entry
    nextEntry := max s.nextEntry (entry.id.val + 1) }

/-- Store a grant under the next identifier. -/
def insert (s : MemoryStore) (grant : Grant) : Entry × MemoryStore :=
  let stored := grant.toEntry ⟨s.nextEntry⟩
  (stored, { s with entries := s.entries.put stored, nextEntry := s.nextEntry + 1 })

/-- Store grants one after another. -/
def insertAll (s : MemoryStore) : List Grant → List Entry × MemoryStore
  | [] => ([], s)
  | grant :: rest =>
    let (stored, s) := s.insert grant
    let (others, s) := s.insertAll rest
    (stored :: others, s)

/-- Delete the rows of a group. -/
def removeGroup (s : MemoryStore) (group : GroupId) : MemoryStore :=
  { s with entries := s.entries.filter fun e => e.group ≠ group }

/-- Two rows of the list have the same grant. -/
def hasRepeat : List Entry → Bool
  | [] => false
  | e :: rest => rest.any e.sameGrant || hasRepeat rest

/-- The groups in which two rows have the same grant, in ascending order. -/
def duplicateGroups (s : MemoryStore) : List GroupId :=
  (Identifier.distinct (s.entries.rows.map fun e => e.group)).filter fun g =>
    hasRepeat (s.entries.rows.filter fun e => e.group = g)

/-- The largest group of a row, or zero if there is no row. -/
def largestGroup (s : MemoryStore) : Int64 :=
  match s.entries.rows.map fun e => e.group.val with
  | [] => 0
  | g :: rest => rest.foldl max g

/-- Hand out a group identifier above those of all rows. There is no result if no identifier is
left above them. -/
def allocateGroup? (s : MemoryStore) : Option (GroupId × MemoryStore) :=
  if s.largestGroup = Int64.maxValue then none
  else
    let next := max s.nextGroup (s.largestGroup + 1)
    some (⟨next⟩, { s with nextGroup := next + 1 })

/-- Answer a call; there is no answer if a sum leaves the range of identifiers. -/
def perform (s : MemoryStore) : (c : StoreCall) → Option (c.Answer × MemoryStore)
  | .findAll => some (.ok s.entries.rows, s)
  | .findGroup group => some (.ok (s.entries.rows.filter fun e => e.group = group), s)
  | .findDuplicateGroups => some (.ok s.duplicateGroups, s)
  | .findMixed => some (.ok (s.entries.rows.filter fun e => e.isMixed), s)
  | .insert grant =>
    let (stored, s) := s.insert grant
    some (.ok stored, s)
  | .update entry =>
    if s.entries.contains entry.id then
      some (.ok (), { s with entries := s.entries.replace entry })
    else some (.error .notFound, s)
  | .deleteEntry id =>
    if s.entries.contains id then some (.ok (), { s with entries := s.entries.erase id })
    else some (.error .notFound, s)
  | .deleteGroup group =>
    let after := s.removeGroup group
    some (.ok (s.entries.size - after.entries.size), after)
  | .replaceGroup group grants =>
    let (stored, s) := (s.removeGroup group).insertAll grants
    some (.ok stored, s)
  | .allocateGroup => s.allocateGroup?.map fun r => (.ok r.1, r.2)

end MemoryStore

/-- The references of the resources, in one table for each kind. -/
structure MemoryRegistry where
  refs : ResourceKind → Table GroupRef.resource := fun _ => .empty

namespace MemoryRegistry

instance : Inhabited MemoryRegistry := ⟨{}⟩

/-- Change the table of one kind. -/
def set (r : MemoryRegistry) (kind : ResourceKind) (t : Table GroupRef.resource) :
    MemoryRegistry :=
  ⟨fun k => if k = kind then t else r.refs k⟩

@[simp] theorem refs_set_self (r : MemoryRegistry) (kind : ResourceKind)
    (t : Table GroupRef.resource) : (r.set kind t).refs kind = t :=
  if_pos rfl

theorem refs_set_of_ne (r : MemoryRegistry) {kind k : ResourceKind}
    (t : Table GroupRef.resource) (h : k ≠ kind) : (r.set kind t).refs k = r.refs k :=
  if_neg h

/-- Add a resource, or overwrite its reference. -/
def put (r : MemoryRegistry) (kind : ResourceKind) (ref : GroupRef) : MemoryRegistry :=
  r.set kind ((r.refs kind).put ref)

/-- Answer a call. -/
def perform (r : MemoryRegistry) : (c : RegistryCall) → c.Answer × MemoryRegistry
  | .listRefs kind => (.ok (r.refs kind).rows, r)
  | .findRef kind resource =>
    match (r.refs kind).find? resource with
    | some ref => (.ok ref.group, r)
    | none => (.error .notFound, r)
  | .assign kind resource group =>
    if (r.refs kind).contains resource then
      (.ok (), r.set kind ((r.refs kind).replace ⟨resource, group⟩))
    else (.error .notFound, r)
  | .delete kind resource =>
    if (r.refs kind).contains resource then
      (.ok (), r.set kind ((r.refs kind).erase resource))
    else (.error .notFound, r)

end MemoryRegistry

end AccessGroups
