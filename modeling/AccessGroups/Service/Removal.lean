import AccessGroups.Program.Basic

/-!
# Removal of a resource

A resource is deleted together with the rows of its group. If the resource cannot be deleted after
its rows are gone, the rows are written back under the same group.

## Main definitions

* `Removal.deleteResource`: delete a resource and its group.
-/

namespace AccessGroups.Removal

/-- Write the rows of a group back after the resource could not be deleted. -/
def restore (kind : ResourceKind) (resource : ResourceId) (group : GroupId)
    (snapshot : List Grant) : Prog Unit := do
  if !snapshot.isEmpty then
    match ← Prog.store (.replaceGroup group snapshot) with
    | .error e => Prog.log (.restoreFailed kind resource group e)
    | .ok _ => return ()

/-- Delete the resource after the rows of its group. -/
def deleteBoth (kind : ResourceKind) (resource : ResourceId) (group : GroupId)
    (snapshot : List Grant) : Prog (Except ServiceError Unit) := do
  if !snapshot.isEmpty then
    if let .error e ← Prog.store (.deleteGroup group) then
      return .error (.store e)
  match ← Prog.registry (.delete kind resource) with
  | .error e =>
    restore kind resource group snapshot
    return .error (.ofStore (.resource kind resource) e)
  | .ok () =>
    Prog.log (.resourceDeleted kind resource group)
    return .ok ()

/-- Delete a resource and its group. -/
def deleteResource (kind : ResourceKind) (resource : ResourceId) :
    Prog (Except ServiceError Unit) := do
  match ← Prog.registry (.findRef kind resource) with
  | .error e => return .error (.ofStore (.resource kind resource) e)
  | .ok group =>
    if group.IsValid then
      match ← Prog.store (.findGroup group) with
      | .error e => return .error (.store e)
      | .ok entries => deleteBoth kind resource group (entries.map Entry.toGrant)
    else deleteBoth kind resource group []

end AccessGroups.Removal
