import AccessGroups.Program.Basic

/-!
# The service of permission groups

Rows are created and changed only after they have been checked: a positive group, exactly one
principal and at least one privilege. Invalid input is refused before any call, so that it uses up
no group identifier; everything else is left to the store.

## Main definitions

* `Grant.validate`: the rules for a grant.
* `Groups.create`, `Groups.update`, `Groups.replaceGroup`, `Groups.createGroup`,
  `Groups.deleteGroup`, `Groups.deleteEntry`: the changes.
* `Groups.findAll`, `Groups.findGroup`, `Groups.nextGroup`, `Groups.findDuplicates`: the queries.
-/

namespace AccessGroups

namespace Grant

/-- Exactly one principal and at least one privilege. -/
def validatePrincipal (g : Grant) : Except ValidationError Unit :=
  if g.user.isSome && g.unit.isSome then .error .bothPrincipals
  else if g.user.isNone && g.unit.isNone then .error .noPrincipal
  else if g.privileges.isEmpty then .error .noPrivilege
  else .ok ()

/-- A positive group, exactly one principal and at least one privilege. -/
def validate (g : Grant) : Except ValidationError Unit :=
  if ¬ g.group.IsValid then .error .invalidGroup else g.validatePrincipal

/-- The first failure of a check among the grants. -/
def checkAll (check : Grant → Except ValidationError Unit) :
    List Grant → Except ValidationError Unit
  | [] => .ok ()
  | g :: rest =>
    match check g with
    | .error e => .error e
    | .ok () => checkAll check rest

end Grant

namespace Groups

/-- The answer of a store as the result of a service. -/
def ofAnswer {α : Type} : Except StoreError α → Except ServiceError α
  | .error e => .error (.store e)
  | .ok a => .ok a

/-- All rows. -/
def findAll : Prog (Except ServiceError (List Entry)) :=
  return ofAnswer (← Prog.store .findAll)

/-- The rows of a group; a group without rows does not exist. -/
def findGroup (group : GroupId) : Prog (Except ServiceError (List Entry)) := do
  match ← Prog.store (.findGroup group) with
  | .error e => return .error (.store e)
  | .ok [] => return .error (.notFound (.group group))
  | .ok entries => return .ok entries

/-- Store a new row. -/
def create (grant : Grant) : Prog (Except ServiceError Entry) := do
  match grant.validate with
  | .error e => return .error (.validation e)
  | .ok () =>
    match ← Prog.store (.insert grant) with
    | .error e => return .error (.store e)
    | .ok stored =>
      Prog.log (.entryCreated stored.group stored.id)
      return .ok stored

/-- Overwrite a row. -/
def update (entry : Entry) : Prog (Except ServiceError Unit) := do
  if ¬ entry.id.IsValid then return .error (.validation .missingEntryId)
  match entry.validate with
  | .error e => return .error (.validation e)
  | .ok () =>
    match ← Prog.store (.update entry) with
    | .error e => return .error (.ofStore (.entry entry.id) e)
    | .ok () => return .ok ()

/-- Swap the rows of a group for new ones at once. -/
def replaceGroup (group : GroupId) (grants : List Grant) :
    Prog (Except ServiceError (List Entry)) := do
  if grants.isEmpty then return .error (.validation .noEntries)
  if grants.any fun g => g.group ≠ group then return .error (.validation .mismatchedGroup)
  match Grant.checkAll Grant.validate grants with
  | .error e => return .error (.validation e)
  | .ok () =>
    match ← Prog.store (.replaceGroup group grants) with
    | .error e => return .error (.store e)
    | .ok stored =>
      Prog.log (.groupReplaced group stored.length)
      return .ok stored

/-- A group identifier that the store has not handed out before. -/
def nextGroup : Prog (Except ServiceError GroupId) :=
  return ofAnswer (← Prog.store .allocateGroup)

/-- Put the grants into a fresh group; their own groups do not matter. -/
def createGroup (grants : List Grant) : Prog (Except ServiceError GroupId) := do
  if grants.isEmpty then return .error (.validation .noEntries)
  match Grant.checkAll Grant.validatePrincipal grants with
  | .error e => return .error (.validation e)
  | .ok () =>
    match ← nextGroup with
    | .error e => return .error e
    | .ok group =>
      match ← Prog.store (.replaceGroup group (grants.map (·.withGroup group))) with
      | .error e => return .error (.store e)
      | .ok _ =>
        Prog.log (.groupCreated group grants.length)
        return .ok group

/-- Delete the rows of a group, which must have some. -/
def deleteGroup (group : GroupId) : Prog (Except ServiceError Unit) := do
  match ← Prog.store (.deleteGroup group) with
  | .error e => return .error (.store e)
  | .ok removed =>
    if removed = 0 then return .error (.notFound (.group group))
    Prog.log (.groupDeleted group removed)
    return .ok ()

/-- Delete one row. -/
def deleteEntry (id : EntryId) : Prog (Except ServiceError Unit) := do
  match ← Prog.store (.deleteEntry id) with
  | .error e => return .error (.ofStore (.entry id) e)
  | .ok () => return .ok ()

/-- The groups in which two rows agree in everything but their identifiers. -/
def findDuplicates : Prog (Except ServiceError (List GroupId)) :=
  return ofAnswer (← Prog.store .findDuplicateGroups)

end Groups

end AccessGroups
