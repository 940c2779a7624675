import AccessGroups.Failure

/-!
# Calls to the outside

The services reach rows, resources and the current principal only through calls. Each call has a
type of answers and a text that names it together with its arguments.

## Main definitions

* `StoreCall`, `RegistryCall`, `PrincipalCall`: the calls to a permission store, to the resources
  and to the source of principals, with their answers.
* `Call`: any of these calls, with `Call.method`, `Call.arguments` and `Call.text`.
-/

namespace AccessGroups

/-- Calls to a permission store. -/
inductive StoreCall where
  | findAll
  | findGroup (group : GroupId)
  | findDuplicateGroups
  | findMixed
  | insert (grant : Grant)
  | update (entry : Entry)
  | deleteEntry (id : EntryId)
  | deleteGroup (group : GroupId)
  | replaceGroup (group : GroupId) (grants : List Grant)
  | allocateGroup
  deriving DecidableEq

/-- Calls to the resources. -/
inductive RegistryCall where
  | listRefs (kind : ResourceKind)
  | findRef (kind : ResourceKind) (resource : ResourceId)
  | assign (kind : ResourceKind) (resource : ResourceId) (group : GroupId)
  | delete (kind : ResourceKind) (resource : ResourceId)
  deriving DecidableEq

/-- Calls to the source of the current principal. -/
inductive PrincipalCall where
  | currentUser
  | unitsOf (user : UserId)
  deriving DecidableEq

namespace StoreCall

/-- What the call returns when it does not fail. -/
abbrev Value : StoreCall → Type
  | .findAll => List Entry
  | .findGroup _ => List Entry
  | .findDuplicateGroups => List GroupId
  | .findMixed => List Entry
  | .insert _ => Entry
  | .update _ => Unit
  | .deleteEntry _ => Unit
  | .deleteGroup _ => Nat
  | .replaceGroup _ _ => List Entry
  | .allocateGroup => GroupId

/-- The answer to the call. -/
abbrev Answer (c : StoreCall) : Type :=
  Except StoreError c.Value

/-- The call can change what is stored. -/
def isWrite : StoreCall → Bool
  | .findAll | .findGroup _ | .findDuplicateGroups | .findMixed => false
  | _ => true

end StoreCall

namespace RegistryCall

/-- What the call returns when it does not fail. -/
abbrev Value : RegistryCall → Type
  | .listRefs _ => List GroupRef
  | .findRef _ _ => GroupId
  | .assign _ _ _ => Unit
  | .delete _ _ => Unit

/-- The answer to the call. -/
abbrev Answer (c : RegistryCall) : Type :=
  Except StoreError c.Value

/-- The call can change what is stored. -/
def isWrite : RegistryCall → Bool
  | .listRefs _ | .findRef _ _ => false
  | _ => true

end RegistryCall

namespace PrincipalCall

/-- What the call returns when it does not fail. -/
abbrev Value : PrincipalCall → Type
  | .currentUser => UserId
  | .unitsOf _ => List UnitId

/-- The answer to the call. -/
abbrev Answer (c : PrincipalCall) : Type :=
  Except PrincipalError c.Value

end PrincipalCall

/-- A call to the outside. -/
inductive Call where
  | store (call : StoreCall)
  | registry (call : RegistryCall)
  | principal (call : PrincipalCall)
  deriving DecidableEq

namespace Call

/-- The answer to the call. -/
abbrev Answer : Call → Type
  | .store c => c.Answer
  | .registry c => c.Answer
  | .principal c => c.Answer

/-- The name of the method that is called. -/
def method : Call → String
  | .store .findAll => "find_all"
  | .store (.findGroup _) => "find_by_group_id"
  | .store .findDuplicateGroups => "find_duplicate_group_ids"
  | .store .findMixed => "find_entries_with_both_principals_set"
  | .store (.insert _) => "insert"
  | .store (.update _) => "update"
  | .store (.deleteEntry _) => "delete_by_entry_id"
  | .store (.deleteGroup _) => "delete_by_group_id"
  | .store (.replaceGroup _ _) => "replace_group"
  | .store .allocateGroup => "next_available_group_id"
  | .registry (.listRefs _) => "list_group_refs"
  | .registry (.findRef _ _) => "find_group_id"
  | .registry (.assign _ _ _) => "update_group_id"
  | .registry (.delete _ _) => "delete_resource"
  | .principal .currentUser => "current_user"
  | .principal (.unitsOf _) => "units_of"

/-- The arguments of the call, separated by blanks. -/
def arguments : Call → String
  | .store (.findGroup group) => group.text
  | .store (.insert grant) => grant.columns
  | .store (.update entry) => "#" ++ entry.id.text ++ " " ++ entry.columns
  | .store (.deleteEntry id) => id.text
  | .store (.deleteGroup group) => group.text
  | .store (.replaceGroup group grants) =>
    group.text ++ " [" ++ String.intercalate "; " (grants.map Grant.columns) ++ "]"
  | .registry (.listRefs kind) => kind.name
  | .registry (.findRef kind resource) => kind.name ++ " " ++ resource.text
  | .registry (.assign kind resource group) =>
    kind.name ++ " " ++ resource.text ++ " " ++ group.text
  | .registry (.delete kind resource) => kind.name ++ " " ++ resource.text
  | .principal (.unitsOf user) => user.text
  | _ => ""

/-- The method with the arguments, if it has any. -/
def text (c : Call) : String :=
  if c.arguments = "" then c.method else c.method ++ " " ++ c.arguments

end Call

end AccessGroups
