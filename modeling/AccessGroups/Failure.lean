import AccessGroups.Entry
import AccessGroups.Resource
import AccessGroups.Text.Quoted

/-!
# Failures

Every failure is a cause with one wording. A store reports that a row is gone, that a constraint
forbids a change, or that something went wrong behind it; the services refuse invalid input before
they touch a store, name what is missing, and pass every other failure on.

## Main definitions

* `StoreError`, `PrincipalError`: failures of a store and of the source of principals.
* `ValidationError`: rules that the input of a service can break.
* `ServiceError`: the failures of a service, each with its `message`.
-/

namespace AccessGroups

open Text (Quoted.ofString)

/-- Failures of a permission store or of the resources. -/
inductive StoreError where
  | notFound
  | conflict
  | backend (detail : String)
  deriving DecidableEq, Repr

/-- Failures of the source of the current principal. -/
inductive PrincipalError where
  | unauthenticated
  | resolver (detail : String)
  deriving DecidableEq, Repr

/-- Rules that the input of a service can break. -/
inductive ValidationError where
  | invalidGroup
  | bothPrincipals
  | noPrincipal
  | noPrivilege
  | missingEntryId
  | noEntries
  | mismatchedGroup
  deriving DecidableEq, Repr

/-- What a service looked for in vain. -/
inductive Subject where
  | group (id : GroupId)
  | entry (id : EntryId)
  | resource (kind : ResourceKind) (id : ResourceId)
  deriving DecidableEq, Repr

/-- Failures of a service. -/
inductive ServiceError where
  | validation (cause : ValidationError)
  | notFound (what : Subject)
  | store (cause : StoreError)
  | principal (cause : PrincipalError)
  deriving DecidableEq, Repr

/-- A privilege or a kind of resource that has no such name. -/
inductive NameError where
  | privilege (text : String)
  | resourceKind (text : String)
  deriving DecidableEq, Repr

namespace StoreError

/-- The failure as it is told to a caller of the store. -/
def message : StoreError → String
  | .notFound => "not found"
  | .conflict => "conflict"
  | .backend detail => "backend error: " ++ detail

/-- The cause in diagnostic form. -/
def diagnostic : StoreError → String
  | .notFound => "NotFound"
  | .conflict => "Conflict"
  | .backend detail => "Backend(" ++ Quoted.ofString detail ++ ")"

end StoreError

namespace PrincipalError

/-- The failure as it is told to a caller of the source of principals. -/
def message : PrincipalError → String
  | .unauthenticated => "no authenticated user"
  | .resolver detail => "principal lookup failed: " ++ detail

/-- The cause in diagnostic form. -/
def diagnostic : PrincipalError → String
  | .unauthenticated => "Unauthenticated"
  | .resolver detail => "Resolver(" ++ Quoted.ofString detail ++ ")"

end PrincipalError

namespace ValidationError

/-- The broken rule in words. -/
def message : ValidationError → String
  | .invalidGroup => "incorrect groupId"
  | .bothPrincipals => "both principal set"
  | .noPrincipal => "no principal set"
  | .noPrivilege => "all privileges false"
  | .missingEntryId => "missing entry id"
  | .noEntries => "no entries"
  | .mismatchedGroup => "entries do not share groupId"

/-- The cause in diagnostic form. -/
def diagnostic : ValidationError → String
  | .invalidGroup => "IncorrectGroupId"
  | .bothPrincipals => "BothPrincipalsSet"
  | .noPrincipal => "NoPrincipalSet"
  | .noPrivilege => "AllPrivilegesFalse"
  | .missingEntryId => "MissingEntryId"
  | .noEntries => "NoEntries"
  | .mismatchedGroup => "MismatchedGroupId"

end ValidationError

/-- The thing looked for, by kind and identifier. -/
def Subject.text : Subject → String
  | .group id => "group " ++ id.text
  | .entry id => "entry " ++ id.text
  | .resource kind id => kind.name ++ " " ++ id.text

namespace ServiceError

/-- The failure as it is told to a caller of a service. -/
def message : ServiceError → String
  | .validation cause => "validation failed: " ++ cause.message
  | .notFound what => "not found: " ++ what.text
  | .store cause => "store error: " ++ cause.message
  | .principal cause => "access error: " ++ cause.message

/-- The cause in diagnostic form. -/
def diagnostic : ServiceError → String
  | .validation cause => "Validation(" ++ cause.diagnostic ++ ")"
  | .notFound what => "NotFound(" ++ Quoted.ofString what.text ++ ")"
  | .store cause => "Store(" ++ cause.diagnostic ++ ")"
  | .principal cause => "Access(" ++ cause.diagnostic ++ ")"

/-- A missing row is described as the thing looked for; other failures of the store pass through. -/
def ofStore (what : Subject) : StoreError → ServiceError
  | .notFound => .notFound what
  | e => .store e

@[simp] theorem ofStore_notFound (what : Subject) : ofStore what .notFound = .notFound what := rfl

@[simp] theorem ofStore_conflict (what : Subject) : ofStore what .conflict = .store .conflict := rfl

@[simp] theorem ofStore_backend (what : Subject) (detail : String) :
    ofStore what (.backend detail) = .store (.backend detail) := rfl

end ServiceError

/-- The refused name, in words. -/
def NameError.message : NameError → String
  | .privilege text => "invalid privilege: " ++ text
  | .resourceKind text => "invalid resource kind: " ++ text

end AccessGroups
