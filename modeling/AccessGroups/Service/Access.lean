import AccessGroups.Program.Basic
import AccessGroups.Settings

/-!
# Access checks

The current user covers a mask in a group when one row of the group grants every bit of the mask to
the user or to a unit of the user. A group without rows grants nothing. Missing access is an answer,
not a failure; failures come only from the store and from the source of principals.

## Main definitions

* `Access.satisfies`: whether the current user covers a mask in a group.
* `Access.currentUser`: the current user, who must be authenticated even if checks are bypassed.
-/

namespace AccessGroups.Access

/-- Announce that checks are bypassed, if they are. -/
def prepare (settings : AccessSettings) : Prog Unit := do
  if settings.bypass then Prog.log .bypassEnabled

/-- The units of the rows that grant the mask. -/
def candidateUnits (entries : List Entry) (mask : Privileges) : List UnitId :=
  (entries.filter fun e => e.privileges.covers mask).filterMap fun e => e.unit

/-- The current user covers the mask in the group. The units of the user are looked up only if a row
with a unit could still grant the mask. -/
def satisfies (settings : AccessSettings) (group : GroupId) (mask : Privileges) :
    Prog (Except ServiceError Bool) := do
  if settings.bypass then
    Prog.log (.checkBypassed group mask)
    return .ok true
  match ← Prog.principal .currentUser with
  | .error e => return .error (.principal e)
  | .ok user =>
    match ← Prog.store (.findGroup group) with
    | .error e => return .error (.store e)
    | .ok entries =>
      if entries.any fun e => e.user = some user && e.privileges.covers mask then
        return .ok true
      if (candidateUnits entries mask).isEmpty then return .ok false
      match ← Prog.principal (.unitsOf user) with
      | .error e => return .error (.principal e)
      | .ok units => return .ok ((candidateUnits entries mask).any units.contains)

/-- The current user, whether or not checks are bypassed. -/
def currentUser : Prog (Except ServiceError UserId) := do
  match ← Prog.principal .currentUser with
  | .error e => return .error (.principal e)
  | .ok user => return .ok user

end AccessGroups.Access
