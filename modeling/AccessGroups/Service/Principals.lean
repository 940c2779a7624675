import AccessGroups.Program.Call

/-!
# Fixed principals

A source of principals that always names the same user, or nobody, and knows the units of some
users.

## Main definitions

* `Principals`: the user and the units, with `Principals.perform`.
-/

namespace AccessGroups

/-- The current user, if there is one, and the units of some users. -/
structure Principals where
  user : Option UserId := none
  units : List (UserId × List UnitId) := []
  deriving DecidableEq, Repr

namespace Principals

instance : Inhabited Principals := ⟨{}⟩

/-- Set the units of a user, instead of those set before. -/
def withUnits (p : Principals) (user : UserId) (units : List UnitId) : Principals :=
  { p with units := (user, units) :: p.units }

/-- The units of a user: those set last. -/
def unitsOf (p : Principals) (user : UserId) : List UnitId :=
  match p.units.find? fun u => u.1 = user with
  | some (_, units) => units
  | none => []

/-- Answer a call. -/
def perform (p : Principals) : (c : PrincipalCall) → c.Answer
  | .currentUser =>
    match p.user with
    | some user => .ok user
    | none => .error .unauthenticated
  | .unitsOf user => .ok (p.unitsOf user)

end Principals

end AccessGroups
