import AccessGroups.Id
import AccessGroups.Privileges

/-!
# Grants and entries

A grant gives privileges in one group to a user or a unit; an entry is a grant that is stored under
an identifier. Rows may come from elsewhere, so both principal columns are optional and nothing
forces exactly one of them to be filled.

## Main definitions

* `Grant`, `Entry`: a grant, and a grant stored under an identifier.
* `Grant.principal?`: the one principal of a grant, if it has exactly one.
* `Entry.sameGrant`: two entries agree in everything but their identifiers.
-/

namespace AccessGroups

/-- The principal of a well-formed grant. -/
inductive Principal where
  | user (id : UserId)
  | unit (id : UnitId)
  deriving DecidableEq, Repr

/-- Privileges in a group for the principals of the two columns. -/
structure Grant where
  group : GroupId
  user : Option UserId
  unit : Option UnitId
  privileges : Privileges
  deriving DecidableEq, Hashable, Inhabited, Repr

/-- A grant stored under an identifier. -/
structure Entry extends Grant where
  id : EntryId
  deriving DecidableEq, Inhabited, Repr

namespace Grant

/-- A grant to a user. -/
def forUser (group : GroupId) (user : UserId) (privileges : Privileges) : Grant :=
  ⟨group, some user, none, privileges⟩

/-- A grant to a unit. -/
def forUnit (group : GroupId) (unit : UnitId) (privileges : Privileges) : Grant :=
  ⟨group, none, some unit, privileges⟩

/-- The same principal and privileges in another group. -/
def withGroup (g : Grant) (group : GroupId) : Grant :=
  { g with group }

/-- The principal of the grant, if exactly one column is filled. -/
def principal? (g : Grant) : Option Principal :=
  match g.user, g.unit with
  | some user, none => some (.user user)
  | none, some unit => some (.unit unit)
  | _, _ => none

/-- Both principal columns are filled. -/
def isMixed (g : Grant) : Bool :=
  g.user.isSome && g.unit.isSome

/-- The grant names nobody or gives nothing, so that it never lets anybody in. -/
def isInert (g : Grant) : Bool :=
  (g.user.isNone && g.unit.isNone) || g.privileges.isEmpty

/-- The grant stored under an identifier. -/
def toEntry (g : Grant) (id : EntryId) : Entry :=
  { g with id }

/-- The columns after the identifier in the text of a call, a hyphen standing for an empty one. -/
def columns (g : Grant) : String :=
  g.group.text ++ " " ++ (g.user.map Identifier.text).getD "-" ++ " " ++
    (g.unit.map Identifier.text).getD "-" ++ " " ++ g.privileges.letters

@[simp] theorem toGrant_toEntry (g : Grant) (id : EntryId) : (g.toEntry id).toGrant = g := rfl

@[simp] theorem id_toEntry (g : Grant) (id : EntryId) : (g.toEntry id).id = id := rfl

@[simp] theorem group_withGroup (g : Grant) (group : GroupId) : (g.withGroup group).group = group :=
  rfl

theorem withGroup_group (g : Grant) : g.withGroup g.group = g := rfl

end Grant

namespace Entry

/-- The two entries agree in group, principals and privileges. -/
def sameGrant (a b : Entry) : Bool :=
  a.group = b.group && a.user = b.user && a.unit = b.unit && a.privileges = b.privileges

@[ext] theorem ext {a b : Entry} (h : a.toGrant = b.toGrant) (hid : a.id = b.id) : a = b := by
  cases a; cases b; cases h; cases hid; rfl

theorem sameGrant_iff {a b : Entry} : a.sameGrant b = true ↔ a.toGrant = b.toGrant := by
  rcases a with ⟨⟨⟩, _⟩
  rcases b with ⟨⟨⟩, _⟩
  simp [sameGrant, and_assoc]

end Entry

end AccessGroups
