import AccessGroups.Entry
import AccessGroups.Resource
import AccessGroups.Json.Value
import AccessGroups.Json.Fields

/-!
# JSON forms of the stored types

Identifiers are bare integers, privileges and rows are objects with their fields in declared order,
choices are named in lower case, and an empty principal column is null.

## Main definitions

* `toJson` and `ofJson?` for identifiers, `Privileges`, `Privilege`, `ResourceKind`, `GroupRef`,
  `Principal`, `Grant` and `Entry`.
-/

namespace AccessGroups

open Json (Value Source required? optional? named?)

namespace Identifier

variable {family : IdFamily}

/-- The identifier as a bare integer. -/
def toJson (a : Identifier family) : Value :=
  .int a.val.toInt

/-- An identifier from an integer of the signed 64-bit range. -/
def ofJson? (s : Source) : Option (Identifier family) :=
  s.int64?.map Identifier.mk

/-- A principal column, null if it is empty. -/
def columnJson (a : Option (Identifier family)) : Value :=
  (a.map toJson).getD .null

end Identifier

namespace Privileges

/-- The four privileges as flags. -/
def toJson (p : Privileges) : Value :=
  .record [("read", .bool p.read), ("modify", .bool p.modify), ("create", .bool p.create),
    ("delete", .bool p.delete)]

/-- Privileges from their four flags, all of which must be there. -/
def ofJson? (s : Source) : Option Privileges := do
  let [read, modify, create, delete] ← s.fields? ["read", "modify", "create", "delete"]
    | Option.none
  return ⟨← required? Source.bool? read, ← required? Source.bool? modify,
    ← required? Source.bool? create, ← required? Source.bool? delete⟩

end Privileges

/-- The name of the privilege. -/
def Privilege.toJson (p : Privilege) : Value :=
  .text p.name

/-- A privilege from its name. -/
def Privilege.ofJson? : Source → Option Privilege :=
  named? Privilege.ofName?

/-- The name of the kind. -/
def ResourceKind.toJson (k : ResourceKind) : Value :=
  .text k.name

/-- A kind from its name. -/
def ResourceKind.ofJson? : Source → Option ResourceKind :=
  named? ResourceKind.ofName?

namespace GroupRef

/-- The resource with the group that it refers to. -/
def toJson (r : GroupRef) : Value :=
  .record [("resource_id", r.resource.toJson), ("group_id", r.group.toJson)]

/-- A reference from its two fields. -/
def ofJson? (s : Source) : Option GroupRef := do
  let [resource, group] ← s.fields? ["resource_id", "group_id"] | none
  return ⟨← required? Identifier.ofJson? resource, ← required? Identifier.ofJson? group⟩

end GroupRef

namespace Principal

/-- The identifier under the name of its column. -/
def toJson : Principal → Value
  | .user id => .record [("user", id.toJson)]
  | .unit id => .record [("unit", id.toJson)]

/-- A principal from an object with one member. -/
def ofJson? (s : Source) : Option Principal :=
  match s.choice? with
  | some ("user", some content) => (Identifier.ofJson? content).map .user
  | some ("unit", some content) => (Identifier.ofJson? content).map .unit
  | _ => none

end Principal

namespace Grant

/-- The members that a grant has in its own document and in that of an entry. -/
def members (g : Grant) : List (String × Value) :=
  [("group_id", g.group.toJson), ("user_id", Identifier.columnJson g.user),
    ("unit_id", Identifier.columnJson g.unit), ("privileges", g.privileges.toJson)]

/-- The grant with its four fields. -/
def toJson (g : Grant) : Value :=
  .record g.members

/-- A grant from the documents of its four fields. -/
def ofFields? (group user unit privileges : Option Source) : Option Grant :=
  return ⟨← required? Identifier.ofJson? group, ← optional? Identifier.ofJson? user,
    ← optional? Identifier.ofJson? unit, ← required? Privileges.ofJson? privileges⟩

/-- A grant from its document; a principal column may be missing. -/
def ofJson? (s : Source) : Option Grant := do
  let [group, user, unit, privileges] ←
    s.fields? ["group_id", "user_id", "unit_id", "privileges"] | none
  ofFields? group user unit privileges

end Grant

namespace Entry

/-- The identifier followed by the fields of the grant. -/
def toJson (e : Entry) : Value :=
  .record (("id", e.id.toJson) :: e.toGrant.members)

/-- An entry from its document; a principal column may be missing. -/
def ofJson? (s : Source) : Option Entry := do
  let [id, group, user, unit, privileges] ←
    s.fields? ["id", "group_id", "user_id", "unit_id", "privileges"] | none
  let id ← required? Identifier.ofJson? id
  return (← Grant.ofFields? group user unit privileges).toEntry id

end Entry

end AccessGroups
