import AccessGroups.Id

/-!
# Protected resources

Resources come in eight kinds, each with identifiers of its own. A resource refers to the group
that protects it; a reference to a group that is not positive means that none is assigned.

## Main definitions

* `ResourceKind`: the eight kinds, with `ResourceKind.all` in scan order.
* `GroupRef`: a resource with the group that it refers to.
-/

namespace AccessGroups

/-- Kind of a protected resource. -/
inductive ResourceKind where
  | component
  | form
  | layout
  | page
  | unit
  | user
  | file
  | gallery
  deriving DecidableEq, Hashable, Repr

namespace ResourceKind

/-- Every kind, in scan order. -/
def all : List ResourceKind :=
  [.component, .form, .layout, .page, .unit, .user, .file, .gallery]

/-- The name of the kind. -/
def name : ResourceKind → String
  | .component => "component"
  | .form => "form"
  | .layout => "layout"
  | .page => "page"
  | .unit => "unit"
  | .user => "user"
  | .file => "file"
  | .gallery => "gallery"

/-- The kind with the given name, which is matched exactly. -/
def ofName? (name : String) : Option ResourceKind :=
  all.find? fun k => k.name = name

theorem mem_all (k : ResourceKind) : k ∈ all := by
  cases k <;> decide

theorem ofName?_name (k : ResourceKind) : ofName? k.name = some k := by
  cases k <;> decide

/-- The place of the kind in scan order. -/
def index (k : ResourceKind) : Nat :=
  all.idxOf k

end ResourceKind

/-- A resource of some kind together with the group that protects it. -/
structure GroupRef where
  resource : ResourceId
  group : GroupId
  deriving DecidableEq, Hashable, Repr

end AccessGroups
