import AccessGroups.Store.Cell
import AccessGroups.Store.ResourceTables

/-!
# Tables as statements see them

A statement names a table and two of its columns, one for the identifiers of resources and one for
their groups. Neither needs to be what its name says: several rows can have the same identifier, and
either value can be missing or be no integer at all. Names are compared without regard to case.

## Main definitions

* `Relation`: the rows and columns of a table, with the constraints on them.
* `Relation.resources`, `Relation.find`, `Relation.assign`, `Relation.delete`: the statements.
* `Relation.newRow?`: the row that another writer adds.
-/

namespace AccessGroups

/-- A resource in a table of others; the reference may be empty. -/
structure HostRow where
  resource : ResourceId
  group : Option GroupId
  deriving DecidableEq, Repr

/-- The value of a reference column: an empty one reads as zero. -/
def HostRow.groupOrZero (r : HostRow) : GroupId :=
  r.group.getD ⟨0⟩

/-- A column of a table whose rows have type `ρ`. -/
structure Column (ρ : Type) where
  read : ρ → Cell
  /-- Put an integer into a row, unless a constraint on the row forbids it. -/
  write? : ρ → Int64 → Option ρ

/-- The rows and columns of a table, with the constraints on them. -/
structure Relation (ρ : Type) where
  /-- The rows in the order of their row identifiers. -/
  rows : List ρ
  /-- The columns with their names in lower case. -/
  columns : List (String × Column ρ)
  /-- The row identifiers, which have names of their own unless columns have them. -/
  rowId : Column ρ
  /-- The column that holds the row identifiers, if there is one. -/
  rowIdName : Option String := none
  /-- The constraints between rows hold. -/
  admits : List ρ → Bool

namespace Relation

variable {ρ : Type} (r : Relation ρ)

/-- The column of the given name. -/
def column? (name : String) : Option (Column ρ) :=
  ((r.columns.find? fun c => c.1 = Text.lower name).map fun c => c.2) <|>
    if Text.lower name ∈ ["rowid", "oid", "_rowid_"] then some r.rowId else none

/-- The name stands for the row identifiers. -/
def isRowId (name : String) : Bool :=
  if r.columns.any fun c => c.1 = Text.lower name then r.rowIdName = some (Text.lower name)
  else (r.column? name).isSome

/-- The column of the given name, or the report that there is none. -/
def column (name : String) : Except DatabaseError (Column ρ) :=
  match r.column? name with
  | some c => .ok c
  | none => .error (.noColumn name)

/-- The values that a name stands for, or the report that it stands for none. -/
def reader (name : String) : Except DatabaseError (ρ → Cell) :=
  match Cell.ofWord? name, r.column? name, Cell.ofFreeWord? name with
  | some value, _, _ => .ok fun _ => value
  | none, some c, _ => .ok c.read
  | none, none, some value => .ok fun _ => value
  | none, none, none => .error (.noColumn name)

/-- The resources with their references in ascending order of their identifiers. -/
def resources (names : ResourceTable) : Except DatabaseError (List HostRow) := do
  let id ← r.reader names.idColumn
  let group ← r.reader names.groupColumn
  (r.rows.mergeSort fun a b => (id a).le (id b)).mapM fun row => do
    let resource ← (id row).int? 0
    let group ← (group row).int? 1
    return ⟨⟨resource.getD 0⟩, group.map Identifier.mk⟩

/-- The reference of a resource: that of the first row with its identifier. -/
def find (names : ResourceTable) (resource : ResourceId) : Except StoreError GroupId :=
  match r.reader names.groupColumn, r.reader names.idColumn with
  | .error e, _ | _, .error e => .error e.toStoreError
  | .ok group, .ok id =>
    match r.rows.find? fun row => (id row).equals resource.val with
    | none => .error .notFound
    | some row =>
      match (group row).int? 0 with
      | .ok g => .ok ⟨g.getD 0⟩
      | .error e => .error e.toStoreError

/-- The rows after the references of a resource have been changed. -/
def assign (names : ResourceTable) (resource : ResourceId) (group : GroupId) :
    Except StoreError (List ρ) :=
  match r.column names.groupColumn, r.reader names.idColumn with
  | .error e, _ | _, .error e => .error e.toStoreError
  | .ok column, .ok id =>
    if r.rows.any fun row => (id row).equals resource.val then
      let changed := r.rows.mapM fun row =>
        if (id row).equals resource.val then column.write? row group.val else some row
      match changed with
      | some rows => if r.admits rows then .ok rows else .error .conflict
      | none => .error .conflict
    else .error .notFound

/-- The rows after those of a resource have been deleted. -/
def delete (names : ResourceTable) (resource : ResourceId) : Except StoreError (List ρ) :=
  match r.reader names.idColumn with
  | .error e => .error e.toStoreError
  | .ok id =>
    if r.rows.any fun row => (id row).equals resource.val then
      .ok (r.rows.filter fun row => !(id row).equals resource.val)
    else .error .notFound

/-- The row identifier that another writer gives to a new row, if it gives one. Where both columns
are that of the row identifiers the second value counts. -/
def givenRowId? (names : ResourceTable) (row : HostRow) : Option Int64 :=
  if r.isRowId names.groupColumn then row.group.map fun g => g.val
  else if r.isRowId names.idColumn then some row.resource.val
  else none

/-- A new row in which a resource and its reference are put. It is made from a blank row with a
fresh row identifier, for which there must be one left unless the row identifier is given. Where
both columns are the same one of the others the first value counts. -/
def newRow? (blank : ρ) (left : Bool) (names : ResourceTable) (row : HostRow) : Option ρ := do
  let id ← r.column? names.idColumn
  let group ← r.column? names.groupColumn
  let numbered ←
    match r.givenRowId? names row with
    | some n => r.rowId.write? blank n
    | none => if left then some blank else none
  let referring ←
    match row.group with
    | some g => if r.isRowId names.groupColumn then some numbered else group.write? numbered g.val
    | none => some numbered
  if r.isRowId names.idColumn then some referring else id.write? referring row.resource.val

end Relation

end AccessGroups
