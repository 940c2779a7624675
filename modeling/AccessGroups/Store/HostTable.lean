import AccessGroups.Store.Relation
import AccessGroups.Store.Table

/-!
# Tables of others

The tables of the resources belong to others. A reference may be empty, and constraints on the
references may forbid a change.

## Main definitions

* `HostTable`: a table of resources, with `HostTable.relation`.
-/

namespace AccessGroups

/-- A table of others with constraints on its references. -/
structure HostTable where
  names : ResourceTable
  /-- The place in the list of the tables of a database. -/
  place : Int64 := 9
  rows : Table HostRow.resource := .empty
  /-- No two references may be equal. -/
  unique : Bool := false
  /-- References must be positive. -/
  positive : Bool := false
  deriving DecidableEq

namespace HostTable

/-- The column of the identifiers, which are the row identifiers. -/
def idColumn : Column HostRow where
  read row := .int row.resource.val
  write? row n := some { row with resource := ⟨n⟩ }

/-- The column of the references. -/
def groupColumn (t : HostTable) : Column HostRow where
  read row := (row.group.map fun g => Cell.int g.val).getD .null
  write? row n := if t.positive && !(0 < n) then none else some { row with group := some ⟨n⟩ }

/-- The table as statements see it. -/
def relation (t : HostTable) : Relation HostRow where
  rows := t.rows.rows
  columns := [
    (Text.lower t.names.idColumn, idColumn),
    (Text.lower t.names.groupColumn, t.groupColumn)]
  rowId := idColumn
  rowIdName := some (Text.lower t.names.idColumn)
  admits rows :=
    (rows.map fun r => r.resource).Nodup && (!t.unique || (rows.filterMap fun r => r.group).Nodup)

/-- The identifier of a row that is given none: the one after the largest. -/
def nextResource (t : HostTable) : ResourceId :=
  ⟨((t.rows.rows.getLast?.map fun r => r.resource.val).getD 0) + 1⟩

/-- Put a row of another writer into the table, in the place of every row that it conflicts with. -/
def putRaw (t : HostTable) (row : HostRow) : HostTable :=
  if t.positive && !(row.group.all fun g => decide g.IsValid) then t
  else
    { t with
      rows := (t.rows.filter fun r => !t.unique || r.group.isNone || r.group ≠ row.group).put row }

end HostTable

end AccessGroups
