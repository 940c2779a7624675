import AccessGroups.Codec
import AccessGroups.Store.Database

/-!
# Databases in files

A database is saved as a JSON document: its rows, the counters of the identifiers that it has handed
out, the tables of the resources and the record of migrations.

## Main definitions

* `Database.toJson`, `Database.ofJson?`: the saved form.
-/

namespace AccessGroups

open Json (Value Source required? optional?)

namespace GroupSequence

/-- The next identifier, or the name of what became of the sequence. -/
def toJson : GroupSequence → Value
  | .dropped => .text "dropped"
  | .empty => .text "empty"
  | .at next => .int next.toInt
  | .inexact => .text "inexact"

/-- A sequence from its saved form. -/
def ofJson? : Source → Option GroupSequence
  | .text (some "dropped") => some .dropped
  | .text (some "empty") => some .empty
  | .text (some "inexact") => some .inexact
  | s => s.int64?.map .at

end GroupSequence

namespace HostRow

/-- The resource and its reference, null if it is empty. -/
def toJson (r : HostRow) : Value :=
  .list [r.resource.toJson, Identifier.columnJson r.group]

/-- A row from its saved form. -/
def ofJson? : Source → Option HostRow
  | .list [resource, group] =>
    return ⟨← Identifier.ofJson? resource, ← optional? Identifier.ofJson? (some group)⟩
  | _ => none

end HostRow

namespace HostTable

/-- The names, the constraints and the rows of the table. -/
def toJson (t : HostTable) : Value :=
  .record [("table", .text t.names.table), ("id_column", .text t.names.idColumn),
    ("group_column", .text t.names.groupColumn), ("place", .int t.place.toInt),
    ("unique", .bool t.unique),
    ("positive", .bool t.positive), ("rows", .list (t.rows.rows.map HostRow.toJson))]

/-- A table from its saved form. -/
def ofJson? (s : Source) : Option HostTable := do
  let [table, idColumn, groupColumn, place, unique, positive, rows] ←
    s.fields? ["table", "id_column", "group_column", "place", "unique", "positive", "rows"] | none
  let rows ← required? (Source.listOf? HostRow.ofJson?) rows
  return {
    names := ⟨← required? Source.text? table, ← required? Source.text? idColumn,
      ← required? Source.text? groupColumn⟩
    place := ← required? Source.int64? place
    unique := ← required? Source.bool? unique
    positive := ← required? Source.bool? positive
    rows := .ofRows rows }

end HostTable

namespace Cell

/-- A number or a text as it is, and another value by its name in a list. -/
def toJson : Cell → Value
  | .null => .null
  | .int n => .int n.toInt
  | .real => .list [.text "real"]
  | .text s => .text s
  | .blob => .list [.text "blob"]

/-- A value from its saved form. -/
def ofJson? : Source → Option Cell
  | .null => some .null
  | .text (some s) => some (.text s)
  | .list [.text (some "real")] => some .real
  | .list [.text (some "blob")] => some .blob
  | s => s.int64?.map .int

end Cell

namespace RowCounter

/-- The row identifier, the name and the largest identifier. -/
def toJson (c : RowCounter) : Value :=
  .list [.int c.place.toInt, c.name.toJson, c.largest.toJson]

/-- A counter from its saved form. -/
def ofJson? : Source → Option RowCounter
  | .list [place, name, largest] =>
    return ⟨← place.int64?, ← Cell.ofJson? name, ← Cell.ofJson? largest⟩
  | _ => none

end RowCounter

namespace Marks

/-- The numbers of a row after its identifier. -/
def toJson (id : EntryId) (m : Marks) : Value :=
  .list (id.toJson :: [m.read, m.modify, m.create, m.delete].map fun n => .int n.toInt)

/-- The numbers of a row from their saved form. -/
def ofJson? : Source → Option (EntryId × Marks)
  | .list [id, read, modify, create, delete] =>
    return (← Identifier.ofJson? id,
      ⟨← read.int64?, ← modify.int64?, ← create.int64?, ← delete.int64?⟩)
  | _ => none

end Marks

namespace Checksum

/-- The number, or whether the migration has been altered. -/
def toJson : Checksum → Value
  | .intact => .bool false
  | .altered => .bool true
  | .number n => .int n.toInt

/-- A checksum from its saved form. -/
def ofJson? : Source → Option Checksum
  | .bool changed => some (if changed then .altered else .intact)
  | s => s.int64?.map .number

end Checksum

namespace Migration

/-- The columns of the row. -/
def toJson (m : Migration) : Value :=
  .list [.int m.place.toInt, .int m.version.toInt, .text m.description,
    (m.installed.map fun n => Value.int n.toInt).getD .null, .int m.success.toInt,
    m.checksum.toJson, .int m.duration.toInt]

/-- A row of the record of migrations from its saved form. -/
def ofJson? : Source → Option Migration
  | .list [place, version, description, installed, success, checksum, duration] =>
    return {
      place := ← place.int64?
      version := ← version.int64?
      description := ← description.text?
      installed := ← optional? Source.int64? (some installed)
      success := ← success.int64?
      checksum := ← Checksum.ofJson? checksum
      duration := ← duration.int64? }
  | _ => none

end Migration

namespace Database

/-- The saved form of the database. -/
def toJson (d : Database) : Value :=
  .record [
    ("entries", (d.entries.map fun t => Value.list (t.rows.map Entry.toJson)).getD .null),
    ("marks", .list (d.marks.map fun m => m.2.toJson m.1)),
    ("counters", .list (d.counters.map RowCounter.toJson)),
    ("group_id_sequence", d.sequence.toJson), ("tables", .list (d.hosts.map HostTable.toJson)),
    ("migrations",
      (d.migrations.map fun record => Value.list (record.map Migration.toJson)).getD .null)]

/-- A database from its saved form. -/
def ofJson? (s : Source) : Option Database := do
  let [entries, marks, counters, sequence, hosts, migrations] ←
    s.fields? ["entries", "marks", "counters", "group_id_sequence", "tables", "migrations"] | none
  let rows ← optional? (Source.listOf? Entry.ofJson?) entries
  return {
    entries := rows.map Table.ofRows
    marks := ← required? (Source.listOf? Marks.ofJson?) marks
    counters := ← required? (Source.listOf? RowCounter.ofJson?) counters
    sequence := ← required? GroupSequence.ofJson? sequence
    hosts := ← required? (Source.listOf? HostTable.ofJson?) hosts
    migrations := ← optional? (Source.listOf? Migration.ofJson?) migrations }

end Database

end AccessGroups
