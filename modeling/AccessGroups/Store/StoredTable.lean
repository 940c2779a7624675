import AccessGroups.Store.Database

/-!
# The tables that statements can name

Besides the tables of others a database holds the tables of the store itself: the rows, the sequence
of group identifiers, the counters of row identifiers, the record of migrations, and the list of all
tables. Statements about resources can name any of them, and then the references of resources are
values of the store. The list of tables can only be read.

## Main definitions

* `StoredTable`: a table as statements see and change it.
* `Database.table?`: the table of a name.
-/

namespace AccessGroups

/-- A table as statements see and change it. -/
structure StoredTable where
  Row : Type
  relation : Relation Row
  /-- The database with other rows in the table. -/
  withRows : List Row → Database
  /-- The name under which the table can only be read, if so. -/
  readOnlyName : Option String := none
  /-- A new row before values are put into it. -/
  blank : Row
  /-- There is a fresh row identifier for a new row. -/
  left : Bool := true
  /-- The columns of which a new row needs values. -/
  needed : List String := []
  /-- The database with a row of another writer in the table. -/
  add : Row → Database

namespace MarkedEntry

/-- A column of the row itself. -/
def column (read : Entry → Cell) (write : Entry → Int64 → Entry) : Column MarkedEntry where
  read e := read e.entry
  write? e n := some { e with entry := write e.entry n }

/-- The column of the identifiers. -/
def idColumn : Column MarkedEntry :=
  column (fun e => .int e.id.val) fun e n => { e with id := ⟨n⟩ }

/-- A column of the number for a privilege. -/
def markColumn (read : Marks → Int64) (write : Marks → Int64 → Marks) : Column MarkedEntry where
  read e := .int (read e.marks)
  write? e n := some (e.withMarks (write e.marks n))

/-- The columns of the table of rows. -/
def columns : List (String × Column MarkedEntry) :=
  [("entry_id", idColumn),
    ("group_id", column (fun e => .int e.group.val) fun e n => { e with group := ⟨n⟩ }),
    ("user_id", column (fun e => .ofOption (e.user.map fun u => u.val)) fun e n =>
      { e with user := some ⟨n⟩ }),
    ("unit_id", column (fun e => .ofOption (e.unit.map fun u => u.val)) fun e n =>
      { e with unit := some ⟨n⟩ }),
    ("read_privilege", markColumn (fun m => m.read) fun m n => { m with read := n }),
    ("modify_privilege", markColumn (fun m => m.modify) fun m n => { m with modify := n }),
    ("create_privilege", markColumn (fun m => m.create) fun m n => { m with create := n }),
    ("delete_privilege", markColumn (fun m => m.delete) fun m n => { m with delete := n })]

/-- The table of rows as statements see it. -/
def relation (rows : List MarkedEntry) : Relation MarkedEntry where
  rows := rows
  columns := columns
  rowId := idColumn
  rowIdName := some "entry_id"
  admits rows := (rows.map fun e => e.entry.id).Nodup

end MarkedEntry

namespace GroupSequence

/-- The row of the sequence, if there is one: its value, if that is an integer. -/
def row? : GroupSequence → Option (Option Int64)
  | .at next => some (some next)
  | .inexact => some none
  | _ => none

/-- The sequence with these rows, of which there is one at most. -/
def ofRows : List (Option Int64) → GroupSequence
  | some next :: _ => .at next
  | none :: _ => .inexact
  | [] => .empty

/-- The column of the identifier, which must be one. -/
def idColumn : Column (Option Int64) where
  read _ := .int 1
  write? row n := if n = 1 then some row else none

/-- The column of the next identifier. -/
def nextColumn : Column (Option Int64) where
  read row := (row.map Cell.int).getD .real
  write? _ n := some (some n)

/-- The sequence as statements see it. -/
def relation (s : GroupSequence) : Relation (Option Int64) where
  rows := s.row?.toList
  columns := [("id", idColumn), ("next_value", nextColumn)]
  rowId := idColumn
  rowIdName := some "id"
  admits rows := rows.length ≤ 1

end GroupSequence

namespace RowCounter

/-- The column of the row identifiers. -/
def placeColumn : Column RowCounter :=
  ⟨fun c => .int c.place, fun c n => some { c with place := n }⟩

/-- The counters as statements see them. -/
def relation (counters : List RowCounter) : Relation RowCounter where
  rows := counters
  columns := [("name", ⟨fun c => c.name, fun c n => some { c with name := .int n }⟩),
    ("seq", ⟨fun c => c.largest, fun c n => some { c with largest := .int n }⟩)]
  rowId := placeColumn
  admits rows := (rows.map fun c => c.place).Nodup

/-- The counters in the order of their row identifiers. -/
def inOrder (counters : List RowCounter) : List RowCounter :=
  counters.mergeSort fun a b => a.place ≤ b.place

end RowCounter

namespace Migration

/-- The column of the row identifiers. -/
def placeColumn : Column Migration :=
  ⟨fun m => .int m.place, fun m n => some { m with place := n }⟩

/-- What a column shows of a checksum. -/
def checksumCell : Checksum → Cell
  | .number n => .int n
  | _ => .blob

/-- The columns of the record of migrations. -/
def columns : List (String × Column Migration) :=
  [("version", ⟨fun m => .int m.version, fun m n => some { m with version := n }⟩),
    ("description",
      ⟨fun m => .text m.description, fun m n => some { m with description := toString n }⟩),
    ("installed_on",
      ⟨fun m => (m.installed.map Cell.int).getD (.text "time"),
        fun m n => some { m with installed := some n }⟩),
    ("success", ⟨fun m => .int m.success, fun m n => some { m with success := n }⟩),
    ("checksum",
      ⟨fun m => checksumCell m.checksum, fun m n => some { m with checksum := .number n }⟩),
    ("execution_time", ⟨fun m => .int m.duration, fun m n => some { m with duration := n }⟩)]

/-- The record of migrations as statements see it. -/
def relation (record : List Migration) : Relation Migration where
  rows := record
  columns := columns
  rowId := placeColumn
  admits rows := (rows.map fun m => m.version).Nodup && (rows.map fun m => m.place).Nodup

/-- The record in the order of its row identifiers. -/
def inOrder (record : List Migration) : List Migration :=
  record.mergeSort fun a b => a.place ≤ b.place

end Migration

/-- A row of the list of tables, which also holds the indexes of tables. -/
structure Listed where
  /-- The row identifier. The pages of the table or index begin one after it. -/
  place : Int64
  /-- The index comes with its table and has no statement of its own. -/
  implied : Bool := false
  deriving DecidableEq, Repr

namespace Listed

/-- A column that shows a value. -/
def column (read : Listed → Cell) : Column Listed :=
  ⟨read, fun _ _ => none⟩

/-- The list of tables as statements see it. -/
def relation (rows : List Listed) : Relation Listed where
  rows := rows
  columns := [("type", column fun _ => .text "type"), ("name", column fun _ => .text "name"),
    ("tbl_name", column fun _ => .text "name"), ("rootpage", column fun r => .int (r.place + 1)),
    ("sql", column fun r => if r.implied then .null else .text "statement")]
  rowId := column fun r => .int r.place
  admits _ := true

/-- The rows for the table of others. -/
def ofHost (h : HostTable) : List Listed :=
  ⟨h.place, false⟩ :: if h.unique then [⟨h.place + 1, true⟩] else []

/-- The rows for the tables of a database. -/
def ofDatabase (d : Database) : List Listed :=
  (if d.migrations.isSome then [⟨1, false⟩, ⟨2, true⟩] else []) ++
    (if d.entries.isSome then [⟨3, false⟩] else []) ++ [⟨4, false⟩] ++
    (if d.entries.isSome then [⟨5, false⟩, ⟨6, false⟩, ⟨7, false⟩] else []) ++
    (if d.sequence = .dropped then [] else [⟨8, false⟩]) ++ d.hosts.flatMap ofHost

end Listed

namespace StoredTable

/-- The table of rows in a database. -/
def ofEntries (d : Database) (t : Table Entry.id) : StoredTable where
  Row := MarkedEntry
  relation := MarkedEntry.relation (t.rows.map fun e => ⟨e, d.marksOf e⟩)
  withRows rows := { d with
    entries := some (.ofRows (rows.map fun e => e.entry))
    marks := (rows.filter fun e => !e.isPlain).map fun e => (e.entry.id, e.marks) }
  blank := .ofEntry ((⟨⟨0⟩, none, none, .none⟩ : Grant).toEntry ((d.nextEntry? t).getD ⟨0⟩))
  left := (d.nextEntry? t).isSome
  needed := ["group_id"]
  add e :=
    let written := d.insertRaw e.entry
    if e.isPlain then written else { written with marks := (e.entry.id, e.marks) :: written.marks }

/-- The sequence of group identifiers in a database. -/
def ofSequence (d : Database) : StoredTable where
  Row := Option Int64
  relation := d.sequence.relation
  withRows rows := { d with sequence := .ofRows rows }
  blank := none
  left := d.sequence = .empty
  needed := ["next_value"]
  add row := { d with sequence := .ofRows [row] }

/-- The counters of row identifiers in a database. -/
def ofCounters (d : Database) : StoredTable where
  Row := RowCounter
  relation := RowCounter.relation d.counters
  withRows rows := { d with counters := RowCounter.inOrder rows }
  blank := { place := RowCounter.nextPlace d.counters, name := .null, largest := .null }
  add row := { d with
    counters := RowCounter.inOrder ((d.counters.filter fun c => c.place ≠ row.place) ++ [row]) }

/-- The record of migrations in a database. -/
def ofMigrations (d : Database) (record : List Migration) : StoredTable where
  Row := Migration
  relation := Migration.relation record
  withRows rows := { d with migrations := some (Migration.inOrder rows) }
  blank := { place := Migration.nextPlace record, version := 0 }
  needed := ["description", "success", "checksum", "execution_time"]
  add _ := d

/-- The list of tables of a database. -/
def ofList (d : Database) (name : String) (rows : List Listed) : StoredTable where
  Row := Listed
  relation := Listed.relation rows
  withRows _ := d
  readOnlyName := some name
  blank := ⟨0, false⟩
  add _ := d

/-- A table of others in a database. -/
def ofHost (d : Database) (h : HostTable) : StoredTable where
  Row := HostRow
  relation := h.relation
  withRows rows := d.setHost { h with rows := .ofRows rows }
  blank := ⟨h.nextResource, none⟩
  add row := d.setHost (h.putRaw row)

end StoredTable

namespace Database

/-- The table of the given name; names are compared without regard to case. -/
def table? (d : Database) (name : String) : Option StoredTable :=
  match Text.lower name with
  | "permission_entries" => d.entries.map (.ofEntries d)
  | "group_id_sequence" => if d.sequence = .dropped then none else some (.ofSequence d)
  | "sqlite_sequence" => some (.ofCounters d)
  | "_sqlx_migrations" => d.migrations.map (.ofMigrations d)
  | "sqlite_master" | "sqlite_schema" => some (.ofList d "sqlite_master" (Listed.ofDatabase d))
  | "sqlite_temp_master" | "sqlite_temp_schema" => some (.ofList d "sqlite_temp_master" [])
  | _ => (d.host? name).map (.ofHost d)

end Database

end AccessGroups
