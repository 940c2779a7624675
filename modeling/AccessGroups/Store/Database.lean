import AccessGroups.Program.Call
import AccessGroups.Store.RowCounter
import AccessGroups.Store.HostTable
import AccessGroups.Store.Marks
import AccessGroups.Store.Migration

/-!
# The store in a database

Rows live in a table whose identifiers are handed out above every identifier that the table ever
held, and group identifiers come from a sequence with one row. The tables of the resources belong to
others and may be absent. Statements and transactions happen as a whole or not at all.

## Main definitions

* `Database`: the tables, with `Database.performStore`.
* `Database.migrate`: opening the database again.
-/

namespace AccessGroups

/-- The sequence of group identifiers. -/
inductive GroupSequence where
  /-- The table is gone. -/
  | dropped
  /-- The table has lost its row. -/
  | empty
  /-- The next identifier, unless the rows are ahead of it. -/
  | at (next : Int64)
  /-- A sum left the range of integers and was stored as a floating-point number. -/
  | inexact
  deriving DecidableEq, Repr

/-- The tables of a database. -/
structure Database where
  /-- The rows, unless their table is gone. -/
  entries : Option (Table Entry.id) := some .empty
  /-- The numbers of rows whose privileges are not written as ones and zeros. -/
  marks : List (EntryId × Marks) := []
  counters : List RowCounter := []
  sequence : GroupSequence := .at 1
  hosts : List HostTable := []
  /-- The record of migrations, unless its table is gone. -/
  migrations : Option (List Migration) := some [{ version := Migration.onlyVersion }]
  deriving DecidableEq

namespace Database

instance : Inhabited Database := ⟨{}⟩

/-! ### Rows -/

/-- The name of the table of the rows. -/
def entriesName : String := "permission_entries"

/-- The rows, or the report that their table is gone. -/
def entriesOrError (d : Database) : Except StoreError (Table Entry.id) :=
  match d.entries with
  | some t => .ok t
  | none => .error (DatabaseError.noTable entriesName).toStoreError

/-- The largest identifier that a row ever had, once there has been a row. -/
def lastEntry (d : Database) : Option Int64 :=
  RowCounter.largest? entriesName d.counters

/-- Remember the largest identifier that a row ever had. -/
def recordLastEntry (d : Database) (n : Int64) : Database :=
  { d with counters := RowCounter.record entriesName n d.counters }

/-- The numbers of the privileges of a row. -/
def marksOf (d : Database) (e : Entry) : Marks :=
  ((d.marks.find? fun m => m.1 = e.id).map fun m => m.2).getD (.ofPrivileges e.privileges)

/-- The rows are these now, and the one of the identifier has ones and zeros for its privileges. -/
def withWritten (d : Database) (id : EntryId) (t : Table Entry.id) : Database :=
  { d with entries := some t, marks := d.marks.filter fun m => m.1 ≠ id }

/-- Put a row of another writer into the table. -/
def insertRaw (d : Database) (entry : Entry) : Database :=
  match d.entries with
  | none => d
  | some t =>
    (d.withWritten entry.id (t.put entry)).recordLastEntry
      (max (d.lastEntry.getD 0) entry.id.val)

/-- The identifier for a new row, above those of all rows that there are or ever were; none if there
is no larger one. -/
def nextEntry? (d : Database) (t : Table Entry.id) : Option EntryId :=
  let largest := max (d.lastEntry.getD 0) ((t.rows.getLast?.map fun e => e.id.val).getD 0)
  if largest = Int64.maxValue then none else some ⟨largest + 1⟩

/-- Store a grant under an identifier above all earlier ones. -/
def insert (d : Database) (t : Table Entry.id) (grant : Grant) :
    Except StoreError (Entry × Database) :=
  match d.nextEntry? t with
  | none => .error DatabaseError.full.toStoreError
  | some id =>
    let stored := grant.toEntry id
    .ok (stored, (d.withWritten id (t.put stored)).recordLastEntry id.val)

/-- Store grants one after another. -/
def insertAll (d : Database) : List Grant → Except StoreError (List Entry × Database)
  | [] => .ok ([], d)
  | grant :: rest => do
    let (stored, d) ← d.insert (← d.entriesOrError) grant
    let (others, d) ← d.insertAll rest
    return (stored :: others, d)

/-- Two rows agree in everything but their identifiers. -/
def sameColumns (d : Database) (a b : Entry) : Bool :=
  a.toGrant = b.toGrant && d.marksOf a = d.marksOf b

/-- The groups with columns that more than one row has, in ascending order. -/
def duplicateGroups (d : Database) (t : Table Entry.id) : List GroupId :=
  Identifier.distinct <|
    (t.rows.filter fun e => t.rows.countP (d.sameColumns e) > 1).map fun e => e.group

/-- The largest group of a row, or zero if there is no row. -/
def largestGroup (t : Table Entry.id) : Int64 :=
  ((t.rows.map fun e => e.group.val).max?).getD 0

/-- The report that the sequence holds a value that is not an integer. -/
def inexact : DatabaseError :=
  .mistyped 0 "REAL"

/-- Hand out the next group identifier. A sum out of the range of integers is stored as a
floating-point number, from which no identifier can be read any more. -/
def allocateGroup (d : Database) : Except StoreError GroupId × Database :=
  match d.sequence with
  | .dropped => (.error (DatabaseError.noTable "group_id_sequence").toStoreError, d)
  | sequence =>
    match d.entriesOrError with
    | .error e => (.error e, d)
    | .ok t =>
      match sequence with
      | .at next =>
        let largest := largestGroup t
        if Int64.maxValue - 1 ≤ largest ∨ next = Int64.maxValue then
          (.error inexact.toStoreError, { d with sequence := .inexact })
        else
          let fresh := max next (largest + 1)
          (.ok ⟨fresh⟩, { d with sequence := .at (fresh + 1) })
      | .inexact => (.error inexact.toStoreError, d)
      | _ => (.error DatabaseError.noRow.toStoreError, d)

/-- Answer a call about rows when their table is there. -/
def performRows (d : Database) (t : Table Entry.id) : (c : StoreCall) → c.Answer × Database
  | .findAll => (.ok t.rows, d)
  | .findGroup group => (.ok (t.rows.filter fun e => e.group = group), d)
  | .findDuplicateGroups => (.ok (d.duplicateGroups t), d)
  | .findMixed => (.ok (t.rows.filter fun e => e.isMixed), d)
  | .insert grant =>
    match d.insert t grant with
    | .error e => (.error e, d)
    | .ok (stored, d) => (.ok stored, d)
  | .update entry =>
    if t.contains entry.id then (.ok (), d.withWritten entry.id (t.replace entry))
    else (.error .notFound, d)
  | .deleteEntry id =>
    if t.contains id then (.ok (), { d with entries := some (t.erase id) })
    else (.error .notFound, d)
  | .deleteGroup group =>
    let rest := t.filter fun e => e.group ≠ group
    (.ok (t.rows.countP fun e => e.group = group), { d with entries := some rest })
  | .replaceGroup group grants =>
    match { d with entries := some (t.filter fun e => e.group ≠ group) }.insertAll grants with
    | .error e => (.error e, d)
    | .ok (stored, d) => (.ok stored, d)
  | .allocateGroup => d.allocateGroup

/-- The failure of any call. -/
def refuse : (c : StoreCall) → StoreError → c.Answer
  | _, e => .error e

/-- Answer a call about rows. -/
def performStore (d : Database) (c : StoreCall) : c.Answer × Database :=
  match c with
  | .allocateGroup => d.allocateGroup
  | c =>
    match d.entriesOrError with
    | .error e => (refuse c e, d)
    | .ok t => d.performRows t c

/-! ### Tables of others -/

/-- The table with the given name; names are compared without regard to case. -/
def host? (d : Database) (name : String) : Option HostTable :=
  d.hosts.find? fun h => Text.lower h.names.table = Text.lower name

/-- Change the table of the same name. -/
def setHost (d : Database) (t : HostTable) : Database :=
  { d with
    hosts := d.hosts.map fun h =>
      if Text.lower h.names.table = Text.lower t.names.table then t else h }

/-- The place of a new table in the list of tables, after the tables of the store. A constraint on
the references takes a place of its own. -/
def nextPlace (d : Database) : Int64 :=
  d.hosts.foldl (fun n h => n + if h.unique then 2 else 1) 9

/-- Add a table without rows, after the others. -/
def createHost (d : Database) (t : HostTable) : Database :=
  { d with hosts := d.hosts ++ [{ t with place := d.nextPlace }] }

/-! ### Migrations -/

/-- Open the database again: check the record of migrations, and apply the migration if it is not in
the record. -/
def migrate (d : Database) : Except DatabaseError Database := do
  let record := d.migrations.getD []
  Migration.check record
  if record.any fun m => m.version = Migration.onlyVersion then return d
  return {
    d with
    entries := some (d.entries.getD .empty)
    sequence := if d.sequence matches .dropped | .empty then .at 1 else d.sequence
    migrations := some (Migration.append record Migration.onlyVersion) }

end Database

end AccessGroups
