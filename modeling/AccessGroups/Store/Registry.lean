import AccessGroups.Store.Statement
import AccessGroups.Store.StoredTable

/-!
# Resources in the tables of a database

Every kind of resource lives in some table of the database. Usually that is a table of others, but
any table will do: several kinds can share a table under different columns, and a kind can even live
in the tables of the store itself.

## Main definitions

* `Database.performRegistry`: answering calls about resources.
* `Database.resources`: the resources of a kind.
* `Database.createHost?`, `Database.putResource`, `Database.dropTable`: what other writers do.
-/

namespace AccessGroups

namespace Database

/-- The failure of any call about resources. -/
def refuseRegistry : (c : RegistryCall) → StoreError → c.Answer
  | _, e => .error e

/-- The kind of resource that a call is about. -/
def kindOf : RegistryCall → ResourceKind
  | .listRefs kind => kind
  | .findRef kind _ => kind
  | .assign kind _ _ => kind
  | .delete kind _ => kind

/-- Answer a call about resources in a table. -/
def performIn (d : Database) (t : StoredTable) (names : ResourceTable) :
    (c : RegistryCall) → c.Answer × Database
  | .listRefs _ =>
    (((t.relation.resources names).map fun rows => rows.map fun r => ⟨r.resource, r.groupOrZero⟩)
      |>.mapError DatabaseError.toStoreError, d)
  | .findRef _ resource => (t.relation.find names resource, d)
  | .assign _ resource group =>
    match t.relation.assign names resource group with
    | .ok rows => (.ok (), t.withRows rows)
    | .error e => (.error e, d)
  | .delete _ resource =>
    match t.relation.delete names resource with
    | .ok rows => (.ok (), t.withRows rows)
    | .error e => (.error e, d)

/-- The table that the statement for a call names, when the statement can be read and the table can
be changed as it asks. -/
def tableFor (d : Database) (names : ResourceTable) (c : RegistryCall) :
    Except StoreError StoredTable :=
  match Statement.check names c, d.table? names.table with
  | .error e, _ => .error e.toStoreError
  | .ok (), none => .error (DatabaseError.noTable names.table).toStoreError
  | .ok (), some t =>
    match t.readOnlyName with
    | none => .ok t
    | some name =>
      if c.isWrite then .error (DatabaseError.notModifiable name).toStoreError else .ok t

/-- Answer a call about resources. -/
def performRegistry (d : Database) (tables : ResourceTables) (c : RegistryCall) :
    c.Answer × Database :=
  let names := tables.table (kindOf c)
  match d.tableFor names c with
  | .error e => (refuseRegistry c e, d)
  | .ok t => d.performIn t names c

/-- The resources of a kind with their references, which may be empty; a table that cannot be read
shows none. -/
def resources (d : Database) (tables : ResourceTables) (kind : ResourceKind) : List HostRow :=
  let names := tables.table kind
  match d.tableFor names (.listRefs kind) with
  | .error _ => []
  | .ok t =>
    match t.relation.resources names with
    | .error _ => []
    | .ok rows => rows

/-! ### Other writers -/

/-- The names of the indexes on the rows. -/
def entryIndexes : List String :=
  ["idx_permission_entries_group", "idx_permission_entries_user", "idx_permission_entries_unit"]

/-- There is a table or an index of the name, or it is kept for the database itself. -/
def isTaken (d : Database) (name : String) : Bool :=
  (d.table? name).isSome || (d.entries.isSome && entryIndexes.contains (Text.lower name)) ||
    "sqlite_".isPrefixOf (Text.lower name)

/-- Create a table without rows, unless its name is taken or both columns have the same name. -/
def createHost? (d : Database) (t : HostTable) : Option Database :=
  if d.isTaken t.names.table || Text.lower t.names.idColumn = Text.lower t.names.groupColumn then
    none
  else some (d.createHost t)

/-- Put a resource of another writer into a table, unless a constraint forbids it. -/
def putResource (d : Database) (names : ResourceTable) (row : HostRow) : Database :=
  match d.table? names.table with
  | none => d
  | some t =>
    let given := names.idColumn :: (if row.group.isSome then [names.groupColumn] else [])
    match t.relation.newRow? t.blank t.left names row with
    | some new => if t.needed ⊆ given.map Text.lower then t.add new else d
    | none => d

/-- Drop the table of rows, and with it the counter of their identifiers. -/
def dropEntries (d : Database) : Database :=
  if d.entries.isNone then d
  else
    { d with
      entries := none
      marks := []
      counters := d.counters.filter fun c => c.name ≠ .text entriesName }

/-- Drop the table of the given name. -/
def dropTable (d : Database) (name : String) : Database :=
  match Text.lower name with
  | "permission_entries" => d.dropEntries
  | "group_id_sequence" => { d with sequence := .dropped }
  | "_sqlx_migrations" => { d with migrations := none }
  | _ => { d with hosts := d.hosts.filter fun h => Text.lower h.names.table ≠ Text.lower name }

end Database

end AccessGroups
