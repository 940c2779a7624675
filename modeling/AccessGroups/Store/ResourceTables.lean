import AccessGroups.Failure

/-!
# Where the resources live in a database

Each kind of resource has a table of its own, with a column for the identifier and one for the
group. The names become part of statements, so that only letters, digits and underscores are
accepted, and no digit at the start.

## Main definitions

* `ResourceTable`: the names of a table and its two columns, with `ResourceTable.ofNames`.
* `ResourceTables`: the table of each kind, with `ResourceTables.standard`.
-/

namespace AccessGroups

/-- The name may be used in a statement. -/
def isTableName (name : String) : Bool :=
  match name.toList with
  | [] => false
  | c :: rest => (c.isAlpha || c = '_') && rest.all fun c => c.isAlphanum || c = '_'

/-- The names of a table and of its columns for the identifier and the group. -/
structure ResourceTable where
  table : String
  idColumn : String
  groupColumn : String
  deriving DecidableEq, Repr

namespace ResourceTable

/-- Refuse a name that may not be used in a statement. -/
def checkName (name : String) : Except StoreError Unit :=
  if isTableName name then .ok ()
  else .error (.backend ("invalid identifier: " ++ Text.Quoted.ofString name))

/-- The table with these names, which are checked in their order. -/
def ofNames (table idColumn groupColumn : String) : Except StoreError ResourceTable := do
  checkName table
  checkName idColumn
  checkName groupColumn
  return ⟨table, idColumn, groupColumn⟩

end ResourceTable

/-- The table of each kind. -/
structure ResourceTables where
  table : ResourceKind → ResourceTable

namespace ResourceTables

/-- The name of the usual table of a kind. -/
def standardName : ResourceKind → String
  | .component => "component"
  | .form => "form"
  | .layout => "layout"
  | .page => "page"
  | .unit => "unit"
  | .user => "user_account"
  | .file => "file_common"
  | .gallery => "gallery"

/-- The usual tables. -/
def standard : ResourceTables :=
  ⟨fun kind => ⟨standardName kind, "id", "acl_id"⟩⟩

instance : Inhabited ResourceTables := ⟨standard⟩

/-- Use another table for one kind. -/
def withTable (t : ResourceTables) (kind : ResourceKind) (table : ResourceTable) :
    ResourceTables :=
  ⟨fun k => if k = kind then table else t.table k⟩

end ResourceTables

end AccessGroups
