import AccessGroups.Program.Call
import AccessGroups.Store.DatabaseError
import AccessGroups.Store.ResourceTables
import AccessGroups.Text.Lower

/-!
# Statements about resources

The names of a table and of its columns become words of statements. A word that is reserved cannot
be a name; where a value is expected, a few words begin a longer phrase, so that it is the next word
that does not fit.

## Main definitions

* `Statement.check`: whether the statement for a call can be read.
-/

namespace AccessGroups.Statement

/-- The words that cannot be names. -/
def reserved : List String :=
  ["add", "all", "alter", "and", "as", "autoincrement", "between", "case", "check", "collate",
    "commit", "constraint", "create", "default", "deferrable", "delete", "distinct", "drop", "else",
    "escape", "except", "exists", "foreign", "from", "group", "having", "in", "index", "insert",
    "intersect", "into", "is", "isnull", "join", "limit", "not", "nothing", "notnull", "on", "or",
    "order", "primary", "references", "returning", "select", "set", "table", "then", "to",
    "transaction", "union", "unique", "update", "using", "values", "when", "where"]

/-- The places of names in statements. -/
inductive Place where
  /-- A column of the answer. -/
  | result
  /-- An argument of a function. -/
  | argument
  /-- A value that is compared. -/
  | operand
  /-- The column that is changed. -/
  | target
  | table
  /-- The table that is changed. -/
  | changedTable
  deriving DecidableEq

/-- The words that begin a longer phrase at a place. -/
def openers : Place → List String
  | .result => ["all", "distinct", "case", "cast", "exists", "not", "raise"]
  | .argument => ["all", "distinct", "order", "case", "cast", "exists", "not", "raise"]
  | .operand => ["case", "cast", "exists", "not", "raise"]
  | .changedTable => ["or"]
  | _ => []

/-- The word for no value cannot be a name either. -/
def namesOnly : Place → Bool
  | .target | .table | .changedTable => true
  | _ => false

/-- Report the word from which on a statement cannot be read, if a name at a place is the reason.
The word after the name is given. -/
def checkName (place : Place) (name next : String) : Except DatabaseError Unit :=
  let word := Text.lower name
  if word ∈ openers place then .error (.misread next)
  else if word ∈ reserved ∨ (word = "null" ∧ namesOnly place) then .error (.misread name)
  else .ok ()

/-- Report the word from which on the statement for a call cannot be read. -/
def check (names : ResourceTable) : RegistryCall → Except DatabaseError Unit
  | .listRefs _ => do
    checkName .result names.idColumn ","
    checkName .argument names.groupColumn ","
    checkName .table names.table "ORDER"
  | .findRef _ _ => do
    checkName .argument names.groupColumn ","
    checkName .table names.table "WHERE"
    checkName .operand names.idColumn "="
  | .assign _ _ _ => do
    checkName .changedTable names.table "SET"
    checkName .target names.groupColumn "="
    checkName .operand names.idColumn "="
  | .delete _ _ => do
    checkName .table names.table "WHERE"
    checkName .operand names.idColumn "="

end AccessGroups.Statement
