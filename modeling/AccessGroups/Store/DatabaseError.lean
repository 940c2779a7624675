import AccessGroups.Failure

/-!
# What a database reports

The reports of a database that a store or a command passes on as failures.

## Main definitions

* `DatabaseError`: the reports, with `DatabaseError.message`.
-/

namespace AccessGroups

/-- What the database reports. -/
inductive DatabaseError where
  | noTable (name : String)
  | noColumn (name : String)
  /-- No row identifier is left. -/
  | full
  /-- The value of a column of the answer is no integer but of another type. -/
  | mistyped (column : Nat) (type : String)
  /-- A statement cannot be read from a word on. -/
  | misread (word : String)
  /-- The sequence has lost its row. -/
  | noRow
  | cannotOpen
  /-- The file cannot be read as one. -/
  | unreadable
  /-- The name of the file contains a zero byte. -/
  | zeroByte
  /-- The address of the file names another machine. -/
  | badHost (host : String)
  /-- There is no mode of this kind and name. -/
  | noMode (kind name : String)
  /-- The mode asks for more than is granted. -/
  | modeRefused (name : String)
  /-- The file system asked for is not known. -/
  | noSystem (name : String)
  | readOnly
  | badOption (detail : String)
  | dirtyMigration (version : Int64)
  | unknownMigration (version : Int64)
  | alteredMigration (version : Int64)
  /-- The record of migrations holds a number in the place of a checksum. -/
  | mistypedChecksum
  /-- The table can only be read. -/
  | notModifiable (table : String)
  deriving DecidableEq, Repr

namespace DatabaseError

/-- The report in words. -/
def message : DatabaseError → String
  | .noTable name => "error returned from database: (code: 1) no such table: " ++ name
  | .noColumn name => "error returned from database: (code: 1) no such column: " ++ name
  | .full => "error returned from database: (code: 13) database or disk is full"
  | .mistyped column type =>
    "error occurred while decoding column " ++ toString column ++
      ": mismatched types; Rust type `i64` (as SQL type `INTEGER`) is not compatible with SQL " ++
      "type `" ++ type ++ "`"
  | .misread word =>
    "error returned from database: (code: 1) near " ++ Text.Quoted.ofString word ++ ": syntax error"
  | .noRow => "no rows returned by a query that expected to return at least one row"
  | .cannotOpen => "error returned from database: (code: 14) unable to open database file"
  | .unreadable => "error returned from database: (code: 266) disk I/O error"
  | .zeroByte =>
    "error communicating with database: filename passed to SQLite must not contain nul bytes"
  | .badHost host => "error returned from database: (code: 1) invalid uri authority: " ++ host
  | .noMode kind name =>
    "error returned from database: (code: 1) no such " ++ kind ++ " mode: " ++ name
  | .modeRefused name => "error returned from database: (code: 3) access mode not allowed: " ++ name
  | .noSystem name => "error returned from database: (code: 1) no such vfs: " ++ name
  | .readOnly =>
    "while executing migrations: error returned from database: (code: 8) attempt to write a " ++
      "readonly database"
  | .badOption detail => "error with configuration: " ++ detail
  | .dirtyMigration version =>
    "migration " ++ toString version ++ " is partially applied; fix and remove row from " ++
      "`_sqlx_migrations` table"
  | .unknownMigration version =>
    "migration " ++ toString version ++ " was previously applied but is missing in the resolved " ++
      "migrations"
  | .alteredMigration version =>
    "migration " ++ toString version ++ " was previously applied but has been modified"
  | .mistypedChecksum =>
    "while executing migrations: error occurred while decoding column 1: mismatched types; Rust " ++
      "type `alloc::vec::Vec<u8>` (as SQL type `BLOB`) is not compatible with SQL type `INTEGER`"
  | .notModifiable table =>
    "error returned from database: (code: 1) table " ++ table ++ " may not be modified"

/-- The failure of a store that the report amounts to. -/
def toStoreError (e : DatabaseError) : StoreError :=
  .backend e.message

end DatabaseError

end AccessGroups
