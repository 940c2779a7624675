import AccessGroups.Store.Cell

/-!
# The record of migrations

A database keeps a record of the migrations that have been applied to it. Opening the database again
reads the record: it must not hold a migration that was left half done, that is not known, or that
has been changed since.

## Main definitions

* `Migration`: a row of the record.
* `Migration.check`: whether a database with such a record can be opened.
-/

namespace AccessGroups

/-- What the record holds to tell whether a migration has been changed. -/
inductive Checksum where
  | intact
  | altered
  /-- A number that another writer has put there. -/
  | number (n : Int64)
  deriving DecidableEq, Repr

/-- A row of the record of migrations. -/
structure Migration where
  /-- The row identifier. -/
  place : Int64 := 1
  version : Int64
  description : String := "permissions"
  /-- A number in the place of the time at which the migration was applied. -/
  installed : Option Int64 := none
  /-- Zero if the migration was left half done. -/
  success : Int64 := 1
  checksum : Checksum := .intact
  /-- How long the migration took. -/
  duration : Int64 := 0
  deriving DecidableEq, Repr

namespace Migration

/-- The version of the only migration: it creates the table of the rows and the sequence. -/
def onlyVersion : Int64 := 20250101000000

/-- The row identifier for a new row. -/
def nextPlace (record : List Migration) : Int64 :=
  (((record.map fun m => m.place).max?).getD 0) + 1

/-- Add a migration to the record. -/
def append (record : List Migration) (version : Int64) : List Migration :=
  record ++ [{ place := nextPlace record, version }]

/-- The smallest version among the rows that satisfy a condition. -/
def smallest? (p : Migration → Bool) (record : List Migration) : Option Int64 :=
  ((record.filter p).map fun m => m.version).min?

/-- Refuse a record in which a migration was left half done, is not known or has been changed. -/
def check (record : List Migration) : Except DatabaseError Unit :=
  match smallest? (fun m => m.success = 0) record with
  | some version => .error (.dirtyMigration version)
  | none =>
    if record.any fun m => m.checksum matches .number _ then .error .mistypedChecksum
    else
      match smallest? (fun m => m.version ≠ onlyVersion) record,
          smallest? (fun m => m.checksum ≠ .intact) record with
      | some version, _ => .error (.unknownMigration version)
      | _, some version => .error (.alteredMigration version)
      | _, _ => .ok ()

end Migration

end AccessGroups
