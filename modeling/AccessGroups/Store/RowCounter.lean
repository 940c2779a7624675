import AccessGroups.Store.Cell

/-!
# Counters of row identifiers

A table of the database remembers the largest identifier that a row of another table ever had. It is
a table like any other, so that its rows can be changed and deleted by statements.

## Main definitions

* `RowCounter`: a row of that table.
* `RowCounter.largest?`, `RowCounter.record`: looking up and remembering the largest identifier.
-/

namespace AccessGroups

/-- What is remembered about the identifiers of a table. -/
structure RowCounter where
  /-- The row identifier. -/
  place : Int64 := 1
  /-- The name of the table. -/
  name : Cell
  largest : Cell
  deriving DecidableEq, Repr

namespace RowCounter

/-- The row identifier for a new row. -/
def nextPlace (counters : List RowCounter) : Int64 :=
  (((counters.map fun c => c.place).max?).getD 0) + 1

/-- The number that is remembered; nothing counts as zero. -/
def value (c : RowCounter) : Int64 :=
  match c.largest with
  | .int n => n
  | _ => 0

/-- The largest identifier that is remembered for a table. -/
def largest? (table : String) (counters : List RowCounter) : Option Int64 :=
  (counters.find? fun c => c.name = .text table).map value

/-- Remember the largest identifier of a table, in a row of the given identifier if there is none
for the table yet. -/
def recordAt (place : Int64) (table : String) (n : Int64) : List RowCounter → List RowCounter
  | [] => [{ place, name := .text table, largest := .int n }]
  | c :: rest =>
    if c.name = .text table then { c with largest := .int n } :: rest
    else c :: recordAt place table n rest

/-- Remember the largest identifier of a table. -/
def record (table : String) (n : Int64) (counters : List RowCounter) : List RowCounter :=
  recordAt (nextPlace counters) table n counters

@[simp] theorem largest?_recordAt (place : Int64) (table : String) (n : Int64)
    (counters : List RowCounter) : largest? table (recordAt place table n counters) = some n := by
  induction counters with
  | nil => simp [largest?, recordAt, value]
  | cons c rest ih =>
    rw [recordAt]
    split
    · next h => simp [largest?, h, value]
    · next h => simpa [largest?, h] using ih

@[simp] theorem largest?_record (table : String) (n : Int64) (counters : List RowCounter) :
    largest? table (record table n counters) = some n :=
  largest?_recordAt _ table n counters

end RowCounter

end AccessGroups
