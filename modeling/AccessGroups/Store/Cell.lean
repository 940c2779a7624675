import AccessGroups.Store.DatabaseError
import AccessGroups.Text.Lower

/-!
# Values in columns

A column of a table holds values of several types, or nothing. Values are ordered across types, and
an identifier is compared with any of them.

## Main definitions

* `Cell`: a value in a column, with `Cell.le`, `Cell.equals` and `Cell.int?`.
* `Cell.ofWord?`, `Cell.ofFreeWord?`: the words that stand for values.
-/

namespace AccessGroups

/-- A value in a column. The only number of type `real` is the one after the largest integer. -/
inductive Cell where
  | null
  | int (n : Int64)
  | real
  | text (s : String)
  | blob
  deriving DecidableEq, Repr

namespace Cell

/-- A column that may be empty. -/
def ofOption : Option Int64 → Cell
  | none => .null
  | some n => .int n

/-- The place of the type in the order of values. -/
def rank : Cell → Nat
  | .null => 0
  | .int _ => 1
  | .real => 2
  | .text _ => 3
  | .blob => 4

/-- The order of values: an empty one first, then numbers, texts and bytes. -/
def le : Cell → Cell → Bool
  | .int a, .int b => a ≤ b
  | .text a, .text b => a ≤ b
  | a, b => a.rank ≤ b.rank

/-- The value is an integer, or the text of one. -/
def equals (n : Int64) : Cell → Bool
  | .int m => m = n
  | .text s => s = toString n
  | _ => false

/-- The integer in a column of an answer, if it is not empty. -/
def int? (column : Nat) : Cell → Except DatabaseError (Option Int64)
  | .null => .ok none
  | .int n => .ok (some n)
  | .real => .error (.mistyped column "REAL")
  | .text _ => .error (.mistyped column "TEXT")
  | .blob => .error (.mistyped column "BLOB")

/-- The value that a word always stands for. -/
def ofWord? (word : String) : Option Cell :=
  match Text.lower word with
  | "null" => some .null
  | "current_date" | "current_time" | "current_timestamp" => some (.text word)
  | _ => none

/-- The value that a word stands for where no column has its name. -/
def ofFreeWord? (word : String) : Option Cell :=
  match Text.lower word with
  | "true" => some (.int 1)
  | "false" => some (.int 0)
  | _ => none

end Cell

end AccessGroups
