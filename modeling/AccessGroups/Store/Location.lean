import AccessGroups.Store.DatabaseError
import AccessGroups.Text.Percent

/-!
# Where a database is kept

A database is named by a location: a file or the memory of the program, with options after a
question mark. Percent signs stand for encoded bytes. Options are read in the order in which they
are written, and the first one that cannot be used is reported.

## Main definitions

* `Location`: a file with its options, or a database in memory.
* `Location.ofUrl`: reading a location.
-/

namespace AccessGroups

/-- A database file, or a database that lives in memory only. -/
structure Location where
  name : String
  inMemory : Bool := false
  readOnly : Bool := false
  createIfMissing : Bool := false
  immutable : Bool := false
  /-- The file system that is asked for by name. -/
  system : Option String := none
  deriving DecidableEq, Repr

namespace Location

/-- A part of an option: a plus sign stands for a blank. -/
def decodePart (cs : List Char) : String :=
  Text.Percent.decodeLossy (cs.map fun c => if c = '+' then ' ' else c)

/-- The name and the value of an option. -/
def splitOption (cs : List Char) : String × String :=
  (decodePart (cs.takeWhile (· ≠ '=')), decodePart ((cs.dropWhile (· ≠ '=')).drop 1))

/-- The options of a text, separated by ampersands; empty ones do not count. -/
def splitOptions (cs : List Char) : List (String × String) :=
  ((cs.splitOn '&').filter fun part => !part.isEmpty).map splitOption

/-- The report that an option has a value that it cannot have. -/
def badValue (name value : String) : DatabaseError :=
  .badOption ("unknown value " ++ Text.Quoted.ofString value ++ " for `" ++ name ++ "`")

/-- Apply one option. -/
def applyOption (l : Location) (option : String × String) : Except DatabaseError Location :=
  let (name, value) := option
  if name = "mode" then
    if value = "ro" then .ok { l with readOnly := true }
    else if value = "rw" then .ok l
    else if value = "rwc" then .ok { l with createIfMissing := true }
    else if value = "memory" then .ok { l with inMemory := true }
    else .error (badValue name value)
  else if name = "cache" then
    if value = "private" || value = "shared" then .ok l else .error (badValue name value)
  else if name = "immutable" then
    if value = "true" || value = "1" then .ok { l with immutable := true }
    else if value = "false" || value = "0" then .ok { l with immutable := false }
    else .error (badValue name value)
  else if name = "vfs" then .ok { l with system := some value }
  else .error (.badOption ("unknown query parameter `" ++ name ++
    "` while parsing connection URL"))

/-- The rest of a text after an opening, which it may have several times. -/
def dropOpenings (opening cs : List Char) : List Char :=
  if _ : opening ≠ [] ∧ opening <+: cs then dropOpenings opening (cs.drop opening.length) else cs
termination_by cs.length
decreasing_by
  rename_i h
  have hpos := List.length_pos_iff.2 h.1
  have hle := h.2.length_le
  rw [List.length_drop]
  omega

/-- Read a location: an optional scheme, the name of a file or `:memory:`, and options. -/
def ofUrl (url : String) : Except DatabaseError Location := do
  let cs := dropOpenings "sqlite:".toList (dropOpenings "sqlite://".toList url.toList)
  let database := cs.takeWhile (· ≠ '?')
  let start : Location ←
    if String.ofList database = ":memory:" then pure { name := "", inMemory := true }
    else
      match Text.Percent.decode database with
      | .ok name => pure { name }
      | .error fault => throw (.badOption fault.message)
  (splitOptions ((cs.dropWhile (· ≠ '?')).drop 1)).foldlM applyOption start

end Location

end AccessGroups
