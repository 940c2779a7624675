import AccessGroups.Store.Database
import AccessGroups.Store.FileName

/-!
# The files at hand

Databases are kept in files, and a new one can be created in a directory. A path is read from the
working directory on; a name of two dots leads back to the directory above, whether or not the
directory before it exists.

## Main definitions

* `FilePath`: the names on the way from the root to a file.
* `Files`: the databases and directories, with `Files.openUrl`.
-/

namespace AccessGroups

/-- The names on the way from the root to a file or directory. -/
abbrev FilePath := List String

namespace FilePath

/-- Go on from a directory by one name. -/
def enter (directory : FilePath) (name : String) : FilePath :=
  if name = "" ∨ name = "." then directory
  else if name = ".." then directory.dropLast
  else directory ++ [name]

/-- The path that a text leads to from a directory. -/
def ofText (directory : FilePath) (text : String) : FilePath :=
  (text.splitOn "/").foldl enter (if "/".toList <+: text.toList then [] else directory)

/-- The text of a path. -/
def text (p : FilePath) : String :=
  "/" ++ String.intercalate "/" p

/-- The path can be that of a file: it is not the root, and neither a name nor the whole is too
long. -/
def isUsable (p : FilePath) : Bool :=
  !p.isEmpty && p.all (fun name => name.utf8ByteSize ≤ 255) && (text p).utf8ByteSize ≤ 504

end FilePath

/-- The database files at hand, and the directories in which others can be created. -/
structure Files where
  databases : List (FilePath × Database) := []
  directories : List FilePath := []
  workingDirectory : FilePath := []

/-- A database that has been opened, and the file in which its changes are kept, if there is one. -/
structure OpenDatabase where
  data : Database
  file : Option FilePath := none

namespace Files

/-- The file systems that an opening can ask for. -/
def systems : List String :=
  ["unix", "unix-dotfile", "unix-excl", "unix-none", "memdb"]

/-- A fresh database, unless it may not be written. -/
def fresh (writable : Bool) (file : Option FilePath) : Except DatabaseError OpenDatabase :=
  if writable then .ok { data := {}, file } else .error .readOnly

/-- Open the file at a path. A directory can be opened, but not read. -/
def openFile (files : Files) (o : Opening) (path : FilePath) :
    Except DatabaseError OpenDatabase :=
  if !path.isUsable then .error .cannotOpen
  else
    match files.databases.find? fun f => f.1 = path with
    | some (_, data) => .ok { data, file := if o.access = .read then none else some path }
    | none =>
      if files.directories.contains path then
        .error (if o.access = .read then .unreadable else .cannotOpen)
      else if o.access = .create && files.directories.contains path.dropLast then
        fresh (!o.immutable) (some path)
      else .error .cannotOpen

/-- Open a database. One that does not live in a named file is fresh. -/
def openAt (files : Files) (o : Opening) : Except DatabaseError OpenDatabase :=
  if o.system ∉ systems then .error (.noSystem o.system)
  else if o.isTemporary then fresh (o.access ≠ .read) none
  else if o.system = "memdb" then fresh (o.access ≠ .read && !o.immutable) none
  else files.openFile o (.ofText files.workingDirectory o.path)

/-- Open the database at a location given as a text. -/
def openUrl (files : Files) (url : String) : Except DatabaseError OpenDatabase := do
  let opened ← files.openAt (← Opening.ofLocation (← Location.ofUrl url))
  return { opened with data := ← opened.data.migrate }

end Files

end AccessGroups
