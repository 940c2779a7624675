import AccessGroups.Store.Location
import AccessGroups.Text.Lower

/-!
# Names of database files

The name of a database file is a path, or an address that begins with `file:`. An address may name
the machine itself as its host, and after a question mark it has options of its own, which can only
narrow the access that was asked for. A zero byte ends the part in which it stands, and a number
sign ends the address.

## Main definitions

* `FileName`: a path with options, with `FileName.ofText` and `FileName.ofLocation`.
* `Access`: reading, writing or creating a file.
* `Opening`: how a file is to be opened, with `Opening.ofLocation`.
-/

namespace AccessGroups

/-- A path with options, each a name and a value. -/
structure FileName where
  path : String
  options : List (String × String) := []
  deriving DecidableEq, Repr

namespace FileName

/-- A part of an address. -/
def decodePart (cs : List Char) : String :=
  Text.Utf8.decodeLossy ((Text.Percent.bytes cs).takeWhile (· ≠ 0))

/-- The options of an address, separated by ampersands; those without a name do not count. -/
def splitOptions (cs : List Char) : List (String × String) :=
  ((cs.splitOn '&').map fun part =>
    (decodePart (part.takeWhile (· ≠ '=')), decodePart ((part.dropWhile (· ≠ '=')).drop 1))).filter
      fun option => option.1 ≠ ""

/-- The part of an address after its host, which can only be the machine itself. -/
def afterHost : List Char → Except DatabaseError (List Char)
  | '/' :: '/' :: rest =>
    let host := String.ofList (rest.takeWhile (· ≠ '/'))
    if host = "" ∨ host = "localhost" then .ok (rest.dropWhile (· ≠ '/'))
    else .error (.badHost host)
  | cs => .ok cs

/-- The path and the options of an address without its scheme. -/
def ofAddress (cs : List Char) : Except DatabaseError FileName := do
  let cs := (← afterHost cs).takeWhile (· ≠ '#')
  return ⟨decodePart (cs.takeWhile (· ≠ '?')), splitOptions ((cs.dropWhile (· ≠ '?')).drop 1)⟩

/-- The path and the options of a name. -/
def ofText (name : String) : Except DatabaseError FileName :=
  if "file:".toList <+: name.toList then ofAddress (name.toList.drop 5) else .ok { path := name }

/-- A text up to its first zero byte. -/
def untilZero (text : String) : String :=
  String.ofList (text.toList.takeWhile fun c => c.toNat ≠ 0)

/-- The file name of a location. When the location itself sets options of a file, its name is a
path as it stands, and a blank in the value of an option is written as a plus sign. -/
def ofLocation (l : Location) : Except DatabaseError FileName :=
  let options :=
    (if l.immutable then [("immutable", "true")] else []) ++
      l.system.toList.map fun s => ("vfs", untilZero (s.map fun c => if c = ' ' then '+' else c))
  if !options.isEmpty then .ok ⟨untilZero l.name, options⟩
  else if l.name.toList.any fun c => c.toNat = 0 then .error .zeroByte
  else ofText l.name

/-- The value of a text that says yes or no: a number other than zero modulo 256 says yes. -/
def saysYes (value : String) : Bool :=
  let digits := value.toList.takeWhile Char.isDigit
  if digits.isEmpty then Text.lower value ∈ ["on", "yes", "true"]
  else Nat.ofDigitChars 10 digits 0 % 256 ≠ 0

/-- The first option of a name says yes. -/
def isSet (f : FileName) (name : String) : Bool :=
  (f.options.find? fun option => option.1 = name).any fun option => saysYes option.2

end FileName

/-- What may be done with a file. -/
inductive Access where
  | read
  | write
  | create
  deriving DecidableEq, Repr

/-- The access is not wider than another one. -/
def Access.within : Access → Access → Bool
  | .read, _ => true
  | .write, a => a ≠ .read
  | .create, a => a = .create

/-- How a file is to be opened. -/
structure Opening where
  path : String
  access : Access
  inMemory : Bool := false
  /-- Nobody changes the file while it is open. -/
  immutable : Bool := false
  /-- The name of the file system. -/
  system : String := "unix"
  deriving DecidableEq, Repr

namespace Opening

/-- The access that an option asks for, if it is not the memory. -/
def accessNamed? (value : String) : Option Access :=
  if value = "ro" then some .read
  else if value = "rw" then some .write
  else if value = "rwc" then some .create
  else none

/-- Apply an option of the name. In memory any access is granted. -/
def applyOption (o : Opening) (option : String × String) : Except DatabaseError Opening :=
  let (name, value) := option
  if name = "vfs" then .ok { o with system := value }
  else if name = "cache" then
    if value = "shared" || value = "private" then .ok o else .error (.noMode "cache" value)
  else if name = "mode" then
    if value = "memory" then .ok { o with access := .write, inMemory := true }
    else
      match accessNamed? value with
      | none => .error (.noMode "access" value)
      | some access =>
        if o.inMemory || access.within o.access then .ok { o with access, inMemory := false }
        else .error (.modeRefused value)
  else .ok o

/-- How the file of a location is to be opened. -/
def ofLocation (l : Location) : Except DatabaseError Opening := do
  let file ← FileName.ofLocation l
  let start : Opening := {
    path := file.path
    access := if l.readOnly then .read else if l.createIfMissing then .create else .write
    inMemory := l.inMemory
    immutable := file.isSet "immutable" }
  file.options.foldlM applyOption start

/-- The database is not kept in a named file: it lives in memory, or in a file without a name. -/
def isTemporary (o : Opening) : Bool :=
  o.inMemory || o.path = ":memory:" || o.path = ""

/-- The database is kept in a file. -/
def isKept (o : Opening) : Bool :=
  !o.isTemporary && o.system ≠ "memdb"

end Opening

end AccessGroups
