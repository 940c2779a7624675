/-!
# Privileges

The four independent privilege bits of a permission entry. The same four bits serve as the mask of
a request, which is covered when every bit of it is granted.

## Main definitions

* `Privileges`: the four bits, with `none`, `full` and one single-bit value per `Privilege`.
* `Privileges.covers`: every bit of a mask is granted.
* `Privilege.ofName?`: reading one privilege by its name.
-/

namespace AccessGroups

/-- Privilege bits of an entry or of a request. -/
structure Privileges where
  read : Bool
  modify : Bool
  create : Bool
  delete : Bool
  deriving DecidableEq, Hashable, Inhabited, Repr

/-- One of the four privileges. -/
inductive Privilege where
  | read
  | modify
  | create
  | delete
  deriving DecidableEq, Repr

namespace Privileges

/-- No bit at all. -/
def none : Privileges := ⟨false, false, false, false⟩

/-- All four bits. -/
def full : Privileges := ⟨true, true, true, true⟩

/-- No bit is set, so that an entry with these bits grants nothing. -/
def isEmpty (p : Privileges) : Bool :=
  !(p.read || p.modify || p.create || p.delete)

/-- Every bit of `mask` is granted by `p`; the bits that `mask` leaves out do not matter. -/
def covers (p mask : Privileges) : Bool :=
  (!mask.read || p.read) && (!mask.modify || p.modify) && (!mask.create || p.create) &&
    (!mask.delete || p.delete)

/-- The four letters `rmcd`, with a hyphen for each bit that is not set. -/
def letters (p : Privileges) : String :=
  String.ofList [if p.read then 'r' else '-', if p.modify then 'm' else '-',
    if p.create then 'c' else '-', if p.delete then 'd' else '-']

/-- The bits by name, as diagnostic texts write them. -/
def labelled (p : Privileges) : String :=
  "Privileges \x7b read: " ++ toString p.read ++ ", modify: " ++ toString p.modify ++
    ", create: " ++ toString p.create ++ ", delete: " ++ toString p.delete ++ " \x7d"

@[simp] theorem covers_none (p : Privileges) : p.covers none = true := rfl

@[simp] theorem full_covers (mask : Privileges) : full.covers mask = true := by
  simp [covers, full]

@[simp] theorem covers_self (p : Privileges) : p.covers p = true := by
  simp [covers]

end Privileges

namespace Privilege

/-- The four privileges in the order of their bits. -/
def all : List Privilege := [.read, .modify, .create, .delete]

/-- The name of the privilege. -/
def name : Privilege → String
  | .read => "read"
  | .modify => "modify"
  | .create => "create"
  | .delete => "delete"

/-- The mask that asks for this privilege alone. -/
def mask : Privilege → Privileges
  | .read => ⟨true, false, false, false⟩
  | .modify => ⟨false, true, false, false⟩
  | .create => ⟨false, false, true, false⟩
  | .delete => ⟨false, false, false, true⟩

/-- The privilege with the given name, which is matched exactly. -/
def ofName? (name : String) : Option Privilege :=
  all.find? fun p => p.name = name

theorem ofName?_name (p : Privilege) : ofName? p.name = some p := by
  cases p <;> decide

end Privilege

end AccessGroups
