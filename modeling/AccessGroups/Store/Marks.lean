import AccessGroups.Entry

/-!
# Privileges as numbers

In the table of rows each privilege has a column of numbers, and every number but zero grants it.
The store itself writes ones and zeros; other writers may use other numbers, and rows whose numbers
differ are different even if they grant the same.

## Main definitions

* `Marks`: the numbers of a row, with `Marks.ofPrivileges` and `Marks.privileges`.
* `MarkedEntry`: a row with its numbers.
-/

namespace AccessGroups

/-- The numbers in the columns of the privileges. -/
structure Marks where
  read : Int64
  modify : Int64
  create : Int64
  delete : Int64
  deriving DecidableEq, Repr

namespace Marks

/-- One for a privilege that is granted, and zero for one that is not. -/
def ofPrivileges (p : Privileges) : Marks :=
  ⟨if p.read then 1 else 0, if p.modify then 1 else 0, if p.create then 1 else 0,
    if p.delete then 1 else 0⟩

/-- The privileges that the numbers grant. -/
def privileges (m : Marks) : Privileges :=
  ⟨m.read ≠ 0, m.modify ≠ 0, m.create ≠ 0, m.delete ≠ 0⟩

@[simp] theorem privileges_ofPrivileges (p : Privileges) : (ofPrivileges p).privileges = p := by
  rcases p with ⟨_ | _, _ | _, _ | _, _ | _⟩ <;> decide

theorem ofPrivileges_inj {p q : Privileges} : ofPrivileges p = ofPrivileges q ↔ p = q :=
  ⟨fun h => by simpa using congrArg privileges h, fun h => h ▸ rfl⟩

end Marks

/-- A row with the numbers of its privileges. -/
structure MarkedEntry where
  entry : Entry
  marks : Marks
  deriving DecidableEq, Repr

namespace MarkedEntry

/-- A row as the store writes it. -/
def ofEntry (e : Entry) : MarkedEntry :=
  ⟨e, .ofPrivileges e.privileges⟩

/-- The row with other numbers. -/
def withMarks (e : MarkedEntry) (m : Marks) : MarkedEntry :=
  ⟨{ e.entry with privileges := m.privileges }, m⟩

/-- The store itself could have written the row. -/
def isPlain (e : MarkedEntry) : Bool :=
  e.marks = .ofPrivileges e.entry.privileges

end MarkedEntry

end AccessGroups
