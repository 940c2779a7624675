import AccessGroups.Id

/-!
# Ordered tables

A table holds rows in ascending order of a key, at most one row for each key.

## Main definitions

* `Table key`: the rows with their order.
* `Table.ofRows`: the table of some rows.
* `Table.put`, `Table.replace`, `Table.filter`: the changes.
* `Table.find?`, `Table.contains`: looking up a key.
-/

namespace AccessGroups

/-- Rows in ascending order of a key. -/
structure Table {ρ : Type} {family : IdFamily} (key : ρ → Identifier family) where
  rows : List ρ
  ascending : rows.Pairwise fun a b => key a < key b

namespace Table

variable {ρ : Type} {family : IdFamily} {key : ρ → Identifier family}

@[ext] theorem ext {s t : Table key} (h : s.rows = t.rows) : s = t := by
  cases s; cases t; cases h; rfl

instance [DecidableEq ρ] : DecidableEq (Table key) := fun s t =>
  decidable_of_iff (s.rows = t.rows) ⟨ext, fun h => h ▸ rfl⟩

/-- The table without rows. -/
def empty : Table key := ⟨[], .nil⟩

instance : Inhabited (Table key) := ⟨empty⟩

/-- The number of rows. -/
def size (t : Table key) : Nat := t.rows.length

/-- The row with the given key. -/
def find? (t : Table key) (id : Identifier family) : Option ρ :=
  t.rows.find? fun r => key r = id

/-- Some row has the given key. -/
def contains (t : Table key) (id : Identifier family) : Bool :=
  t.rows.any fun r => key r = id

/-- The rows that satisfy a condition. -/
def filter (p : ρ → Bool) (t : Table key) : Table key :=
  ⟨t.rows.filter p, t.ascending.filter p⟩

/-- Insert a row in its place, instead of the one with the same key. -/
def putRow (key : ρ → Identifier family) (row : ρ) : List ρ → List ρ
  | [] => [row]
  | r :: rest =>
    if key row < key r then row :: r :: rest
    else if key row = key r then row :: rest
    else r :: putRow key row rest

theorem mem_putRow_imp {row r : ρ} {rows : List ρ} (h : r ∈ putRow key row rows) :
    r = row ∨ r ∈ rows := by
  induction rows with
  | nil => simpa [putRow] using h
  | cons a rest ih =>
    rw [putRow] at h
    split at h
    · simpa using h
    · split at h
      · exact (List.mem_cons.1 h).imp_right (List.mem_cons_of_mem _)
      · rcases List.mem_cons.1 h with h | h
        · exact .inr (h ▸ List.mem_cons_self)
        · exact (ih h).imp_right (List.mem_cons_of_mem _)

theorem pairwise_putRow {row : ρ} {rows : List ρ}
    (h : rows.Pairwise fun a b => key a < key b) :
    (putRow key row rows).Pairwise fun a b => key a < key b := by
  induction rows with
  | nil => simp [putRow]
  | cons a rest ih =>
    obtain ⟨ha, hrest⟩ := List.pairwise_cons.1 h
    rw [putRow]
    split
    · next hlt =>
      exact List.pairwise_cons.2 ⟨fun b hb => (List.mem_cons.1 hb).elim (· ▸ hlt)
        fun hb => Identifier.lt_trans hlt (ha b hb), h⟩
    · next hlt =>
      split
      · next heq => exact List.pairwise_cons.2 ⟨fun b hb => heq ▸ ha b hb, hrest⟩
      · next hne =>
        refine List.pairwise_cons.2 ⟨fun b hb => ?_, ih hrest⟩
        rcases mem_putRow_imp hb with rfl | hb
        · exact Identifier.lt_of_not_lt_of_ne hlt hne
        · exact ha b hb

/-- Put a row into the table, instead of the one with the same key. -/
def put (t : Table key) (row : ρ) : Table key :=
  ⟨putRow key row t.rows, pairwise_putRow t.ascending⟩

/-- The table of some rows; of those with the same key the last one counts. -/
def ofRows (rows : List ρ) : Table key :=
  rows.foldl put empty

/-- Put a row in the place of the one with the same key, if there is one. -/
def replace (t : Table key) (row : ρ) : Table key where
  rows := t.rows.map fun r => if key r = key row then row else r
  ascending := by
    have hkey (r : ρ) : key (if key r = key row then row else r) = key r := by
      split
      · next h => exact h.symm
      · rfl
    refine List.pairwise_map.2 (t.ascending.imp fun h => ?_)
    rwa [hkey, hkey]

/-- The table without the row of the given key. -/
def erase (t : Table key) (id : Identifier family) : Table key :=
  t.filter fun r => key r ≠ id

end Table

end AccessGroups
