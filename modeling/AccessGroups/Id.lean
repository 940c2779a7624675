/-!
# Identifiers

Entries, groups, users, units and resources are named by signed 64-bit integers. One type family
keeps the five kinds of identifiers apart. Identifiers that a store hands out are positive; any
other value stands for "nothing assigned".

## Main definitions

* `Identifier family`: an identifier of one family, with the abbreviations `EntryId`, `GroupId`,
  `UserId`, `UnitId` and `ResourceId`.
* `Identifier.IsValid`: the identifier is positive.
* `Identifier.distinct`: the identifiers of a list in ascending order, each one once.

## Main results

* `Identifier.mem_distinct`, `Identifier.pairwise_distinct`: the members of `distinct` and their
  order.
-/

namespace AccessGroups

/-- The five families of identifiers. -/
inductive IdFamily where
  | entry
  | group
  | user
  | unit
  | resource
  deriving DecidableEq, Repr

/-- The name of the family in diagnostic texts. -/
def IdFamily.name : IdFamily → String
  | .entry => "EntryId"
  | .group => "GroupId"
  | .user => "UserId"
  | .unit => "UnitId"
  | .resource => "ResourceId"

/-- An identifier of one family. -/
structure Identifier (family : IdFamily) where
  /-- The number itself. -/
  val : Int64
  deriving DecidableEq, Hashable, Inhabited, Repr

/-- The identifier of one stored row. -/
abbrev EntryId := Identifier .entry

/-- The identifier shared by the rows of one permission group. -/
abbrev GroupId := Identifier .group

/-- The identifier of a user. -/
abbrev UserId := Identifier .user

/-- The identifier of a unit, a group of users. -/
abbrev UnitId := Identifier .unit

/-- The identifier of a protected resource among those of its kind. -/
abbrev ResourceId := Identifier .resource

namespace Identifier

variable {family : IdFamily}

@[ext] theorem ext {a b : Identifier family} (h : a.val = b.val) : a = b := by
  cases a; cases b; exact congrArg _ h

instance : LT (Identifier family) := ⟨fun a b => a.val < b.val⟩

instance : LE (Identifier family) := ⟨fun a b => a.val ≤ b.val⟩

instance (a b : Identifier family) : Decidable (a < b) :=
  inferInstanceAs (Decidable (a.val < b.val))

instance (a b : Identifier family) : Decidable (a ≤ b) :=
  inferInstanceAs (Decidable (a.val ≤ b.val))

/-- Identifiers that a store hands out are positive. -/
def IsValid (a : Identifier family) : Prop :=
  0 < a.val

instance (a : Identifier family) : Decidable a.IsValid :=
  inferInstanceAs (Decidable (0 < a.val))

/-- The identifier as a decimal number. -/
def text (a : Identifier family) : String :=
  toString a.val.toInt

/-- The identifier with its family, as diagnostic texts write it. -/
def labelled (a : Identifier family) : String :=
  family.name ++ "(" ++ a.text ++ ")"

/-! ### Order -/

theorem lt_iff_toInt {a b : Identifier family} : a < b ↔ a.val.toInt < b.val.toInt :=
  Int64.lt_iff_toInt_lt

theorem le_iff_toInt {a b : Identifier family} : a ≤ b ↔ a.val.toInt ≤ b.val.toInt :=
  Int64.le_iff_toInt_le

theorem eq_iff_toInt {a b : Identifier family} : a = b ↔ a.val.toInt = b.val.toInt :=
  ⟨fun h => h ▸ rfl, fun h => ext (Int64.toInt_inj.1 h)⟩

theorem lt_irrefl (a : Identifier family) : ¬ a < a := by
  rw [lt_iff_toInt]; omega

theorem lt_trans {a b c : Identifier family} (h₁ : a < b) (h₂ : b < c) : a < c := by
  rw [lt_iff_toInt] at *; omega

theorem lt_of_not_lt_of_ne {a b : Identifier family} (h₁ : ¬ a < b) (h₂ : a ≠ b) : b < a := by
  rw [ne_eq, eq_iff_toInt] at h₂; rw [lt_iff_toInt] at *; omega

/-- Insert an identifier into an ascending list, before those equal to it. -/
def insertSorted (a : Identifier family) : List (Identifier family) → List (Identifier family)
  | [] => [a]
  | b :: rest => if a ≤ b then a :: b :: rest else b :: insertSorted a rest

/-- The identifiers in ascending order, repetitions kept. -/
def sorted (ids : List (Identifier family)) : List (Identifier family) :=
  ids.foldr insertSorted []

/-! ### Ascending lists without repetition -/

/-- Insert an identifier into an ascending list, unless it is there already. -/
def insertInto (a : Identifier family) : List (Identifier family) → List (Identifier family)
  | [] => [a]
  | b :: rest =>
    if a < b then a :: b :: rest else if a = b then b :: rest else b :: insertInto a rest

/-- The identifiers of a list in ascending order, each one once. -/
def distinct (ids : List (Identifier family)) : List (Identifier family) :=
  ids.foldr insertInto []

theorem mem_insertInto {a b : Identifier family} {ids : List (Identifier family)} :
    a ∈ insertInto b ids ↔ a = b ∨ a ∈ ids := by
  induction ids with
  | nil => simp [insertInto]
  | cons c rest ih =>
    rw [insertInto]
    split
    · simp
    · split
      · next h => simp [h]
      · simp only [List.mem_cons, ih]
        exact ⟨fun h => h.elim (.inr ∘ .inl) (Or.imp_right .inr),
          fun h => h.elim (.inr ∘ .inl) (Or.imp_right .inr)⟩

theorem mem_distinct {a : Identifier family} {ids : List (Identifier family)} :
    a ∈ distinct ids ↔ a ∈ ids := by
  induction ids with
  | nil => simp [distinct]
  | cons b rest ih => simpa [distinct, mem_insertInto] using or_congr_right ih

theorem pairwise_insertInto {a : Identifier family} {ids : List (Identifier family)}
    (h : ids.Pairwise (· < ·)) : (insertInto a ids).Pairwise (· < ·) := by
  induction ids with
  | nil => simp [insertInto]
  | cons b rest ih =>
    obtain ⟨hb, hrest⟩ := List.pairwise_cons.1 h
    rw [insertInto]
    split
    · next hlt =>
      exact List.pairwise_cons.2 ⟨fun c hc => (List.mem_cons.1 hc).elim (· ▸ hlt)
        fun hc => lt_trans hlt (hb c hc), h⟩
    · next hlt =>
      split
      · exact h
      · next hne =>
        refine List.pairwise_cons.2 ⟨fun c hc => ?_, ih hrest⟩
        rcases mem_insertInto.1 hc with rfl | hc
        · exact lt_of_not_lt_of_ne hlt hne
        · exact hb c hc

/-- The list of distinct identifiers is strictly ascending. -/
theorem pairwise_distinct (ids : List (Identifier family)) : (distinct ids).Pairwise (· < ·) := by
  induction ids with
  | nil => exact .nil
  | cons a rest ih => exact pairwise_insertInto ih

end Identifier

end AccessGroups
