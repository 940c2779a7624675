import AccessGroups.Program.Call
import Mathlib.Data.List.Pairwise

/-!
# Ledgers

A ledger is what a store with its resources comes down to: the rows in ascending order of their
identifiers, the references of each kind in ascending order of theirs, and how far the group
identifiers have been handed out. Kinds that are kept in one table have the same resources, and
change together. What a successful call answers and changes is said here once, for stores of every
kind, without saying how they do it: a new row has an identifier above those of the rows, and an
allocated group is the least one that is above those of the rows and has not been handed out.

## Main definitions

* `Ledger`: rows, references and group identifiers handed out.
* `Ledger.Separate`: every kind has a table of its own.
* `Ledger.Gives`, `Ledger.GivesRegistry`: the answer and the effect of a successful call.
* `Consistent`: every resource has a group of its own with rows, and the rows are tidy.
-/

namespace AccessGroups

namespace Identifier

variable {family : IdFamily}

/-- In a list that is ascending in a key, members with the same key are the same. -/
theorem eq_of_ascending {ρ : Type} {key : ρ → Identifier family} {rows : List ρ}
    (h : rows.Pairwise fun a b => key a < key b) {a b : ρ} (ha : a ∈ rows)
    (hb : b ∈ rows) (heq : key a = key b) : a = b := by
  refine List.Pairwise.forall_of_forall_of_flip (R := fun x y => key x = key y → x = y)
    (fun _ _ _ => rfl) (h.imp fun hlt heq => ?_) (h.imp fun hlt heq => ?_) ha hb heq
  · exact absurd (heq ▸ hlt) (lt_irrefl _)
  · exact absurd (heq ▸ hlt) (lt_irrefl _)

/-- No two rows in ascending order have the same key. -/
theorem nodup_of_ascending {ρ : Type} {key : ρ → Identifier family} {rows : List ρ}
    (h : rows.Pairwise fun a b => key a < key b) : (rows.map key).Nodup :=
  List.pairwise_map.2 (h.imp fun {a b} hlt (heq : key a = key b) => lt_irrefl _ (heq ▸ hlt))

/-- A list that is ascending in a key has each member once. -/
theorem nodup_of_pairwise_lt {ρ : Type} {key : ρ → Identifier family} {rows : List ρ}
    (h : rows.Pairwise fun a b => key a < key b) : rows.Nodup :=
  h.imp fun {a b} hlt (heq : a = b) => lt_irrefl _ (heq ▸ hlt)

/-- Ascending lists with the same members are the same. -/
theorem eq_of_ascending_of_mem_iff {xs ys : List (Identifier family)} (hx : xs.Pairwise (· < ·))
    (hy : ys.Pairwise (· < ·)) (h : ∀ a, a ∈ xs ↔ a ∈ ys) : xs = ys := by
  have hperm :=
    (List.perm_ext_iff_of_nodup (nodup_of_pairwise_lt hx) (nodup_of_pairwise_lt hy)).2 h
  exact hperm.eq_of_pairwise
    (fun _ _ _ _ hab hba => absurd (lt_trans hab hba) (lt_irrefl _)) hx hy

end Identifier

/-- Every resource refers to a group of its own that has rows, every group with rows is referred to,
and no row repeats another or has two principals. -/
structure Consistent (rows : List Entry) (refs : ResourceKind → List GroupRef) : Prop where
  valid : ∀ k, ∀ a ∈ refs k, a.group.IsValid
  populated : ∀ k, ∀ a ∈ refs k, ∃ e ∈ rows, e.group = a.group
  referenced : ∀ e ∈ rows, ∃ k, ∃ a ∈ refs k, a.group = e.group
  separate : ∀ k, ∀ a ∈ refs k, ∀ b ∈ refs k, a.group = b.group → a = b
  single : ∀ a ∈ rows, ∀ b ∈ rows, a.toGrant = b.toGrant → a = b
  unmixed : ∀ e ∈ rows, e.isMixed = false

instance (p : ResourceKind → Prop) [DecidablePred p] : Decidable (∀ k, p k) :=
  decidable_of_iff (∀ k ∈ ResourceKind.all, p k) ⟨fun h k => h k k.mem_all, fun h k _ => h k⟩

instance (p : ResourceKind → Prop) [DecidablePred p] : Decidable (∃ k, p k) :=
  decidable_of_iff (∃ k ∈ ResourceKind.all, p k)
    ⟨fun ⟨k, _, h⟩ => ⟨k, h⟩, fun ⟨k, h⟩ => ⟨k, k.mem_all, h⟩⟩

instance (rows : List Entry) (refs : ResourceKind → List GroupRef) :
    Decidable (Consistent rows refs) :=
  decidable_of_iff
    ((∀ k, ∀ a ∈ refs k, a.group.IsValid) ∧
      (∀ k, ∀ a ∈ refs k, ∃ e ∈ rows, e.group = a.group) ∧
      (∀ e ∈ rows, ∃ k, ∃ a ∈ refs k, a.group = e.group) ∧
      (∀ k, ∀ a ∈ refs k, ∀ b ∈ refs k, a.group = b.group → a = b) ∧
      (∀ a ∈ rows, ∀ b ∈ rows, a.toGrant = b.toGrant → a = b) ∧ ∀ e ∈ rows, e.isMixed = false)
    ⟨fun ⟨h₁, h₂, h₃, h₄, h₅, h₆⟩ => ⟨h₁, h₂, h₃, h₄, h₅, h₆⟩,
      fun h => ⟨h.valid, h.populated, h.referenced, h.separate, h.single, h.unmixed⟩⟩

/-- Rows, references and group identifiers handed out. -/
structure Ledger where
  rows : List Entry
  ascending : rows.Pairwise fun a b => a.id < b.id
  refs : ResourceKind → List GroupRef
  ordered : ∀ kind, (refs kind).Pairwise fun a b => a.resource < b.resource
  /-- The name of the table in which the resources of a kind are. -/
  table : ResourceKind → String
  together : ∀ k k', table k = table k' → refs k = refs k'
  /-- No identifier from this one on has been handed out. -/
  nextGroup : Int
  positive : 0 < nextGroup
  /-- The group identifiers handed out, in their order. -/
  issued : List GroupId

namespace Ledger

variable {l t : Ledger} {kind k : ResourceKind} {r : ResourceId} {g : GroupId} {a b e : Entry}

/-- The ledger with other rows. -/
def withRows (l : Ledger) (rows : List Entry) (h : rows.Pairwise fun a b => a.id < b.id) : Ledger :=
  { l with rows, ascending := h }

/-- Every kind has a table of its own. -/
def Separate (l : Ledger) : Prop :=
  ∀ k k', l.table k = l.table k' → k = k'

/-- The rows of a group. -/
def rowsOf (l : Ledger) (g : GroupId) : List Entry :=
  l.rows.filter fun e => e.group = g

/-- The group has a row. -/
def Populated (l : Ledger) (g : GroupId) : Prop :=
  ∃ e ∈ l.rows, e.group = g

/-- Some resource refers to the group. -/
def Refers (l : Ledger) (g : GroupId) : Prop :=
  ∃ k, ∃ a ∈ l.refs k, a.group = g

/-- Two rows of the group have the same grant. -/
def Repeats (l : Ledger) (g : GroupId) : Prop :=
  ∃ a ∈ l.rows, ∃ b ∈ l.rows, a.id < b.id ∧ a.toGrant = b.toGrant ∧ a.group = g

/-- Put another row in the place of the one with its identifier. -/
def updated (rows : List Entry) (e : Entry) : List Entry :=
  rows.map fun a => if a.id = e.id then e else a

/-- Put another reference in the place of that of its resource. -/
def referring (refs : List GroupRef) (ref : GroupRef) : List GroupRef :=
  refs.map fun a => if a.resource = ref.resource then ref else a

theorem ordered_referring {refs : List GroupRef} (ref : GroupRef)
    (h : refs.Pairwise fun a b => a.resource < b.resource) :
    (referring refs ref).Pairwise fun a b => a.resource < b.resource := by
  have hkeep (a : GroupRef) :
      (if a.resource = ref.resource then ref else a).resource = a.resource := by
    split
    · next heq => exact heq.symm
    · rfl
  refine List.pairwise_map.2 (h.imp fun hab => ?_)
  rwa [hkeep, hkeep]

/-- The ledger after a resource has been given another group. -/
def assign (l : Ledger) (kind : ResourceKind) (ref : GroupRef) : Ledger :=
  { l with
    refs := fun k => if l.table k = l.table kind then referring (l.refs k) ref else l.refs k
    ordered := fun k => by
      split
      · exact ordered_referring ref (l.ordered k)
      · exact l.ordered k
    together := fun k k' h => by rw [h, l.together k k' h] }

/-- The ledger without a resource. -/
def remove (l : Ledger) (kind : ResourceKind) (r : ResourceId) : Ledger :=
  { l with
    refs := fun k =>
      if l.table k = l.table kind then (l.refs k).filter fun a => a.resource ≠ r else l.refs k
    ordered := fun k => by
      split
      · exact (l.ordered k).filter _
      · exact l.ordered k
    together := fun k k' h => by rw [h, l.together k k' h] }

/-- The ledger after a group identifier at or above the next one has been handed out. -/
def issue (l : Ledger) (g : GroupId) (h : l.nextGroup ≤ g.val.toInt) : Ledger :=
  { l with
    nextGroup := g.val.toInt + 1
    positive := by have := l.positive; omega
    issued := l.issued ++ [g] }

/-- The group identifier is above those of the rows and has not been handed out. -/
def Free (l : Ledger) (n : Int) : Prop :=
  l.nextGroup ≤ n ∧ ∀ e ∈ l.rows, e.group.val.toInt < n

/-! ### Successful calls -/

/-- What a successful call to the store answers, and the ledger that it leaves. -/
def Gives (l : Ledger) : (c : StoreCall) → c.Value → Ledger → Prop
  | .findAll, v, t => v = l.rows ∧ t = l
  | .findGroup g, v, t => v = l.rowsOf g ∧ t = l
  | .findDuplicateGroups, v, t => v.Pairwise (· < ·) ∧ (∀ g, g ∈ v ↔ l.Repeats g) ∧ t = l
  | .findMixed, v, t => v = l.rows.filter (fun e => e.isMixed) ∧ t = l
  | .insert grant, v, t => v.toGrant = grant ∧ ∃ h, t = l.withRows (l.rows ++ [v]) h
  | .update e, _, t => (∃ a ∈ l.rows, a.id = e.id) ∧ ∃ h, t = l.withRows (updated l.rows e) h
  | .deleteEntry id, _, t =>
    (∃ a ∈ l.rows, a.id = id) ∧ ∃ h, t = l.withRows (l.rows.filter fun a => a.id ≠ id) h
  | .deleteGroup g, n, t =>
    n = (l.rowsOf g).length ∧ ∃ h, t = l.withRows (l.rows.filter fun a => a.group ≠ g) h
  | .replaceGroup g grants, v, t =>
    v.map Entry.toGrant = grants ∧ (∀ a ∈ l.rows, ∀ e ∈ v, a.id < e.id) ∧
      ∃ h, t = l.withRows ((l.rows.filter fun a => a.group ≠ g) ++ v) h
  | .allocateGroup, g, t =>
    l.Free g.val.toInt ∧ (∀ n, l.Free n → g.val.toInt ≤ n) ∧ ∃ h, t = l.issue g h

/-- What a successful call to the resources answers, and the ledger that it leaves. -/
def GivesRegistry (l : Ledger) : (c : RegistryCall) → c.Value → Ledger → Prop
  | .listRefs kind, v, t => v = l.refs kind ∧ t = l
  | .findRef kind r, v, t => ⟨r, v⟩ ∈ l.refs kind ∧ t = l
  | .assign kind r g, _, t => (∃ a ∈ l.refs kind, a.resource = r) ∧ t = l.assign kind ⟨r, g⟩
  | .delete kind r, _, t => (∃ a ∈ l.refs kind, a.resource = r) ∧ t = l.remove kind r

/-- Calls to the store leave the references and their tables alone. -/
theorem Gives.frame {c : StoreCall} {v : c.Value} (h : l.Gives c v t) :
    t.refs = l.refs ∧ t.table = l.table := by
  cases c with
  | findAll => rw [h.2]; exact ⟨rfl, rfl⟩
  | findGroup => rw [h.2]; exact ⟨rfl, rfl⟩
  | findDuplicateGroups => rw [h.2.2]; exact ⟨rfl, rfl⟩
  | findMixed => rw [h.2]; exact ⟨rfl, rfl⟩
  | insert => obtain ⟨-, -, rfl⟩ := h; exact ⟨rfl, rfl⟩
  | update => obtain ⟨-, -, rfl⟩ := h; exact ⟨rfl, rfl⟩
  | deleteEntry => obtain ⟨-, -, rfl⟩ := h; exact ⟨rfl, rfl⟩
  | deleteGroup => obtain ⟨-, -, rfl⟩ := h; exact ⟨rfl, rfl⟩
  | replaceGroup => obtain ⟨-, -, -, rfl⟩ := h; exact ⟨rfl, rfl⟩
  | allocateGroup => obtain ⟨-, -, -, rfl⟩ := h; exact ⟨rfl, rfl⟩

/-- Calls to the resources leave the rows and the group identifiers alone. -/
theorem GivesRegistry.frame {c : RegistryCall} {v : c.Value} (h : l.GivesRegistry c v t) :
    t.rows = l.rows ∧ t.nextGroup = l.nextGroup ∧ t.issued = l.issued := by
  cases c with
  | listRefs => rw [h.2]; exact ⟨rfl, rfl, rfl⟩
  | findRef => rw [h.2]; exact ⟨rfl, rfl, rfl⟩
  | assign => rw [h.2]; exact ⟨rfl, rfl, rfl⟩
  | delete => rw [h.2]; exact ⟨rfl, rfl, rfl⟩

/-! ### Rows and references -/

@[simp] theorem rows_withRows (rows : List Entry) (h) : (l.withRows rows h).rows = rows := rfl

@[simp] theorem refs_withRows (rows : List Entry) (h) : (l.withRows rows h).refs = l.refs := rfl

@[simp] theorem nextGroup_withRows (rows : List Entry) (h) :
    (l.withRows rows h).nextGroup = l.nextGroup := rfl

@[simp] theorem issued_withRows (rows : List Entry) (h) :
    (l.withRows rows h).issued = l.issued := rfl

@[simp] theorem rows_assign (ref : GroupRef) : (l.assign kind ref).rows = l.rows := rfl

@[simp] theorem nextGroup_assign (ref : GroupRef) :
    (l.assign kind ref).nextGroup = l.nextGroup := rfl

@[simp] theorem issued_assign (ref : GroupRef) : (l.assign kind ref).issued = l.issued := rfl

@[simp] theorem rows_issue (h) : (l.issue g h).rows = l.rows := rfl

@[simp] theorem refs_issue (h) : (l.issue g h).refs = l.refs := rfl

@[simp] theorem nextGroup_issue (h) : (l.issue g h).nextGroup = g.val.toInt + 1 := rfl

@[simp] theorem issued_issue (h) : (l.issue g h).issued = l.issued ++ [g] := rfl

theorem mem_rowsOf : e ∈ l.rowsOf g ↔ e ∈ l.rows ∧ e.group = g := by
  simp [rowsOf]

theorem rowsOf_eq_nil_iff : l.rowsOf g = [] ↔ ¬ l.Populated g := by
  simp [rowsOf, Populated, List.filter_eq_nil_iff]

/-- Taking away the rows of a group that has none changes nothing. -/
theorem filter_group_ne (h : ¬ l.Populated g) : (l.rows.filter fun a => a.group ≠ g) = l.rows := by
  refine List.filter_eq_self.2 fun e he => ?_
  have hne : e.group ≠ g := fun heq => h ⟨e, he, heq⟩
  simpa using hne

theorem mem_updated {rows : List Entry} :
    a ∈ updated rows e ↔ (a ∈ rows ∧ a.id ≠ e.id) ∨ (a = e ∧ ∃ b ∈ rows, b.id = e.id) := by
  simp only [updated, List.mem_map]
  constructor
  · rintro ⟨b, hb, rfl⟩
    split
    · next heq => exact .inr ⟨rfl, b, hb, heq⟩
    · next hne => exact .inl ⟨hb, hne⟩
  · rintro (⟨ha, hne⟩ | ⟨rfl, b, hb, heq⟩)
    · exact ⟨a, ha, if_neg hne⟩
    · exact ⟨b, hb, if_pos heq⟩

/-- Rows with the same identifier are the same. -/
theorem eq_of_id_eq (ha : a ∈ l.rows) (hb : b ∈ l.rows) (h : a.id = b.id) : a = b :=
  Identifier.eq_of_ascending l.ascending ha hb h

/-- References of the same resource are the same. -/
theorem eq_of_resource_eq {x y : GroupRef} (hx : x ∈ l.refs k) (hy : y ∈ l.refs k)
    (h : x.resource = y.resource) : x = y :=
  Identifier.eq_of_ascending (l.ordered k) hx hy h

theorem mem_assign {x ref : GroupRef} {k' : ResourceKind} :
    x ∈ (l.assign k ref).refs k' ↔
      (x ∈ l.refs k' ∧ ¬ (l.table k' = l.table k ∧ x.resource = ref.resource)) ∨
        (l.table k' = l.table k ∧ x = ref ∧ ∃ a ∈ l.refs k', a.resource = ref.resource) := by
  by_cases hk : l.table k' = l.table k
  · simp only [assign, hk, if_true, referring, List.mem_map, true_and]
    constructor
    · rintro ⟨a, ha, rfl⟩
      split
      · next heq => exact .inr ⟨rfl, a, ha, heq⟩
      · next hne => exact .inl ⟨ha, hne⟩
    · rintro (⟨hx, hne⟩ | ⟨rfl, a, ha, heq⟩)
      · exact ⟨x, hx, if_neg hne⟩
      · exact ⟨a, ha, if_pos heq⟩
  · simp [assign, hk]

/-- If every kind has a table of its own, only the reference of the resource changes. -/
theorem mem_assign_of_separate (h : l.Separate) {x ref : GroupRef} {k' : ResourceKind} :
    x ∈ (l.assign k ref).refs k' ↔ (x ∈ l.refs k' ∧ ¬ (k' = k ∧ x.resource = ref.resource)) ∨
      (k' = k ∧ x = ref ∧ ∃ a ∈ l.refs k, a.resource = ref.resource) := by
  have htable : l.table k' = l.table k ↔ k' = k := ⟨h k' k, fun heq => heq ▸ rfl⟩
  rw [mem_assign, htable]
  refine or_congr_right (and_congr_right ?_)
  rintro rfl
  exact Iff.rfl

/-- A reference of another resource stays. -/
theorem mem_assign_of_ne {x : GroupRef} {k' : ResourceKind} (hx : x ∈ l.refs k')
    (hne : l.table k' = l.table k → x.resource ≠ r) : x ∈ (l.assign k ⟨r, g⟩).refs k' :=
  mem_assign.2 (.inl ⟨hx, fun h => hne h.1 h.2⟩)

end Ledger

end AccessGroups
