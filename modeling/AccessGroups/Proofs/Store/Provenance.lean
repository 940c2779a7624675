import AccessGroups.Proofs.Store.Memory
import AccessGroups.Proofs.Store.Rows
import AccessGroups.Scenario.Scene

/-!
# Where rows come from

A call to a store keeps rows, or stores the grants that it was given; whatever its state, a store
makes up no grants of its own. What is done to resources leaves the rows alone, unless some kind has
its resources in the table of the rows.

## Main definitions

* `StoreCall.grants`: the grants that a call can store, with `StoreCall.shown` for the rows that it
  returns.
* `Backend.Apart`: no kind has its resources in the table of the rows.

## Main results

* `Backend.mem_entries_performStore`: where the rows after a call come from.
* `Backend.mem_entries_of_shown`: where the rows of an answer come from.
* `Backend.entries_performRegistry`, `Backend.entries_put`: resources apart.
-/

namespace AccessGroups

/-- The grants that the call can store. -/
def StoreCall.grants : StoreCall → List Grant
  | .insert grant => [grant]
  | .update entry => [entry.toGrant]
  | .replaceGroup _ grants => grants
  | _ => []

/-- The rows that the call shows. -/
def StoreCall.shown : (c : StoreCall) → c.Value → List Entry
  | .findAll, rows | .findGroup _, rows | .findMixed, rows => rows
  | _, _ => []

namespace Table

variable {ρ : Type} {family : IdFamily} {key : ρ → Identifier family} {t : Table key} {row r : ρ}

theorem mem_put_imp (h : r ∈ (t.put row).rows) : r = row ∨ r ∈ t.rows :=
  mem_putRow_imp h

theorem mem_replace_imp (h : r ∈ (t.replace row).rows) : r = row ∨ r ∈ t.rows := by
  obtain ⟨a, ha, rfl⟩ := List.mem_map.1 h
  split
  · exact .inl rfl
  · exact .inr ha

theorem mem_of_mem_filter {p : ρ → Bool} (h : r ∈ (t.filter p).rows) : r ∈ t.rows :=
  (List.mem_filter.1 h).1

end Table

variable {e : Entry} {c : StoreCall} {grants : List Grant}

/-! ### In memory -/

namespace MemoryStore

variable {s s' : MemoryStore}

theorem mem_rows_insertAll (h : e ∈ (s.insertAll grants).2.entries.rows) :
    e.toGrant ∈ grants ∨ e ∈ s.entries.rows := by
  induction grants generalizing s with
  | nil => exact .inr h
  | cons grant rest ih =>
    rcases ih h with hrest | hfirst
    · exact .inl (List.mem_cons_of_mem _ hrest)
    · rcases Table.mem_put_imp hfirst with rfl | hold
      · exact .inl List.mem_cons_self
      · exact .inr hold

theorem mem_rows_perform {x : c.Answer} (h : s.perform c = some (x, s'))
    (he : e ∈ s'.entries.rows) : e.toGrant ∈ c.grants ∨ e ∈ s.entries.rows := by
  cases c with
  | findAll | findGroup | findDuplicateGroups | findMixed =>
    cases h
    exact .inr he
  | insert grant =>
    cases h
    rcases Table.mem_put_imp he with rfl | hold
    · exact .inl List.mem_cons_self
    · exact .inr hold
  | update entry =>
    rw [perform] at h
    split at h <;> cases h
    · rcases Table.mem_replace_imp he with rfl | hold
      · exact .inl List.mem_cons_self
      · exact .inr hold
    · exact .inr he
  | deleteEntry id =>
    rw [perform] at h
    split at h <;> cases h
    · exact .inr (Table.mem_of_mem_filter he)
    · exact .inr he
  | deleteGroup group =>
    cases h
    exact .inr (Table.mem_of_mem_filter he)
  | replaceGroup group grants =>
    cases h
    exact (mem_rows_insertAll he).imp_right Table.mem_of_mem_filter
  | allocateGroup =>
    obtain ⟨⟨g, s'⟩, hallocate, heq⟩ := Option.map_eq_some_iff.1 h
    cases heq
    rw [allocateGroup?] at hallocate
    split at hallocate <;> cases hallocate
    exact .inr he

end MemoryStore

/-! ### In a database -/

namespace Database

variable {d d' : Database} {t : Table Entry.id}

theorem entries_of_insert {grant : Grant} {stored : Entry}
    (h : d.insert t grant = .ok (stored, d')) :
    stored.toGrant = grant ∧ d'.entries = some (t.put stored) ∧ d'.sequence = d.sequence := by
  rw [insert] at h
  split at h <;> cases h
  exact ⟨rfl, rfl, rfl⟩

/-- Storing grants one after another keeps what storing each of them keeps. -/
theorem insertAll_keeps {P : Database → Prop} {stored : List Entry}
    (hinsert : ∀ grant ∈ grants, ∀ d t stored d', P d → d.entries = some t →
      d.insert t grant = .ok (stored, d') → P d')
    (hd : P d) (h : d.insertAll grants = .ok (stored, d')) : P d' := by
  induction grants generalizing d stored with
  | nil =>
    cases h
    exact hd
  | cons grant rest ih =>
    cases ht : d.entries with
    | none => simp [insertAll, entriesOrError, ht, bind, Except.bind] at h
    | some t =>
      simp only [insertAll, entriesOrError, ht, bind, Except.bind] at h
      cases hfirst : d.insert t grant with
      | error e => simp [hfirst] at h
      | ok first =>
        cases hrest : first.2.insertAll rest with
        | error e => simp [hfirst, hrest] at h
        | ok others =>
          simp only [hfirst, hrest, pure, Except.pure, Except.ok.injEq, Prod.mk.injEq] at h
          obtain ⟨-, rfl⟩ := h
          exact ih (fun g hg => hinsert g (List.mem_cons_of_mem _ hg))
            (hinsert grant List.mem_cons_self _ _ _ _ hd ht hfirst) hrest

theorem mem_rows_insertAll {stored : List Entry} (ht : d.entries = some t)
    (h : d.insertAll grants = .ok (stored, d')) :
    ∃ t', d'.entries = some t' ∧ ∀ e ∈ t'.rows, e.toGrant ∈ grants ∨ e ∈ t.rows := by
  refine insertAll_keeps (P := fun d' => ∃ t', d'.entries = some t' ∧
    ∀ e ∈ t'.rows, e.toGrant ∈ grants ∨ e ∈ t.rows) ?_ ⟨t, ht, fun e he => .inr he⟩ h
  rintro grant hgrant d₁ t₁ stored d₂ ⟨t', ht', hrows⟩ ht₁ hinsert
  obtain ⟨hstored, hentries, -⟩ := entries_of_insert hinsert
  obtain rfl : t' = t₁ := Option.some.inj (ht'.symm.trans ht₁)
  refine ⟨_, hentries, fun e he => ?_⟩
  rcases Table.mem_put_imp he with rfl | hold
  · exact .inl (hstored ▸ hgrant)
  · exact hrows e hold

/-- Handing out a group identifier changes at most the sequence. -/
theorem exists_allocateGroup (d : Database) :
    ∃ sequence, d.allocateGroup.2 = { d with sequence } := by
  obtain ⟨entries, marks, counters, sequence, hosts, migrations⟩ := d
  cases sequence with
  | «at» next =>
    cases entries with
    | none => exact ⟨_, rfl⟩
    | some t =>
      dsimp only [allocateGroup, entriesOrError]
      split <;> exact ⟨_, rfl⟩
  | dropped | empty | inexact => cases entries <;> exact ⟨_, rfl⟩

theorem entries_allocateGroup (d : Database) : d.allocateGroup.2.entries = d.entries := by
  obtain ⟨sequence, heq⟩ := d.exists_allocateGroup
  rw [heq]

theorem mem_rows_performRows (ht : d.entries = some t) (c : StoreCall) :
    ∃ t', (d.performRows t c).2.entries = some t' ∧
      ∀ e ∈ t'.rows, e.toGrant ∈ c.grants ∨ e ∈ t.rows := by
  have hkeep : ∃ t', d.entries = some t' ∧ ∀ e ∈ t'.rows, e.toGrant ∈ c.grants ∨ e ∈ t.rows :=
    ⟨t, ht, fun e he => .inr he⟩
  cases c with
  | findAll | findGroup | findDuplicateGroups | findMixed => exact hkeep
  | insert grant =>
    rw [performRows]
    split
    · exact hkeep
    · next stored after hinsert =>
      obtain ⟨rfl, hentries, -⟩ := entries_of_insert hinsert
      refine ⟨_, hentries, fun e he => ?_⟩
      rcases Table.mem_put_imp he with rfl | hold
      · exact .inl List.mem_cons_self
      · exact .inr hold
  | update entry =>
    rw [performRows]
    split
    · refine ⟨_, rfl, fun e he => ?_⟩
      rcases Table.mem_replace_imp he with rfl | hold
      · exact .inl List.mem_cons_self
      · exact .inr hold
    · exact hkeep
  | deleteEntry id =>
    rw [performRows]
    split
    · exact ⟨_, rfl, fun e he => .inr (Table.mem_of_mem_filter he)⟩
    · exact hkeep
  | deleteGroup group => exact ⟨_, rfl, fun e he => .inr (Table.mem_of_mem_filter he)⟩
  | replaceGroup group grants =>
    rw [performRows]
    split
    · exact hkeep
    · next stored after hinsert =>
      obtain ⟨t', ht', hrows⟩ := mem_rows_insertAll rfl hinsert
      exact ⟨t', ht', fun e he => (hrows e he).imp_right Table.mem_of_mem_filter⟩
  | allocateGroup => exact ⟨t, (entries_allocateGroup d).trans ht, fun e he => .inr he⟩

theorem performStore_of_none (h : d.entries = none) (c : StoreCall) :
    (∃ e, (d.performStore c).1 = .error e) ∧ (d.performStore c).2.entries = none := by
  by_cases hc : c = .allocateGroup
  · subst hc
    refine ⟨?_, (entries_allocateGroup d).trans h⟩
    simp only [performStore, allocateGroup, entriesOrError, h]
    split <;> exact ⟨_, rfl⟩
  · have heq : d.performStore c =
        (refuse c (DatabaseError.noTable entriesName).toStoreError, d) := by
      simp only [performStore, entriesOrError, h]
    rw [heq]
    exact ⟨⟨_, rfl⟩, h⟩

/-- A table that is not the one of the rows can be changed without them. -/
theorem entries_of_table? {name : String} {t : StoredTable} (h : d.table? name = some t)
    (hname : Text.lower name ≠ entriesName) :
    (∀ rows, (t.withRows rows).entries = d.entries) ∧ ∀ row, (t.add row).entries = d.entries := by
  rw [table?] at h
  split at h
  · next heq => exact absurd heq hname
  · split at h <;> cases h
    exact ⟨fun _ => rfl, fun _ => rfl⟩
  · cases h
    exact ⟨fun _ => rfl, fun _ => rfl⟩
  · obtain ⟨record, -, rfl⟩ := Option.map_eq_some_iff.1 h
    exact ⟨fun _ => rfl, fun _ => rfl⟩
  · cases h
    exact ⟨fun _ => rfl, fun _ => rfl⟩
  · cases h
    exact ⟨fun _ => rfl, fun _ => rfl⟩
  · cases h
    exact ⟨fun _ => rfl, fun _ => rfl⟩
  · cases h
    exact ⟨fun _ => rfl, fun _ => rfl⟩
  · obtain ⟨host, -, rfl⟩ := Option.map_eq_some_iff.1 h
    exact ⟨fun _ => rfl, fun _ => rfl⟩

theorem table?_of_tableFor {names : ResourceTable} {c : RegistryCall} {t : StoredTable}
    (h : d.tableFor names c = .ok t) : d.table? names.table = some t := by
  rw [tableFor] at h
  split at h
  · cases h
  · cases h
  · next ht =>
    split at h
    · cases h
      exact ht
    · split at h <;> cases h
      exact ht

theorem entries_performRegistry {tables : ResourceTables} (c : RegistryCall)
    (hname : Text.lower (tables.table (kindOf c)).table ≠ entriesName) :
    (d.performRegistry tables c).2.entries = d.entries := by
  simp only [performRegistry]
  split
  · rfl
  · next t ht =>
    have hkeep := (entries_of_table? (table?_of_tableFor ht) hname).1
    cases c with
    | listRefs | findRef => rfl
    | assign | delete =>
      rw [performIn]
      split
      · exact hkeep _
      · rfl

theorem entries_putResource {names : ResourceTable} (row : HostRow)
    (hname : Text.lower names.table ≠ entriesName) :
    (d.putResource names row).entries = d.entries := by
  rw [putResource]
  split
  · rfl
  · next t ht =>
    have hkeep := (entries_of_table? ht hname).2
    dsimp only
    repeat' split
    all_goals first | rfl | exact hkeep _

end Database

/-! ### In a store of either kind -/

namespace Backend

variable {b b' : Backend}

/-- No kind has its resources in the table of the rows. -/
def Apart : Backend → Prop
  | .memory _ _ => True
  | .database tables _ => ∀ kind, Text.lower (tables.table kind).table ≠ Database.entriesName

/-- Rows after a call were there before, or the call was given their grants. -/
theorem mem_entries_performStore {x : c.Answer} (h : b.performStore c = some (x, b')) :
    ∀ e ∈ b'.entries, e.toGrant ∈ c.grants ∨ e ∈ b.entries := by
  cases b with
  | memory s r =>
    obtain ⟨⟨y, s'⟩, hperform, heq⟩ := Option.map_eq_some_iff.1 h
    cases heq
    exact fun e he => MemoryStore.mem_rows_perform hperform he
  | database tables d =>
    cases h
    change ∀ e ∈ ((d.performStore c).2.entries.map fun t => t.rows).getD [], _
    cases ht : d.entries with
    | none =>
      rw [(Database.performStore_of_none ht c).2]
      exact fun e he => (List.not_mem_nil he).elim
    | some t =>
      obtain ⟨t', ht', hrows⟩ := Database.mem_rows_performRows ht c
      rw [← Database.performStore_eq ht] at ht'
      rw [ht']
      simpa [entries, ht] using hrows

/-- The rows that a call shows are there. -/
theorem mem_entries_of_shown {v : c.Value} (h : b.performStore c = some (.ok v, b')) :
    ∀ e ∈ c.shown v, e ∈ b.entries ∧ (c = .findMixed → e.isMixed = true) := by
  cases b with
  | memory s r =>
    obtain ⟨⟨y, s'⟩, hperform, heq⟩ := Option.map_eq_some_iff.1 h
    cases heq
    cases c with
    | findAll =>
      cases hperform
      exact fun e he => ⟨he, nofun⟩
    | findGroup | findMixed =>
      cases hperform
      intro e he
      obtain ⟨hmem, hcondition⟩ := List.mem_filter.1 he
      exact ⟨hmem, fun heq => by first | exact hcondition | cases heq⟩
    | _ => exact fun e he => (List.not_mem_nil he).elim
  | database tables d =>
    cases ht : d.entries with
    | none =>
      obtain ⟨⟨e, he⟩, -⟩ := Database.performStore_of_none ht c
      rw [performStore] at h
      simp only [he, Option.some.injEq, Prod.mk.injEq] at h
      cases h.1
    | some t =>
      have hrows : (Backend.database tables d).entries = t.rows := by simp [entries, ht]
      rw [hrows]
      rw [performStore, Database.performStore_eq ht] at h
      cases c with
      | findAll =>
        cases h
        exact fun e he => ⟨he, nofun⟩
      | findGroup | findMixed =>
        cases h
        intro e he
        obtain ⟨hmem, hcondition⟩ := List.mem_filter.1 he
        exact ⟨hmem, fun heq => by first | exact hcondition | cases heq⟩
      | _ => exact fun e he => (List.not_mem_nil he).elim

theorem Apart.performStore {x : c.Answer} (hb : b.Apart) (h : b.performStore c = some (x, b')) :
    b'.Apart := by
  cases b with
  | memory s r =>
    obtain ⟨⟨y, s'⟩, -, heq⟩ := Option.map_eq_some_iff.1 h
    cases heq
    trivial
  | database tables d =>
    cases h
    exact hb

/-- Calls about resources leave the rows alone. -/
theorem entries_performRegistry (hb : b.Apart) (c : RegistryCall) :
    (b.performRegistry c).2.entries = b.entries ∧ (b.performRegistry c).2.Apart := by
  cases b with
  | memory s r => exact ⟨rfl, trivial⟩
  | database tables d =>
    refine ⟨?_, hb⟩
    change ((d.performRegistry tables c).2.entries.map fun t => t.rows).getD [] = _
    rw [Database.entries_performRegistry c (hb _)]
    rfl

/-- Other writers that add resources leave the rows alone. -/
theorem entries_put (hb : b.Apart) {kind : ResourceKind} {row : HostRow}
    (h : Scenario.writeBehind (.put kind row) b = some b') :
    b'.entries = b.entries ∧ b'.Apart := by
  cases b with
  | memory s r =>
    cases h
    exact ⟨rfl, trivial⟩
  | database tables d =>
    cases h
    refine ⟨?_, hb⟩
    change ((d.putResource (tables.table kind) row).entries.map fun t => t.rows).getD [] = _
    rw [Database.entries_putResource row (hb kind)]
    rfl

end Backend

end AccessGroups
