import AccessGroups.Proofs.Store.Backend
import AccessGroups.Proofs.Store.Provenance

/-!
# How new rows are numbered

A counter for the identifiers of new rows can wrap around, and then a new row takes the place of an
old one. What calls do to the rows is said here for stores in any state. As long as the counter is
above the rows, new rows stay clear of them; and when rows are gone through in the order of their
identifiers, with one new row for each at most, new rows stay clear of those that are left even if
the counter wraps around on the way.

## Main definitions

* `StoreCall.Alters`: what a successful call does to the rows.
* `Backend.Counted`: the counter is above the rows.
* `Backend.Avoids`: new rows stay clear of some identifiers.

## Main results

* `Backend.alters_performStore`, `Backend.entries_of_error`: the rows after a call.
* `Backend.Avoids.insert`, `Backend.Avoids.performStore`: the identifiers that new rows stay clear
  of after a call.
* `Backend.alike_of_error`, `Backend.alike_of_look`, `Backend.Avoids.alike_performRegistry`: calls
  that leave the rows and their numbering alone.
-/

namespace AccessGroups

/-! ### The rows after a call -/

/-- The rows that a successful call returns and leaves. -/
def StoreCall.Alters (rows : List Entry) : (c : StoreCall) → c.Value → List Entry → Prop
  | .findAll, v, t => v = rows ∧ t = rows
  | .findMixed, v, t => v = rows.filter (fun e => e.isMixed) ∧ t = rows
  | .insert grant, v, t =>
    v.toGrant = grant ∧ ∀ e, e ∈ t ↔ e = v ∨ (e ∈ rows ∧ e.id ≠ v.id)
  | .update e, _, t => (∃ a ∈ rows, a.id = e.id) ∧ t = Ledger.updated rows e
  | .deleteEntry id, _, t => (∃ a ∈ rows, a.id = id) ∧ t = rows.filter fun e => e.id ≠ id
  | .deleteGroup g, _, t => t = rows.filter fun e => e.group ≠ g
  | .replaceGroup _ grants, _, t => ∀ e ∈ t, e.toGrant ∈ grants ∨ e ∈ rows
  | _, _, t => t = rows

namespace Table

variable {ρ : Type} {family : IdFamily} {key : ρ → Identifier family} {row r : ρ}

/-- A row that is put among ascending ones takes the place of the one with its key. -/
theorem mem_putRow {rows : List ρ} (h : rows.Pairwise fun a b => key a < key b) :
    r ∈ putRow key row rows ↔ r = row ∨ (r ∈ rows ∧ key r ≠ key row) := by
  induction rows with
  | nil => simp [putRow]
  | cons a rest ih =>
    obtain ⟨ha, hrest⟩ := List.pairwise_cons.1 h
    have habove {b c : ρ} (hlt : key b < key c) : key c ≠ key b := fun heq =>
      Identifier.lt_irrefl _ (heq ▸ hlt)
    rw [putRow]
    split
    · next hlt =>
      have hne : ∀ b ∈ a :: rest, key b ≠ key row := List.forall_mem_cons.2
        ⟨habove hlt, fun b hb => habove (Identifier.lt_trans hlt (ha b hb))⟩
      rw [List.mem_cons]
      exact or_congr_right ⟨fun hr => ⟨hr, hne r hr⟩, And.left⟩
    · split
      · next heq =>
        rw [List.mem_cons]
        refine or_congr_right ⟨fun hr => ?_, ?_⟩
        · exact ⟨List.mem_cons_of_mem _ hr, heq ▸ habove (ha r hr)⟩
        · rintro ⟨hr, hne⟩
          refine (List.mem_cons.1 hr).resolve_left ?_
          rintro rfl
          exact hne heq.symm
      · next hne =>
        rw [List.mem_cons, List.mem_cons, ih hrest]
        constructor
        · rintro (rfl | rfl | ⟨hr, hkey⟩)
          · exact .inr ⟨.inl rfl, Ne.symm hne⟩
          · exact .inl rfl
          · exact .inr ⟨.inr hr, hkey⟩
        · rintro (rfl | ⟨rfl | hr, hkey⟩)
          · exact .inr (.inl rfl)
          · exact .inl rfl
          · exact .inr (.inr ⟨hr, hkey⟩)

theorem mem_put {t : Table key} :
    r ∈ (t.put row).rows ↔ r = row ∨ (r ∈ t.rows ∧ key r ≠ key row) :=
  mem_putRow t.ascending

end Table

variable {c : StoreCall} {x : c.Answer} {v : c.Value}

namespace MemoryStore

variable {s s' : MemoryStore}

theorem alters_perform (h : s.perform c = some (.ok v, s')) :
    c.Alters s.entries.rows v s'.entries.rows := by
  cases c with
  | findAll | findMixed =>
    cases h
    exact ⟨rfl, rfl⟩
  | findGroup | findDuplicateGroups =>
    cases h
    exact rfl
  | insert grant =>
    cases h
    exact ⟨rfl, fun e => Table.mem_put⟩
  | update entry =>
    rw [perform] at h
    split at h <;> cases h
    next hthere => exact ⟨Table.contains_iff.1 hthere, rfl⟩
  | deleteEntry id =>
    rw [perform] at h
    split at h <;> cases h
    next hthere => exact ⟨Table.contains_iff.1 hthere, rfl⟩
  | deleteGroup g =>
    cases h
    exact rfl
  | replaceGroup g grants => exact fun e he => mem_rows_perform h he
  | allocateGroup =>
    obtain ⟨⟨g, s'⟩, hallocate, heq⟩ := Option.map_eq_some_iff.1 h
    cases heq
    rw [allocateGroup?] at hallocate
    split at hallocate <;> cases hallocate
    exact rfl

end MemoryStore

namespace Database

variable {d d' : Database} {t : Table Entry.id}

theorem alters_performRows (ht : d.entries = some t) (h : d.performRows t c = (.ok v, d')) :
    ∃ t', d'.entries = some t' ∧ c.Alters t.rows v t'.rows := by
  have hprovenance := mem_rows_performRows ht c
  rw [h] at hprovenance
  cases c with
  | findAll | findMixed =>
    cases h
    exact ⟨t, ht, rfl, rfl⟩
  | findGroup | findDuplicateGroups =>
    cases h
    exact ⟨t, ht, rfl⟩
  | insert grant =>
    rw [performRows] at h
    split at h <;> cases h
    next hinsert =>
      obtain ⟨hgrant, hentries, -⟩ := entries_of_insert hinsert
      exact ⟨_, hentries, hgrant, fun e => Table.mem_put⟩
  | update entry =>
    rw [performRows] at h
    split at h <;> cases h
    next hthere => exact ⟨_, rfl, Table.contains_iff.1 hthere, rfl⟩
  | deleteEntry id =>
    rw [performRows] at h
    split at h <;> cases h
    next hthere => exact ⟨_, rfl, Table.contains_iff.1 hthere, rfl⟩
  | deleteGroup g =>
    cases h
    exact ⟨_, rfl, rfl⟩
  | replaceGroup g grants => exact hprovenance
  | allocateGroup =>
    refine ⟨t, ?_, rfl⟩
    rw [← ht, ← entries_allocateGroup d]
    exact congrArg (fun r => r.2.entries) h.symm

theorem entries_performRows_of_error {e : StoreError}
    (h : d.performRows t c = (.error e, d')) : d'.entries = d.entries := by
  cases c with
  | findAll | findGroup | findDuplicateGroups | findMixed | deleteGroup => cases h
  | insert | update | deleteEntry | replaceGroup =>
    rw [performRows] at h
    split at h <;> cases h
    rfl
  | allocateGroup =>
    rw [← entries_allocateGroup d]
    exact congrArg (fun r => r.2.entries) h.symm

end Database

namespace Backend

variable {b b' : Backend}

theorem ascending_entries (b : Backend) : b.entries.Pairwise fun x y => x.id < y.id := by
  cases b with
  | memory s r => exact s.entries.ascending
  | database tables d =>
    rw [entries]
    cases d.entries with
    | none => exact .nil
    | some t => exact t.ascending

/-- Whatever the state of a store, this is what a successful call returns and leaves. -/
theorem alters_performStore (h : b.performStore c = some (.ok v, b')) :
    c.Alters b.entries v b'.entries := by
  cases b with
  | memory s r =>
    obtain ⟨⟨y, s'⟩, hperform, heq⟩ := Option.map_eq_some_iff.1 h
    cases heq
    exact MemoryStore.alters_perform hperform
  | database tables d =>
    cases ht : d.entries with
    | none =>
      obtain ⟨⟨e, he⟩, -⟩ := Database.performStore_of_none ht c
      rw [performStore] at h
      simp only [he, Option.some.injEq, Prod.mk.injEq] at h
      cases h.1
    | some t =>
      rw [performStore, Database.performStore_eq ht] at h
      cases hperform : d.performRows t c with
      | mk y d' =>
        simp only [hperform, Option.some.injEq, Prod.mk.injEq] at h
        obtain ⟨rfl, rfl⟩ := h
        obtain ⟨t', ht', halters⟩ := Database.alters_performRows ht hperform
        simpa [entries, ht, ht'] using halters

/-- A call that fails leaves the rows alone. -/
theorem entries_of_error {e : StoreError} (h : b.performStore c = some (.error e, b')) :
    b'.entries = b.entries := by
  cases b with
  | memory s r =>
    obtain ⟨⟨y, s'⟩, hperform, heq⟩ := Option.map_eq_some_iff.1 h
    cases heq
    cases c with
    | update | deleteEntry =>
      rw [MemoryStore.perform] at hperform
      split at hperform <;> cases hperform
      rfl
    | allocateGroup =>
      obtain ⟨_, -, heq⟩ := Option.map_eq_some_iff.1 hperform
      cases heq
    | _ => cases hperform
  | database tables d =>
    cases ht : d.entries with
    | none =>
      obtain rfl : Backend.database tables (d.performStore c).2 = b' :=
        congrArg Prod.snd (Option.some.inj h)
      rw [entries, entries, (Database.performStore_of_none ht c).2, ht]
    | some t =>
      rw [performStore, Database.performStore_eq ht] at h
      cases hperform : d.performRows t c with
      | mk y d' =>
        simp only [hperform, Option.some.injEq, Prod.mk.injEq] at h
        obtain ⟨rfl, rfl⟩ := h
        rw [entries, entries, Database.entries_performRows_of_error hperform]

end Backend

/-! ### The identifiers of new rows -/

/-- The call gives identifiers to new rows. -/
def StoreCall.numbers : StoreCall → Bool
  | .insert _ | .replaceGroup _ _ => true
  | _ => false

namespace Database

variable {d d' : Database} {t : Table Entry.id}

theorem lastEntry_allocateGroup (d : Database) : d.allocateGroup.2.lastEntry = d.lastEntry := by
  obtain ⟨sequence, heq⟩ := d.exists_allocateGroup
  rw [heq]
  rfl

/-- Only new rows advance the counter. -/
theorem lastEntry_performStore
    (h : c.numbers = false ∨ ∃ e, (d.performStore c).1 = .error e) :
    (d.performStore c).2.lastEntry = d.lastEntry := by
  by_cases hc : c = .allocateGroup
  · subst hc
    exact lastEntry_allocateGroup d
  cases ht : d.entries with
  | none =>
    simp only [performStore, entriesOrError, ht]
  | some t =>
    rw [performStore_eq ht] at h ⊢
    cases c with
    | findAll | findGroup | findDuplicateGroups | findMixed | deleteGroup => rfl
    | insert | replaceGroup =>
      rw [performRows] at h ⊢
      split
      · rfl
      · next heq =>
        rw [heq] at h
        obtain hnone | ⟨e, he⟩ := h
        · cases hnone
        · cases he
    | update | deleteEntry =>
      rw [performRows]
      split <;> rfl
    | allocateGroup => exact (hc rfl).elim

/-- The identifier for a new row is above the counter. -/
theorem lastEntry_lt_of_next {id : EntryId} (h : d.nextEntry? t = some id) :
    d.lastEntry.getD 0 < id.val := by
  unfold nextEntry? at h
  dsimp only at h
  generalize ((t.rows.getLast?.map fun e : Entry => e.id.val).getD 0) = last at h
  split at h <;> cases h
  next hroom =>
    have hmax := Int64.toInt_max (d.lastEntry.getD 0) last
    have hle := Int64.le_iff_toInt_le.1 (Int64.le_maxValue (max (d.lastEntry.getD 0) last))
    have hne : (max (d.lastEntry.getD 0) last).toInt ≠ Int64.maxValue.toInt :=
      mt Int64.toInt_inj.1 hroom
    have hnext := Int64.toInt_add_one (Int.lt_iff_le_and_ne.2 ⟨hle, hne⟩)
    rw [Int64.lt_iff_toInt_lt, hnext]
    omega

/-- A new row is above the counter, which follows it. -/
theorem lastEntry_insert {grant : Grant} {stored : Entry}
    (h : (d.performStore (.insert grant)).1 = .ok stored) :
    d.lastEntry.getD 0 < stored.id.val ∧
      (d.performStore (.insert grant)).2.lastEntry = some stored.id.val := by
  cases ht : d.entries with
  | none =>
    obtain ⟨⟨e, he⟩, -⟩ := performStore_of_none ht (.insert grant)
    cases he.symm.trans h
  | some t =>
    rw [performStore_eq ht, performRows] at h ⊢
    split at h
    · cases h
    · next hinsert =>
      cases h
      rw [insert] at hinsert
      split at hinsert <;> cases hinsert
      next hid => exact ⟨lastEntry_lt_of_next hid, RowCounter.largest?_record ..⟩

/-- A call about resources in a table of others changes tables of others only. -/
theorem performRegistry_foreign {tables : ResourceTables} (c : RegistryCall)
    (h : Text.lower (tables.table (kindOf c)).table ∉ ownNames) :
    ∃ hosts, (d.performRegistry tables c).2 = { d with hosts } := by
  simp only [performRegistry]
  split
  · exact ⟨d.hosts, rfl⟩
  · next t ht =>
    have htable := table?_of_tableFor ht
    rw [table?_of_foreign h] at htable
    obtain ⟨host, -, rfl⟩ := Option.map_eq_some_iff.1 htable
    cases c with
    | listRefs | findRef => exact ⟨d.hosts, rfl⟩
    | assign | delete =>
      rw [performIn]
      split
      · exact ⟨_, rfl⟩
      · exact ⟨d.hosts, rfl⟩

end Database

namespace Backend

variable {b b' : Backend} {ids : List EntryId}

/-- The rows are below the counter for the identifiers of new ones, and no kind has its resources in
a table of the store. -/
def Counted : Backend → Prop
  | .memory s _ => ∀ e ∈ s.entries.rows, e.id.val < s.nextEntry
  | .database tables d =>
    (∀ t, d.entries = some t → ∀ e ∈ t.rows, e.id.val ≤ d.lastEntry.getD 0) ∧
      ∀ k, Text.lower (tables.table k).table ∉ Database.ownNames

/-- New rows will stay clear of these identifiers: in memory the counter is above all of them, or it
has wrapped around and is below all of them. No kind has its resources in a table of the store. -/
def Avoids (b : Backend) (ids : List EntryId) : Prop :=
  match b with
  | .memory s _ => (∀ i ∈ ids, i.val < s.nextEntry) ∨ ∀ i ∈ ids, s.nextEntry < i.val
  | .database tables d =>
    (∀ i ∈ ids, i.val ≤ d.lastEntry.getD 0) ∧
      ∀ k, Text.lower (tables.table k).table ∉ Database.ownNames

theorem Sound.counted (h : b.Sound) : b.Counted := by
  cases b with
  | memory s r => exact h.1
  | database tables d =>
    obtain ⟨⟨t, ht⟩, -, hhosts⟩ := h
    refine ⟨fun t' ht' e he => ?_, fun k => ?_⟩
    · obtain rfl : t = t' := Option.some.inj (ht.entries.symm.trans ht')
      exact Int64.le_iff_toInt_le.2 (ht.counted e he)
    · rcases hhosts k with hlacks | ⟨host, hn⟩
      · exact hlacks.foreign
      · exact hn.foreign

/-- New rows stay clear of the rows that are below the counter. -/
theorem Counted.avoids (h : b.Counted) : b.Avoids (b.entries.map fun e => e.id) := by
  cases b with
  | memory s r => exact .inl (List.forall_mem_map.2 h)
  | database tables d =>
    refine ⟨List.forall_mem_map.2 fun e he => ?_, h.2⟩
    cases ht : d.entries with
    | none => simp [entries, ht] at he
    | some t => exact h.1 t ht e (by simpa [entries, ht] using he)

theorem Avoids.mono {ids' : List EntryId} (h : b.Avoids ids) (hsub : ∀ i ∈ ids', i ∈ ids) :
    b.Avoids ids' := by
  cases b with
  | memory s r => exact h.imp (fun h i hi => h i (hsub i hi)) fun h i hi => h i (hsub i hi)
  | database tables d => exact ⟨fun i hi => h.1 i (hsub i hi), h.2⟩

/-- A call that fails or brings no new rows changes nothing about the identifiers that are avoided.
If none has to be, no call does. -/
theorem Avoids.performStore (h : b.Avoids ids)
    (hc : ids = [] ∨ c.numbers = false ∨ ∃ e, x = .error e)
    (hcall : b.performStore c = some (x, b')) : b'.Avoids ids := by
  cases b with
  | memory s r =>
    obtain ⟨⟨y, s'⟩, hperform, heq⟩ := Option.map_eq_some_iff.1 hcall
    cases heq
    rcases hc with rfl | hc
    · exact .inl nofun
    have hnext : s'.nextEntry = s.nextEntry := by
      cases c with
      | findAll | findGroup | findDuplicateGroups | findMixed | deleteGroup =>
        cases hperform
        rfl
      | insert | replaceGroup =>
        cases hperform
        obtain hnone | ⟨e, he⟩ := hc
        · cases hnone
        · cases he
      | update | deleteEntry =>
        rw [MemoryStore.perform] at hperform
        split at hperform <;> cases hperform <;> rfl
      | allocateGroup =>
        obtain ⟨⟨g, s'⟩, hallocate, heq⟩ := Option.map_eq_some_iff.1 hperform
        cases heq
        rw [MemoryStore.allocateGroup?] at hallocate
        split at hallocate <;> cases hallocate
        rfl
    rw [Avoids, hnext]
    exact h
  | database tables d =>
    obtain rfl : (d.performStore c).1 = x := congrArg Prod.fst (Option.some.inj hcall)
    obtain rfl : Backend.database tables (d.performStore c).2 = b' :=
      congrArg Prod.snd (Option.some.inj hcall)
    refine ⟨?_, h.2⟩
    rcases hc with rfl | hc
    · exact nofun
    · rw [Database.lastEntry_performStore hc]
      exact h.1

/-- The rows are the same in both stores, and new ones stay clear of the same identifiers. -/
structure Alike (b b' : Backend) : Prop where
  entries : b'.entries = b.entries
  avoids : ∀ {ids}, b.Avoids ids → b'.Avoids ids

theorem Alike.refl (b : Backend) : b.Alike b :=
  ⟨rfl, id⟩

theorem alike_of_error {e : StoreError} (hcall : b.performStore c = some (.error e, b')) :
    b.Alike b' :=
  ⟨entries_of_error hcall, fun h => h.performStore (.inr (.inr ⟨e, rfl⟩)) hcall⟩

/-- Reading changes neither, and neither does handing out a group identifier. -/
theorem alike_of_look (hc : c.isWrite = false ∨ c = .allocateGroup)
    (hcall : b.performStore c = some (.ok v, b')) : b.Alike b' := by
  have halters := alters_performStore hcall
  have hnumbers : c.numbers = false := by
    rcases hc with hc | rfl
    · cases c <;> first | rfl | cases hc
    · rfl
  refine ⟨?_, fun h => h.performStore (.inr (.inl hnumbers)) hcall⟩
  cases c with
  | findAll | findMixed => exact halters.2
  | findGroup | findDuplicateGroups | allocateGroup => exact halters
  | _ => rcases hc with hc | hc <;> cases hc

/-- A new row stays clear of the identifiers, and those after it will stay clear of those that are
above the first one. -/
theorem Avoids.insert {grant : Grant} {stored : Entry} {i : EntryId} (h : b.Avoids (i :: ids))
    (habove : ∀ j ∈ ids, i < j)
    (hcall : b.performStore (.insert grant) = some (.ok stored, b')) :
    (∀ j ∈ i :: ids, stored.id ≠ j) ∧ b'.Avoids ids := by
  cases b with
  | memory s r =>
    cases hcall
    change (∀ j ∈ i :: ids, (⟨s.nextEntry⟩ : EntryId) ≠ j) ∧
      ((∀ j ∈ ids, j.val < s.nextEntry + 1) ∨ ∀ j ∈ ids, s.nextEntry + 1 < j.val)
    simp only [Avoids, Int64.lt_iff_toInt_lt] at h ⊢
    have habove (j) (hj : j ∈ ids) := Identifier.lt_iff_toInt.1 (habove j hj)
    refine ⟨fun j hj heq => ?_, ?_⟩
    · have hself : s.nextEntry.toInt = j.val.toInt :=
        congrArg (fun k : EntryId => k.val.toInt) heq
      rcases h with h | h
      · exact Int.ne_of_lt (h j hj) hself.symm
      · exact Int.ne_of_gt (h j hj) hself.symm
    by_cases hroom : s.nextEntry.toInt < Int64.maxValue.toInt
    · have hnext := Int64.toInt_add_one hroom
      refine h.imp (fun h j hj => ?_) fun h j hj => ?_
      · have := h j (List.mem_cons_of_mem _ hj)
        omega
      · have := h i List.mem_cons_self
        have := habove j hj
        omega
    · -- the counter wraps around, and what is left is above the first identifier
      have hwrap : s.nextEntry = Int64.maxValue := by
        have hle := Int64.le_iff_toInt_le.1 (Int64.le_maxValue s.nextEntry)
        exact Int64.toInt_inj.1 (by omega)
      refine .inr fun j hj => ?_
      have hleast := i.val.le_toInt
      have := habove j hj
      have hmin : (s.nextEntry + 1).toInt = -2 ^ 63 := by rw [hwrap]; rfl
      omega
  | database tables d =>
    have hpair := Option.some.inj hcall
    obtain rfl : Backend.database tables (d.performStore (.insert grant)).2 = b' :=
      congrArg Prod.snd hpair
    obtain ⟨hlt, hlast⟩ := Database.lastEntry_insert (congrArg Prod.fst hpair)
    rw [Int64.lt_iff_toInt_lt] at hlt
    have hbelow (j) (hj : j ∈ i :: ids) : j.val.toInt < stored.id.val.toInt := by
      have := Int64.le_iff_toInt_le.1 (h.1 j hj)
      omega
    refine ⟨fun j hj heq => ?_, fun j hj => ?_, h.2⟩
    · subst heq
      exact Int.lt_irrefl _ (hbelow _ hj)
    · rw [hlast, Option.getD_some, Int64.le_iff_toInt_le]
      exact Int.le_of_lt (hbelow j (List.mem_cons_of_mem _ hj))

/-- Calls about resources leave the rows and their numbering alone. -/
theorem Avoids.alike_performRegistry (h : b.Avoids ids) (c : RegistryCall) :
    b.Alike (b.performRegistry c).2 := by
  cases b with
  | memory s r => exact ⟨rfl, id⟩
  | database tables d =>
    obtain ⟨hosts, hperform⟩ := Database.performRegistry_foreign (d := d) c (h.2 _)
    have heq : ((Backend.database tables d).performRegistry c).2 =
        .database tables { d with hosts } :=
      congrArg (Backend.database tables) hperform
    rw [heq]
    exact ⟨rfl, id⟩

end Backend

end AccessGroups
