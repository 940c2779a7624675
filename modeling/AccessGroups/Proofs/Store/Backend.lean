import AccessGroups.Proofs.Store.Hosts

/-!
# Stores of either kind keep a ledger

A store in memory keeps a ledger from the start. A database does so when the tables of the store
hold what the store writes and the resources live in tables of others, which kinds may share and
which may be absent. As long as no counter of identifiers is exhausted, every call to such a store
answers and changes what it does in the ledger, or fails without an effect.

## Main definitions

* `Backend.Sound`: the store keeps a ledger.
* `Backend.Separate`: every kind of resource has a table of its own.
* `Backend.refs`: the references of a kind.
* `Backend.Shows`: the store keeps this ledger.

## Main results

* `Backend.Sound.insertRaw`, `Backend.sound_standard`, `Backend.separate_standard`: stores that are
  sound, and separate.
* `Backend.Sound.exists_shows`: a sound store keeps a ledger.
* `Backend.performStore_shows`, `Backend.performRegistry_shows`: the calls.
-/

namespace AccessGroups

/-- Kinds with the same name are the same. -/
theorem ResourceKind.eq_of_name_eq (k k' : ResourceKind) (h : k.name = k'.name) : k = k' := by
  have hall : ∀ k ∈ all, ∀ k' ∈ all, k.name = k'.name → k = k' := by decide +kernel
  exact hall k k.mem_all k' k'.mem_all h

namespace Backend

variable {b : Backend} {l : Ledger}

/-- The references of the resources of a kind; an empty one reads as zero. -/
def refs (b : Backend) (kind : ResourceKind) : List GroupRef :=
  (b.resourcesOf kind).map HostRow.shown

/-- In memory the counters are ahead of the rows. In a database the tables of the store are those
that it made, and the resources are in tables of others. -/
def Sound : Backend → Prop
  | .memory s _ => (∀ e ∈ s.entries.rows, e.id.val < s.nextEntry) ∧ 0 < s.nextGroup
  | .database tables d =>
    (∃ t, d.Tidy t) ∧ (∃ next, d.sequence = .at next ∧ 0 < next) ∧ ∀ k, d.Hosts (tables.table k)

/-- Every kind of resource has a table of its own, as it always has in memory. -/
def Separate : Backend → Prop
  | .memory _ _ => True
  | .database tables _ =>
    ∀ k k', Text.lower (tables.table k).table = Text.lower (tables.table k').table → k = k'

/-- A store in memory stays sound when another writer puts a row into it. -/
theorem Sound.insertRaw {s s' : MemoryStore} {r : MemoryRegistry} {e : Entry}
    (h : (Backend.memory s r).Sound) (hput : s.insertRaw? e = some s') :
    (Backend.memory s' r).Sound := by
  obtain ⟨hcounted, hpos⟩ := h
  rw [MemoryStore.insertRaw?] at hput
  split at hput
  · cases hput
  next hroom =>
    cases hput
    refine ⟨fun a ha => ?_, hpos⟩
    have hne : e.id.val.toInt ≠ Int64.maxValue.toInt := fun heq => hroom (Int64.toInt_inj.1 heq)
    have hle := Int64.le_iff_toInt_le.1 (Int64.le_maxValue e.id.val)
    have hnext : (e.id.val + 1).toInt = e.id.val.toInt + 1 :=
      Int64.toInt_add_one (by omega)
    rw [Int64.lt_iff_toInt_lt, Int64.toInt_max, hnext]
    rcases Table.mem_putRow_imp ha with rfl | ha
    · omega
    · have := Int64.lt_iff_toInt_lt.1 (hcounted a ha)
      omega

/-- A database is sound if those of the usual tables for the resources that it has are as usual. -/
theorem sound_standard {d : Database} {t : Table Entry.id} {next : Int64} (ht : d.Tidy t)
    (hnext : d.sequence = .at next) (hpos : 0 < next)
    (hhosts : ∀ k h, d.host? (ResourceTables.standardName k) = some h →
      h.names = ResourceTables.standard.table k) : (Backend.database .standard d).Sound :=
  ⟨⟨t, ht⟩, ⟨next, hnext, hpos⟩, fun k => Database.hosts_standard k (hhosts k)⟩

theorem separate_standard (d : Database) : (Backend.database .standard d).Separate := by
  have hseparate : ∀ k ∈ ResourceKind.all, ∀ k' ∈ ResourceKind.all,
      Text.lower (ResourceTables.standardName k) = Text.lower (ResourceTables.standardName k') →
        k = k' := by
    decide +kernel
  exact fun k k' => hseparate k k.mem_all k' k'.mem_all

/-- The store keeps this ledger. -/
def Shows : Backend → Ledger → Prop
  | .memory s r, l => s.Shows r l
  | .database tables d, l => d.ShowsRows l ∧ d.ShowsRefs tables l

/-- A sound store keeps a ledger, from which nothing has been handed out. -/
theorem Sound.exists_shows (h : b.Sound) : ∃ l, b.Shows l ∧ l.issued = [] := by
  cases b with
  | memory s r =>
    obtain ⟨hcounted, hpos⟩ := h
    rw [Int64.lt_iff_toInt_lt] at hpos
    exact ⟨⟨s.entries.rows, s.entries.ascending, fun k => (r.refs k).rows,
      fun k => (r.refs k).ascending, ResourceKind.name,
      fun k k' heq => by rw [ResourceKind.eq_of_name_eq k k' heq], s.nextGroup.toInt, hpos, []⟩,
      ⟨rfl, fun _ => rfl, hcounted, rfl, ResourceKind.eq_of_name_eq⟩, rfl⟩
  | database tables d =>
    obtain ⟨⟨t, ht⟩, ⟨next, hnext, hpos⟩, hhosts⟩ := h
    rw [Int64.lt_iff_toInt_lt] at hpos
    exact ⟨⟨t.rows, t.ascending, fun k => d.shownIn (tables.table k).table,
      fun k => d.pairwise_shownIn _, fun k => Text.lower (tables.table k).table,
      fun k k' => Database.shownIn_congr, next.toInt, hpos, []⟩,
      ⟨⟨⟨t, ht, rfl⟩, next, hnext, rfl⟩, fun _ => rfl, hhosts, fun _ => rfl⟩, rfl⟩

theorem Shows.sound (h : b.Shows l) : b.Sound := by
  have hpos := l.positive
  cases b with
  | memory s r =>
    refine ⟨h.counted, ?_⟩
    rw [Int64.lt_iff_toInt_lt, h.nextGroup]
    exact hpos
  | database tables d =>
    obtain ⟨⟨⟨t, ht, -⟩, next, hnext, heq⟩, hrefs⟩ := h
    refine ⟨⟨t, ht⟩, ⟨next, hnext, ?_⟩, hrefs.hosts⟩
    rw [Int64.lt_iff_toInt_lt, heq]
    exact hpos

/-- If every kind has a table of its own, it has one in the ledger. -/
theorem Shows.separate (h : b.Shows l) (hseparate : b.Separate) : l.Separate := by
  cases b with
  | memory s r => exact MemoryStore.Shows.separate h
  | database tables d =>
    intro k k' heq
    rw [h.2.table, h.2.table] at heq
    exact hseparate k k' heq

theorem Shows.entries_eq (h : b.Shows l) : b.entries = l.rows := by
  cases b with
  | memory s r => exact h.rows
  | database tables d =>
    obtain ⟨⟨⟨t, ht, hrows⟩, -⟩, -⟩ := h
    rw [entries, ht.entries, ← hrows]
    rfl

theorem Shows.refs_eq (h : b.Shows l) (kind : ResourceKind) : b.refs kind = l.refs kind := by
  cases b with
  | memory s r =>
    rw [← h.refs kind, refs, resourcesOf, List.map_map]
    exact List.map_id _
  | database tables d =>
    rw [h.2.refs, refs, resourcesOf, Database.resources_eq_shownIn (h.2.hosts kind)]

/-- Looking up the rows of a group does not fail. -/
theorem Shows.findGroup (h : b.Shows l) (g : GroupId) :
    b.performStore (.findGroup g) = some (.ok (l.rowsOf g), b) := by
  cases b with
  | memory s r => rw [Ledger.rowsOf, ← h.rows]; rfl
  | database tables d =>
    obtain ⟨⟨⟨t, ht, hrows⟩, -⟩, -⟩ := h
    rw [performStore, Database.performStore_eq ht.entries, Ledger.rowsOf, ← hrows]
    rfl

theorem Shows.consistent_iff (h : b.Shows l) :
    Consistent b.entries b.refs ↔ Consistent l.rows l.refs := by
  rw [h.entries_eq, funext h.refs_eq]

/-- A call to the store answers and changes what it does in the ledger, or fails without an
effect. -/
theorem performStore_shows (h : b.Shows l) (c : StoreCall)
    (hroom : b.idCounters.exhaustedBy (.store c) = false) :
    (∃ v b' t, b.performStore c = some (.ok v, b') ∧ l.Gives c v t ∧ b'.Shows t) ∨
      ∃ e, b.performStore c = some (.error e, b) := by
  cases b with
  | memory s r =>
    rcases s.perform_shows h c hroom with ⟨v, s', t, hperform, hgives, hshows⟩ | ⟨e, hperform⟩
    · refine .inl ⟨v, .memory s' r, t, ?_, hgives, hshows⟩
      rw [performStore, hperform]
      rfl
    · refine .inr ⟨e, ?_⟩
      rw [performStore, hperform]
      rfl
  | database tables d =>
    obtain ⟨hrows, hrefs⟩ := h
    rcases d.performStore_shows hrows c hroom with ⟨v, d', t, hperform, hgives, hshows, hhosts⟩ |
      ⟨e, hperform⟩
    · refine .inl ⟨v, .database tables d', t, ?_, hgives, hshows, ?_⟩
      · rw [performStore, hperform]
      · exact hrefs.of_hosts_eq hhosts hgives.frame.1 hgives.frame.2
    · refine .inr ⟨e, ?_⟩
      rw [performStore, hperform]

/-- A call to the resources answers and changes what it does in the ledger, or fails without an
effect. -/
theorem performRegistry_shows (h : b.Shows l) (c : RegistryCall) :
    (∃ v b' t, b.performRegistry c = (.ok v, b') ∧ l.GivesRegistry c v t ∧ b'.Shows t) ∨
      ∃ e, b.performRegistry c = (.error e, b) := by
  cases b with
  | memory s r =>
    rcases r.perform_shows h c with ⟨v, t, hperform, hgives, hshows⟩ | ⟨e, hperform⟩
    · exact .inl ⟨v, _, t, Prod.ext hperform rfl, hgives, hshows⟩
    · refine .inr ⟨e, ?_⟩
      rw [performRegistry, hperform]
  | database tables d =>
    obtain ⟨⟨⟨t₀, htidy, hrows⟩, next, hnext, heq⟩, hrefs⟩ := h
    rcases d.performRegistry_shows hrefs c with ⟨v, d', t, hperform, hgives, hshows, hosts, rfl⟩ |
      ⟨e, hperform⟩
    · refine .inl ⟨v, .database tables { d with hosts }, t, ?_, hgives,
        ⟨⟨t₀, ?_, ?_⟩, next, hnext, ?_⟩, hshows⟩
      · rw [performRegistry, hperform]
      · exact ⟨htidy.entries, htidy.marks, htidy.nonnegative, htidy.counted⟩
      · rw [hrows, hgives.frame.1]
      · rw [heq, hgives.frame.2.1]
    · refine .inr ⟨e, ?_⟩
      rw [performRegistry, hperform]

end Backend

end AccessGroups
