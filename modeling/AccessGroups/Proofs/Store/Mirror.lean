import AccessGroups.Proofs.Store.Backend
import AccessGroups.Scenario.Scene

/-!
# Stores of both kinds answer alike

A store in memory and a database that start empty answer the same requests in the same way, and hold
the same rows and resources after each of them. Here the resources of the database are in tables
without constraints, one for each kind, and no counter of identifiers comes to its largest value.

A database mirrors a store in memory when it holds the same rows and the same resources, the counter
of row identifiers stands one apart, since one names the last identifier and the other the next, and
the counter of group identifiers is the same. Every request keeps this.

## Main definitions

* `Request`, `Backend.serve`: what is asked of a store with its resources.
* `Observation`, `Backend.observe`: what can be seen of requests.
* `Backend.HasRoom`: no request takes a counter to its largest value.
* `Database.Vacant`: an empty database with a table for every kind.
* `MirrorsRows`, `MirrorsRefs`: a database mirrors a store in memory.

## Main results

* `MirrorsRows.perform`, `MirrorsRefs.perform`: calls are answered alike.
* `Mirrors.observe`: the requests are.
-/

namespace AccessGroups

/-- What is asked of a store with its resources: a call, or what another writer does. -/
inductive Request where
  | store (c : StoreCall)
  | registry (c : RegistryCall)
  /-- Another writer stores a row under its own identifier. -/
  | insertRaw (entry : Entry)
  /-- Another writer adds a resource or overwrites its reference. -/
  | put (kind : ResourceKind) (ref : GroupRef)
  deriving DecidableEq

/-- The answer to a request. -/
abbrev Request.Answer : Request → Type
  | .store c => c.Answer
  | .registry c => c.Answer
  | .insertRaw _ => Unit
  | .put _ _ => Unit

/-- What can be seen of a request: its answer, and the rows and resources afterwards. -/
structure Observation where
  request : Request
  answer : request.Answer
  rows : List Entry
  resources : List (ResourceKind × HostRow)

/-- A request takes a counter to the largest value of a word or beyond it. -/
def IdCounters.spentBy (n : IdCounters) : Request → Bool
  | .store c => n.exhaustedBy (.store c)
  | .insertRaw entry => Int64.maxValue.toInt ≤ entry.id.val.toInt + 1
  | _ => false

namespace Backend

/-- Serve a request; there may be no answer. -/
def serve (b : Backend) : (q : Request) → Option (q.Answer × Backend)
  | .store c => b.performStore c
  | .registry c => some (b.performRegistry c)
  | .insertRaw entry => (Scenario.writeBehind (.insertRaw entry) b).map fun after => ((), after)
  | .put kind ref =>
    (Scenario.writeBehind (.put kind ⟨ref.resource, some ref.group⟩) b).map fun after => ((), after)

/-- What can be seen of requests that are made one after another, if all of them are answered. -/
def observe : Backend → List Request → Option (List Observation)
  | _, [] => some []
  | b, q :: rest => do
    let (answer, after) ← b.serve q
    let others ← after.observe rest
    return ⟨q, answer, after.entries, after.resources⟩ :: others

/-- None of the requests takes a counter to the largest value of a word. -/
def HasRoom : Backend → List Request → Prop
  | _, [] => True
  | b, q :: rest => b.idCounters.spentBy q = false ∧
    match b.serve q with
    | some (_, after) => after.HasRoom rest
    | none => True

instance decidableHasRoom : (b : Backend) → (requests : List Request) →
    Decidable (b.HasRoom requests)
  | _, [] => isTrue trivial
  | b, q :: rest =>
    have : Decidable (match b.serve q with
        | some (_, after) => after.HasRoom rest
        | none => True) :=
      match b.serve q with
      | some (_, after) => decidableHasRoom after rest
      | none => isTrue trivial
    inferInstanceAs (Decidable (_ ∧ _))

end Backend

/-- A reference as a row of a table of others. -/
def GroupRef.toRow (r : GroupRef) : HostRow :=
  ⟨r.resource, some r.group⟩

/-- A table holds references to groups and has no constraint on them. -/
structure HostTable.Holds (h : HostTable) (refs : List GroupRef) : Prop where
  rows : h.rows.rows = refs.map GroupRef.toRow
  unique : h.unique = false
  positive : h.positive = false

/-- A database without rows and resources, in which every kind has a table of its own without
constraints. -/
structure Database.Vacant (d : Database) (tables : ResourceTables) : Prop where
  entries : d.entries = some .empty
  marks : d.marks = []
  lastEntry : d.lastEntry = none
  sequence : d.sequence = .at 1
  hosts : ∀ k, ∃ h, d.Houses (tables.table k) h ∧ h.Holds []
  separate : (Backend.database tables d).Separate

/-- A database holds the rows of a store in memory, and hands out the same identifiers. -/
structure MirrorsRows (s : MemoryStore) (d : Database) : Prop where
  tidy : d.Tidy s.entries
  next : s.nextEntry.toInt = (d.lastEntry.getD 0).toInt + 1
  sequence : d.sequence = .at s.nextGroup

/-- The tables of a database hold the resources of a registry in memory. -/
structure MirrorsRefs (r : MemoryRegistry) (tables : ResourceTables) (d : Database) : Prop where
  hosts : ∀ k, ∃ h, d.Houses (tables.table k) h ∧ h.Holds (r.refs k).rows
  separate : (Backend.database tables d).Separate

variable {s s' : MemoryStore} {r : MemoryRegistry} {tables : ResourceTables} {d d' : Database}

/-! ### Rows -/

namespace MirrorsRows

/-- The tables of others do not matter. -/
theorem withHosts (h : MirrorsRows s d) (hosts : List HostTable) :
    MirrorsRows s { d with hosts } :=
  ⟨⟨h.tidy.entries, h.tidy.marks, h.tidy.nonnegative, h.tidy.counted⟩, h.next, h.sequence⟩

theorem counted (h : MirrorsRows s d) : ∀ e ∈ s.entries.rows, e.id.val < s.nextEntry := by
  intro e he
  have := h.tidy.counted e he
  rw [Int64.lt_iff_toInt_lt, h.next]
  omega

/-- A change of the rows that adds no identifier and leaves the counters alone. -/
theorem withEntries (h : MirrorsRows s d) {t : Table Entry.id} (hentries : d'.entries = some t)
    (hmarks : d'.marks = []) (hlast : d'.lastEntry = d.lastEntry)
    (hsequence : d'.sequence = d.sequence)
    (hids : ∀ e ∈ t.rows, ∃ a ∈ s.entries.rows, a.id = e.id) :
    MirrorsRows { s with entries := t } d' where
  tidy := ⟨hentries, hmarks, hlast ▸ h.tidy.nonnegative, fun e he => by
    obtain ⟨a, ha, hid⟩ := hids e he
    exact hlast ▸ hid ▸ h.tidy.counted a ha⟩
  next := hlast ▸ h.next
  sequence := hsequence.trans h.sequence

/-- A new row gets the same identifier in both. -/
theorem insert (h : MirrorsRows s d) (hroom : s.nextEntry.toInt < Int64.maxValue.toInt)
    (grant : Grant) :
    ∃ d', d.insert s.entries grant = .ok ((s.insert grant).1, d') ∧
      MirrorsRows (s.insert grant).2 d' ∧ d'.hosts = d.hosts := by
  obtain ⟨hgrant, -, hrows, -, hnext, hgroup⟩ := MemoryStore.insert_spec h.counted hroom grant
  obtain ⟨stored, d', t', hinsert, ht', hgrant', hrows', habove, hlast, hsequence, hhosts⟩ :=
    Database.insert_spec h.tidy (by have := h.next; omega) grant
  have hid : stored.id = (s.insert grant).1.id := by
    have hle := ht'.counted stored (hrows' ▸ List.mem_append_right _ (List.mem_singleton_self _))
    have hstored : (s.insert grant).1.id.val = s.nextEntry := rfl
    rw [Identifier.eq_iff_toInt, hstored, h.next]
    omega
  obtain rfl : stored = (s.insert grant).1 := Entry.ext (hgrant'.trans hgrant.symm) hid
  obtain rfl : t' = (s.insert grant).2.entries := Table.ext (hrows'.trans hrows.symm)
  refine ⟨d', hinsert, ⟨ht', ?_, ?_⟩, hhosts⟩
  · rw [hnext, hlast, h.next]
  · rw [hsequence, h.sequence, hgroup]

/-- New rows get the same identifiers in both. -/
theorem insertAll (h : MirrorsRows s d) (grants : List Grant)
    (hroom : s.nextEntry.toInt + grants.length ≤ Int64.maxValue.toInt) :
    ∃ d', d.insertAll grants = .ok ((s.insertAll grants).1, d') ∧
      MirrorsRows (s.insertAll grants).2 d' ∧ d'.hosts = d.hosts := by
  induction grants generalizing s d with
  | nil => exact ⟨d, rfl, h, rfl⟩
  | cons grant rest ih =>
    rw [List.length_cons] at hroom
    obtain ⟨d₁, hinsert, h₁, hhosts₁⟩ := h.insert (by omega) grant
    obtain ⟨-, -, -, -, hnext, -⟩ := MemoryStore.insert_spec h.counted (by omega) grant
    obtain ⟨d₂, hall, h₂, hhosts₂⟩ := ih h₁ (by rw [hnext]; omega)
    refine ⟨d₂, ?_, h₂, hhosts₂.trans hhosts₁⟩
    simp [Database.insertAll, Database.entriesOrError, h.tidy.entries, hinsert, hall, bind,
      Except.bind, pure, Except.pure, MemoryStore.insertAll]

/-- A row of another writer leaves the counters one apart. -/
theorem insertRaw (h : MirrorsRows s d) {entry : Entry}
    (hroom : entry.id.val.toInt + 1 < Int64.maxValue.toInt) :
    ∃ s', s.insertRaw? entry = some s' ∧ MirrorsRows s' (d.insertRaw entry) := by
  have hne : entry.id.val ≠ Int64.maxValue := by
    intro heq
    rw [heq] at hroom
    omega
  have hid : (entry.id.val + 1).toInt = entry.id.val.toInt + 1 := Int64.toInt_add_one (by omega)
  let last := max (d.lastEntry.getD 0) entry.id.val
  have hlast : last.toInt = max (d.lastEntry.getD 0).toInt entry.id.val.toInt := Int64.toInt_max ..
  have hraw : d.insertRaw entry =
      (d.withWritten entry.id (s.entries.put entry)).recordLastEntry last := by
    rw [Database.insertRaw, h.tidy.entries]
  have hrecord : (d.insertRaw entry).lastEntry = some last := by
    rw [hraw]
    exact RowCounter.largest?_record ..
  refine ⟨_, if_neg hne, ⟨by rw [hraw]; rfl, ?_, ?_, fun e he => ?_⟩, ?_, ?_⟩
  · rw [hraw]
    exact (congrArg (List.filter _) h.tidy.marks).trans rfl
  · have := h.tidy.nonnegative
    rw [hrecord, Option.getD_some, hlast]
    omega
  · rw [hrecord, Option.getD_some, hlast]
    rcases Table.mem_putRow_imp he with rfl | he
    · exact Int.le_max_right _ _
    · have := h.tidy.counted e he
      omega
  · rw [hrecord, Option.getD_some, hlast, Int64.toInt_max, hid, h.next]
    omega
  · rw [hraw]
    exact h.sequence

/-- The groups with repeated rows are found in the same order. -/
theorem duplicateGroups_eq (h : MirrorsRows s d) :
    s.duplicateGroups = d.duplicateGroups s.entries := by
  obtain ⟨l, hl, -⟩ := Backend.Sound.exists_shows (b := .memory { s with nextGroup := 1 } {})
    ⟨h.counted, show (0 : Int64) < 1 by decide⟩
  have hrows : s.entries.rows = l.rows := hl.entries_eq
  refine Identifier.eq_of_ascending_of_mem_iff s.pairwise_duplicateGroups
    (Identifier.pairwise_distinct _) fun g => ?_
  rw [MemoryStore.mem_duplicateGroups hrows, Database.mem_duplicateGroups h.tidy.marks hrows]

/-- Both lose the rows of a group. -/
theorem removeGroup (h : MirrorsRows s d) (group : GroupId) :
    MirrorsRows (s.removeGroup group) { d with entries := some (s.removeGroup group).entries } :=
  h.withEntries rfl h.tidy.marks rfl rfl fun e he => ⟨e, (List.mem_filter.1 he).1, rfl⟩

/-- A group is handed out alike. -/
theorem allocateGroup (h : MirrorsRows s d)
    (hroom : s.idCounters.exhaustedBy (.store .allocateGroup) = false) :
    ∃ g s' d', s.allocateGroup? = some (g, s') ∧ d.allocateGroup = (.ok g, d') ∧
      MirrorsRows s' d' ∧ d'.hosts = d.hosts := by
  obtain ⟨hnext, hlargest⟩ := IdCounters.exhaustedBy_allocateGroup_eq_false.1 hroom
  have hsame : Database.largestGroup s.entries = s.largestGroup := s.largestGroup_eq.symm
  have hnot : ¬ (Int64.maxValue - 1 ≤ s.largestGroup ∨ s.nextGroup = Int64.maxValue) := by
    have hlimit : (Int64.maxValue - 1).toInt = Int64.maxValue.toInt - 1 := by decide
    change s.nextGroup.toInt + 1 < _ at hnext
    change s.largestGroup.toInt + 2 < _ at hlargest
    rintro (hle | heq)
    · rw [Int64.le_iff_toInt_le, hlimit] at hle
      omega
    · rw [heq] at hnext
      omega
  have hne : s.largestGroup ≠ Int64.maxValue := by
    intro heq
    refine hnot (.inl ?_)
    rw [heq]
    decide
  let fresh := max s.nextGroup (s.largestGroup + 1)
  refine ⟨⟨fresh⟩, { s with nextGroup := fresh + 1 }, { d with sequence := .at (fresh + 1) },
    if_neg hne, ?_, ⟨⟨h.tidy.entries, h.tidy.marks, h.tidy.nonnegative, h.tidy.counted⟩, h.next,
      rfl⟩, rfl⟩
  simp only [Database.allocateGroup, h.sequence, Database.entriesOrError, h.tidy.entries, hsame,
    if_neg hnot]
  rfl

/-- A call about rows is answered alike. -/
theorem perform (h : MirrorsRows s d) (c : StoreCall)
    (hroom : s.idCounters.exhaustedBy (.store c) = false) :
    ∃ x s' d', s.perform c = some (x, s') ∧ d.performStore c = (x, d') ∧ MirrorsRows s' d' ∧
      d'.hosts = d.hosts := by
  rw [Database.performStore_eq h.tidy.entries]
  cases c with
  | findAll => exact ⟨_, s, d, rfl, rfl, h, rfl⟩
  | findGroup group => exact ⟨_, s, d, rfl, rfl, h, rfl⟩
  | findMixed => exact ⟨_, s, d, rfl, rfl, h, rfl⟩
  | findDuplicateGroups =>
    refine ⟨_, s, d, rfl, ?_, h, rfl⟩
    rw [Database.performRows, h.duplicateGroups_eq]
  | insert grant =>
    have hlt := IdCounters.exhaustedBy_insert_eq_false.1 hroom
    obtain ⟨d', hinsert, h', hhosts⟩ := h.insert (Int.lt_trans (Int.lt_succ _) hlt) grant
    exact ⟨_, _, d', rfl, by rw [Database.performRows, hinsert]; rfl, h', hhosts⟩
  | update entry =>
    rw [MemoryStore.perform, Database.performRows]
    by_cases hc : s.entries.contains entry.id
    · rw [if_pos hc, if_pos hc]
      refine ⟨_, _, _, rfl, rfl, h.withEntries rfl ?_ rfl rfl fun e he => ?_, rfl⟩
      · exact (congrArg (List.filter _) h.tidy.marks).trans rfl
      · obtain ⟨a, ha, rfl⟩ := List.mem_map.1 he
        refine ⟨a, ha, ?_⟩
        split
        · next heq => exact heq
        · rfl
    · rw [if_neg hc, if_neg hc]
      exact ⟨_, s, d, rfl, rfl, h, rfl⟩
  | deleteEntry id =>
    rw [MemoryStore.perform, Database.performRows]
    by_cases hc : s.entries.contains id
    · rw [if_pos hc, if_pos hc]
      exact ⟨_, _, _, rfl, rfl, h.withEntries rfl h.tidy.marks rfl rfl fun e he =>
        ⟨e, (List.mem_filter.1 he).1, rfl⟩, rfl⟩
    · rw [if_neg hc, if_neg hc]
      exact ⟨_, s, d, rfl, rfl, h, rfl⟩
  | deleteGroup group =>
    refine ⟨_, _, _, rfl, ?_, h.removeGroup group, rfl⟩
    rw [Database.performRows, s.size_sub_size_removeGroup]
    rfl
  | replaceGroup group grants =>
    have hlt := IdCounters.exhaustedBy_replaceGroup_eq_false.1 hroom
    obtain ⟨d', hall, h', hhosts⟩ := (h.removeGroup group).insertAll grants (Int.le_of_lt hlt)
    refine ⟨_, _, d', rfl, ?_, h', hhosts⟩
    simp only [Database.performRows]
    rw [show s.entries.filter _ = (s.removeGroup group).entries from rfl, hall]
  | allocateGroup =>
    obtain ⟨g, s', d', hs, hd, h', hhosts⟩ := h.allocateGroup hroom
    exact ⟨_, s', d', by rw [MemoryStore.perform, hs]; rfl, by rw [Database.performRows, hd], h',
      hhosts⟩

end MirrorsRows

/-! ### Resources -/

namespace Statement

/-- A name can stand where it begins no longer phrase and is not reserved. -/
theorem checkName_eq_ok_iff {place : Place} {name next : String} :
    checkName place name next = .ok () ↔ Text.lower name ∉ openers place ∧
      Text.lower name ∉ reserved ∧ ¬ (Text.lower name = "null" ∧ namesOnly place = true) := by
  simp only [checkName]
  split
  · next h => simp [h]
  · next h =>
    split
    · next h' => simpa [h] using fun hnot => h'.resolve_left hnot
    · next h' => simp [h, not_or.1 h']

/-- Two checks in a row succeed when both do. -/
theorem seq_eq_ok_iff {x y : Except DatabaseError Unit} :
    (x >>= fun _ => y) = .ok () ↔ x = .ok () ∧ y = .ok () := by
  cases x with
  | error e => simp [bind, Except.bind]
  | ok => simp [bind, Except.bind]

end Statement

namespace Database

variable {names : ResourceTable} {h : HostTable}

/-- Every statement about a kind whose resources can be listed can be read. -/
theorem Houses.check_eq_ok (hn : d.Houses names h) (c : RegistryCall) :
    Statement.check names c = .ok () := by
  have hlist := hn.readable .component
  simp only [Statement.check, Statement.seq_eq_ok_iff, Statement.checkName_eq_ok_iff] at hlist
  obtain ⟨⟨hid, hidReserved, -⟩, ⟨hgroup, hgroupReserved, -⟩, -, htable, hnull⟩ := hlist
  have hor : Text.lower names.table ≠ "or" := fun heq => htable (heq ▸ by decide +kernel)
  have hgroupNull : Text.lower names.groupColumn ≠ "null" := fun heq => by
    have := hn.groupWord
    simp [Cell.ofWord?, heq] at this
  have hoperand : Text.lower names.idColumn ∉ Statement.openers .operand := fun hmem =>
    hid (List.mem_of_mem_drop (i := 2) hmem)
  have hchanged : Text.lower names.table ∉ Statement.openers .changedTable := by
    simpa [Statement.openers] using hor
  cases c with
  | listRefs kind => exact hn.readable kind
  | _ =>
    simp only [Statement.check, Statement.seq_eq_ok_iff, Statement.checkName_eq_ok_iff]
    simp_all [Statement.namesOnly, Statement.openers]

/-- Calls about a kind are carried out in its table. -/
theorem Houses.performRegistry_eq {c : RegistryCall} (hn : d.Houses (tables.table (kindOf c)) h) :
    d.performRegistry tables c = d.performIn (.ofHost d h) (tables.table (kindOf c)) c := by
  simp only [performRegistry, tableFor, table?_eq hn, hn.check_eq_ok]
  rfl

end Database

namespace HostTable.Holds

variable {names : ResourceTable} {h : HostTable} {refs : Table GroupRef.resource}

theorem rows_eq (hh : h.Holds refs.rows) : h.relation.rows = refs.rows.map GroupRef.toRow :=
  hh.rows

theorem any_eq (hh : h.Holds refs.rows) (resource : ResourceId) :
    (h.relation.rows.any fun row => (HostTable.idColumn.read row).equals resource.val) =
      refs.contains resource := by
  simp only [hh.rows_eq, Database.equals_idColumn, List.any_map, Table.contains]
  rfl

/-- A look-up finds what the registry finds. -/
theorem find_eq (hh : h.Holds refs.rows) (hn : d.Houses names h) (resource : ResourceId) :
    h.relation.find names resource = match refs.find? resource with
      | some ref => .ok ref.group
      | none => .error .notFound := by
  rw [Relation.find, Database.reader_groupColumn hn, Database.reader_idColumn hn]
  simp only [Database.equals_idColumn, hh.rows_eq, List.find?_map]
  rw [show refs.rows.find? ((fun row : HostRow => decide (row.resource = resource)) ∘
    GroupRef.toRow) = refs.find? resource from rfl]
  cases refs.find? resource with
  | none => rfl
  | some ref => rfl

/-- A reference is changed as in the registry. -/
theorem assign_eq (hh : h.Holds refs.rows) (hn : d.Houses names h) (resource : ResourceId)
    (group : GroupId) :
    h.relation.assign names resource group =
      if refs.contains resource then
        .ok ((refs.replace ⟨resource, group⟩).rows.map GroupRef.toRow)
      else .error .notFound := by
  have hchanged : (h.relation.rows.mapM fun row =>
      if row.resource = resource then h.groupColumn.write? row group.val else some row) =
        some ((refs.replace ⟨resource, group⟩).rows.map GroupRef.toRow) := by
    have hwrite : (fun row : HostRow =>
        if row.resource = resource then h.groupColumn.write? row group.val else some row) =
          fun row =>
            pure (if row.resource = resource then ⟨row.resource, some group⟩ else row) := by
      funext row
      split
      · simp [HostTable.groupColumn, hh.positive]
      · rfl
    rw [hwrite, List.mapM_pure, hh.rows_eq]
    refine congrArg some ?_
    rw [List.map_map, Table.replace, List.map_map]
    refine List.map_congr_left fun r _ => ?_
    by_cases heq : r.resource = resource
    · simp [GroupRef.toRow, heq]
    · simp [GroupRef.toRow, heq]
  have hadmits : h.relation.admits ((refs.replace ⟨resource, group⟩).rows.map GroupRef.toRow) =
      true := by
    have hnodup := Identifier.nodup_of_ascending (refs.replace ⟨resource, group⟩).ascending
    simp only [HostTable.relation, hh.unique, List.map_map]
    exact (Bool.and_true _).trans (decide_eq_true hnodup)
  rw [Relation.assign, Relation.column, Database.column?_groupColumn hn,
    Database.reader_idColumn hn]
  simp only [hh.any_eq]
  simp only [Database.equals_idColumn, decide_eq_true_eq, hchanged, hadmits, if_true]

/-- A resource is deleted as in the registry. -/
theorem delete_eq (hh : h.Holds refs.rows) (hn : d.Houses names h) (resource : ResourceId) :
    h.relation.delete names resource =
      if refs.contains resource then .ok ((refs.erase resource).rows.map GroupRef.toRow)
      else .error .notFound := by
  rw [Relation.delete, Database.reader_idColumn hn]
  simp only [hh.any_eq]
  simp only [Database.equals_idColumn, hh.rows_eq, List.filter_map]
  simp only [Table.erase, Table.filter, ← decide_not]
  rfl

/-- A new resource is put into the table. -/
theorem putResource_eq (hh : h.Holds refs.rows) (hn : d.Houses names h) (ref : GroupRef) :
    d.putResource names ref.toRow = d.setHost { h with rows := h.rows.put ref.toRow } := by
  have hid : h.relation.column? names.idColumn = some HostTable.idColumn := by
    simp [Relation.column?, HostTable.relation, hn.idColumn]
  have hisId : h.relation.isRowId names.idColumn = true := by
    simp [Relation.isRowId, HostTable.relation, hn.idColumn]
  have hnotId : h.relation.isRowId names.groupColumn = false := by
    have hne : ¬ Text.lower h.names.idColumn = Text.lower h.names.groupColumn := by
      rw [← hn.idColumn, ← hn.groupColumn]
      exact hn.distinct
    simp [Relation.isRowId, HostTable.relation, hn.groupColumn, hne]
  have hgiven : h.relation.givenRowId? names ref.toRow = some ref.resource.val := by
    simp [Relation.givenRowId?, hisId, hnotId, GroupRef.toRow]
  have hwrite (row : HostRow) :
      h.groupColumn.write? row ref.group.val = some { row with group := some ref.group } := by
    simp [HostTable.groupColumn, hh.positive]
  have hnumber : h.relation.rowId.write? ⟨h.nextResource, none⟩ ref.resource.val =
      some ⟨ref.resource, none⟩ := rfl
  have hrow : h.relation.newRow? ⟨h.nextResource, none⟩ true names ref.toRow = some ref.toRow := by
    simp only [Relation.newRow?, hid, Database.column?_groupColumn hn, hgiven, hisId, hnotId,
      Option.bind_eq_bind, Option.bind_some, hnumber]
    simp only [GroupRef.toRow, hwrite]
    rfl
  have hput : h.putRaw ref.toRow = { h with rows := h.rows.put ref.toRow } := by
    have hall : (h.rows.filter fun r => !h.unique || r.group.isNone ||
        decide (r.group ≠ ref.toRow.group)) = h.rows :=
      Table.ext (by simp [Table.filter, hh.unique])
    rw [HostTable.putRaw, hall, hh.positive]
    rfl
  have hnew : (StoredTable.ofHost d h).relation.newRow? (StoredTable.ofHost d h).blank
      (StoredTable.ofHost d h).left names ref.toRow = some ref.toRow := hrow
  rw [Database.putResource, Database.table?_eq hn]
  simp only [hnew]
  exact (if_pos (List.nil_subset _)).trans (congrArg d.setHost hput)

end HostTable.Holds

namespace MirrorsRefs

variable {kind : ResourceKind}

/-- With other rows in the table of a kind the database holds the registry with other references of
this kind. -/
theorem setHost (h : MirrorsRefs r tables d) {host : HostTable}
    (hn : d.Houses (tables.table kind) host) (hh : host.Holds (r.refs kind).rows)
    {rows : Table HostRow.resource} {refs : Table GroupRef.resource}
    (hrows : rows.rows = refs.rows.map GroupRef.toRow) :
    MirrorsRefs (r.set kind refs) tables (d.setHost { host with rows }) where
  hosts k := by
    by_cases hk : k = kind
    · subst hk
      refine ⟨_, hn.setHost_self rows, ?_, hh.unique, hh.positive⟩
      rw [MemoryRegistry.refs_set_self]
      exact hrows
    · obtain ⟨other, ho, hother⟩ := h.hosts k
      have hne : Text.lower (tables.table kind).table ≠ Text.lower (tables.table k).table :=
        fun heq => hk (h.separate k kind heq.symm)
      refine ⟨other, { ho with found := ?_ }, ?_⟩
      · exact (Database.host?_setHost_of_ne hn rows hne).trans ho.found
      · rw [MemoryRegistry.refs_set_of_ne _ _ hk]
        exact hother
  separate := h.separate

/-- A call about resources is answered alike. -/
theorem perform (h : MirrorsRefs r tables d) (c : RegistryCall) :
    ∃ x r' d', r.perform c = (x, r') ∧ d.performRegistry tables c = (x, d') ∧
      MirrorsRefs r' tables d' ∧ ∃ hosts, d' = { d with hosts } := by
  have hrows (refs : Table GroupRef.resource) :
      (Table.ofRows (refs.rows.map GroupRef.toRow) : Table HostRow.resource).rows =
        refs.rows.map GroupRef.toRow :=
    Table.rows_ofRows (List.pairwise_map.2 refs.ascending)
  obtain ⟨host, hn, hh⟩ := h.hosts (Database.kindOf c)
  rw [hn.performRegistry_eq]
  cases c with
  | listRefs kind =>
    have hlist : (StoredTable.ofHost d host).relation.resources (tables.table kind) =
        .ok ((r.refs kind).rows.map GroupRef.toRow) :=
      (Database.resources_eq hn).trans (congrArg _ hh.rows)
    refine ⟨_, r, d, rfl, ?_, h, d.hosts, rfl⟩
    simp only [Database.performIn, Database.kindOf, hlist, Except.map, List.map_map]
    exact congrArg (fun refs => (Except.ok refs, d)) (List.map_id _)
  | findRef kind resource =>
    have hfind : (StoredTable.ofHost d host).relation.find (tables.table kind) resource = _ :=
      hh.find_eq hn resource
    simp only [Database.performIn, Database.kindOf, MemoryRegistry.perform, hfind]
    cases (r.refs kind).find? resource with
    | none => exact ⟨_, r, d, rfl, rfl, h, d.hosts, rfl⟩
    | some ref => exact ⟨_, r, d, rfl, rfl, h, d.hosts, rfl⟩
  | assign kind resource group =>
    have hassign : (StoredTable.ofHost d host).relation.assign (tables.table kind) resource group =
      _ := hh.assign_eq hn resource group
    simp only [Database.performIn, Database.kindOf, MemoryRegistry.perform, hassign]
    by_cases hc : (r.refs kind).contains resource
    · simp only [hc, if_true]
      exact ⟨_, _, _, rfl, rfl, h.setHost hn hh (hrows _), _, rfl⟩
    · simp only [hc]
      exact ⟨_, r, d, rfl, rfl, h, d.hosts, rfl⟩
  | delete kind resource =>
    have hdelete : (StoredTable.ofHost d host).relation.delete (tables.table kind) resource = _ :=
      hh.delete_eq hn resource
    simp only [Database.performIn, Database.kindOf, MemoryRegistry.perform, hdelete]
    by_cases hc : (r.refs kind).contains resource
    · simp only [hc, if_true]
      exact ⟨_, _, _, rfl, rfl, h.setHost hn hh (hrows _), _, rfl⟩
    · simp only [hc]
      exact ⟨_, r, d, rfl, rfl, h, d.hosts, rfl⟩

/-- A resource of another writer is put into both. -/
theorem put (h : MirrorsRefs r tables d) (kind : ResourceKind) (ref : GroupRef) :
    MirrorsRefs (r.put kind ref) tables (d.putResource (tables.table kind) ref.toRow) ∧
      ∃ hosts, d.putResource (tables.table kind) ref.toRow = { d with hosts } := by
  have hput (refs : List GroupRef) : Table.putRow HostRow.resource ref.toRow
      (refs.map GroupRef.toRow) = (Table.putRow GroupRef.resource ref refs).map GroupRef.toRow := by
    induction refs with
    | nil => rfl
    | cons first rest ih =>
      simp only [List.map_cons, Table.putRow, ih, apply_ite (List.map GroupRef.toRow)]
      rfl
  obtain ⟨host, hn, hh⟩ := h.hosts kind
  rw [hh.putResource_eq hn]
  refine ⟨h.setHost hn hh ?_, _, rfl⟩
  exact (congrArg (Table.putRow _ _) hh.rows).trans (hput _)

/-- The same resources are shown. -/
theorem resources_eq (h : MirrorsRefs r tables d) :
    (Backend.memory s r).resources = (Backend.database tables d).resources := by
  have hkind (k : ResourceKind) :
      (Backend.memory s r).resourcesOf k = (Backend.database tables d).resourcesOf k := by
    obtain ⟨host, hn, hh⟩ := h.hosts k
    exact (Database.resources_of_houses hn ▸ hh.rows).symm
  rw [Backend.resources, Backend.resources]
  simp only [hkind]

/-- A change that leaves the tables of others alone. -/
theorem of_hosts_eq (h : MirrorsRefs r tables d) (hhosts : d'.hosts = d.hosts) :
    MirrorsRefs r tables d' where
  hosts k := by
    obtain ⟨host, hn, hh⟩ := h.hosts k
    refine ⟨host, { hn with found := ?_ }, hh⟩
    rw [Database.host?, hhosts]
    exact hn.found
  separate := h.separate

end MirrorsRefs

/-! ### Requests -/

/-- A database holds what a store in memory holds, and hands out the same identifiers. -/
structure Mirrors (s : MemoryStore) (r : MemoryRegistry) (tables : ResourceTables) (d : Database) :
    Prop where
  rows : MirrorsRows s d
  refs : MirrorsRefs r tables d

namespace Mirrors

/-- An empty database with a table for every kind mirrors the empty store. -/
theorem of_vacant (hd : d.Vacant tables) : Mirrors {} {} tables d where
  rows := {
    tidy := ⟨hd.entries, hd.marks, by rw [hd.lastEntry]; decide, nofun⟩
    next := by rw [hd.lastEntry]; decide
    sequence := hd.sequence }
  refs := ⟨hd.hosts, hd.separate⟩

/-- The same is seen. -/
theorem seen_eq (h : Mirrors s r tables d) :
    (Backend.memory s r).entries = (Backend.database tables d).entries ∧
      (Backend.memory s r).resources = (Backend.database tables d).resources := by
  refine ⟨?_, h.refs.resources_eq⟩
  rw [Backend.entries, Backend.entries, h.rows.tidy.entries]
  rfl

/-- A request is answered alike, and afterwards the database is a mirror again. -/
theorem serve (h : Mirrors s r tables d) {q : Request}
    (hroom : (Backend.memory s r).idCounters.spentBy q = false) :
    ∃ x s' r' d', (Backend.memory s r).serve q = some (x, .memory s' r') ∧
      (Backend.database tables d).serve q = some (x, .database tables d') ∧
      Mirrors s' r' tables d' := by
  cases q with
  | store c =>
    obtain ⟨x, s', d', hs, hd, hrows, hhosts⟩ := h.rows.perform c hroom
    refine ⟨x, s', r, d', ?_, ?_, hrows, h.refs.of_hosts_eq hhosts⟩
    · rw [Backend.serve, Backend.performStore, hs]
      rfl
    · rw [Backend.serve, Backend.performStore, hd]
  | registry c =>
    obtain ⟨x, r', d', hr, hd, hrefs, hosts, hd'⟩ := h.refs.perform c
    refine ⟨x, s, r', d', ?_, ?_, hd' ▸ h.rows.withHosts hosts, hrefs⟩
    · rw [Backend.serve, Backend.performRegistry, hr]
    · rw [Backend.serve, Backend.performRegistry, hd]
  | insertRaw entry =>
    have hlt : entry.id.val.toInt + 1 < Int64.maxValue.toInt := by
      rwa [IdCounters.spentBy, decide_eq_false_iff_not, Int.not_le] at hroom
    obtain ⟨s', hs, hrows⟩ := h.rows.insertRaw hlt
    have hhosts : (d.insertRaw entry).hosts = d.hosts := by
      rw [Database.insertRaw, h.rows.tidy.entries]
      rfl
    refine ⟨(), s', r, d.insertRaw entry, ?_, rfl, hrows, h.refs.of_hosts_eq hhosts⟩
    rw [Backend.serve, Scenario.writeBehind, hs]
    rfl
  | put kind ref =>
    obtain ⟨hrefs, hosts, hd⟩ := h.refs.put kind ref
    exact ⟨(), s, r.put kind ref, _, rfl, rfl, hd ▸ h.rows.withHosts hosts, hrefs⟩

/-- The requests are answered alike, and the same is seen after each of them. -/
theorem observe (h : Mirrors s r tables d) {requests : List Request}
    (hroom : (Backend.memory s r).HasRoom requests) :
    ∃ seen, (Backend.memory s r).observe requests = some seen ∧
      (Backend.database tables d).observe requests = some seen := by
  induction requests generalizing s r d with
  | nil => exact ⟨[], rfl, rfl⟩
  | cons q rest ih =>
    obtain ⟨x, s', r', d', hs, hd, h'⟩ := h.serve hroom.1
    obtain ⟨hentries, hresources⟩ := h'.seen_eq
    have hrest : (Backend.memory s' r').HasRoom rest := by
      have := hroom.2
      rwa [hs] at this
    obtain ⟨others, hs', hd'⟩ := ih h' hrest
    let first : Observation :=
      ⟨q, x, (Backend.memory s' r').entries, (Backend.memory s' r').resources⟩
    refine ⟨first :: others, ?_, ?_⟩
    · rw [Backend.observe, hs]
      simp only [Option.bind_eq_bind, Option.bind_some, hs']
      rfl
    · rw [Backend.observe, hd]
      simp only [Option.bind_eq_bind, Option.bind_some, hd', ← hentries, ← hresources]
      rfl

end Mirrors

/-- **Stores of both kinds are interchangeable.** An empty store in memory and an empty database
with a table for every kind answer any requests in the same way, and hold the same rows and
resources after each of them, as long as no counter comes to its largest value. -/
theorem Backend.observe_eq {requests : List Request} (hd : d.Vacant tables)
    (hroom : (Backend.memory {} {}).HasRoom requests) :
    ∃ seen, (Backend.memory {} {}).observe requests = some seen ∧
      (Backend.database tables d).observe requests = some seen :=
  (Mirrors.of_vacant hd).observe hroom

/-- An empty database with the usual tables for all kinds. -/
def Database.usual : Database :=
  ResourceKind.all.foldl (fun d k => d.createHost { names := ResourceTables.standard.table k }) {}

theorem Database.vacant_usual : Database.usual.Vacant .standard where
  entries := rfl
  marks := rfl
  lastEntry := rfl
  sequence := rfl
  hosts k := by
    have hall : (Database.usual.host? (ResourceTables.standardName k)).any (fun h =>
        h.names = ResourceTables.standard.table k && h.rows = .empty && !h.unique && !h.positive) =
        true := by
      cases k <;> decide +kernel
    obtain ⟨h, hfound, hh⟩ := (Option.any_eq_true _ _).1 hall
    simp only [Bool.and_eq_true, decide_eq_true_eq, Bool.not_eq_true'] at hh
    obtain ⟨⟨⟨hnames, hrows⟩, hunique⟩, hpositive⟩ := hh
    exact ⟨h, Database.houses_standard k hfound hnames, by rw [hrows]; rfl, hunique, hpositive⟩
  separate := Backend.separate_standard _

/-- Rows come and go, also under identifiers that are negative or the largest so far, and rows are
moved between groups. -/
def Request.variety : List Request :=
  [.insertRaw ((Grant.forUser ⟨4⟩ ⟨1⟩ .full).toEntry ⟨-6⟩),
    .insertRaw ((Grant.forUser ⟨4⟩ ⟨1⟩ .full).toEntry ⟨9⟩),
    .store .findDuplicateGroups, .store (.deleteEntry ⟨9⟩),
    .store (.insert (.forUnit ⟨-2⟩ ⟨3⟩ .full)), .store .allocateGroup,
    .store (.replaceGroup ⟨4⟩ [.forUnit ⟨70⟩ ⟨3⟩ .full, ⟨⟨4⟩, some ⟨1⟩, some ⟨2⟩, .none⟩]),
    .store .findMixed, .put .page ⟨⟨2⟩, ⟨5⟩⟩, .put .page ⟨⟨1⟩, ⟨5⟩⟩,
    .registry (.assign .page ⟨2⟩ ⟨0⟩), .registry (.findRef .form ⟨2⟩),
    .registry (.delete .page ⟨1⟩), .store (.deleteGroup ⟨70⟩), .store .allocateGroup]

theorem Backend.observe_variety :
    (Backend.memory {} {}).HasRoom Request.variety ∧
      ∃ seen, (Backend.memory {} {}).observe Request.variety = some seen ∧
        (Backend.database .standard Database.usual).observe Request.variety = some seen ∧
        seen.length = 15 := by
  have hroom : (Backend.memory {} {}).HasRoom Request.variety := by decide +kernel
  obtain ⟨seen, hmemory, hdatabase⟩ := Backend.observe_eq Database.vacant_usual hroom
  refine ⟨hroom, seen, hmemory, hdatabase, ?_⟩
  have hlength : ((Backend.memory {} {}).observe Request.variety).map List.length = some 15 := by
    decide +kernel
  rw [hmemory] at hlength
  exact Option.some.inj hlength

end AccessGroups
