import AccessGroups.Proofs.Store.Rows
import AccessGroups.Store.Registry

/-!
# The tables of resources keep a ledger

A database keeps every kind of resource in a table of others. As long as no such table is one of the
store, the calls about resources answer and change what they do in a ledger, or fail without an
effect: the table can be absent, and a constraint on the references can forbid a change. Kinds that
share a table share their resources.

## Main definitions

* `Database.Houses`: a table of others holds the resources of a kind.
* `Database.Hosts`: there is such a table for a kind, or none at all.
* `Database.ShowsRefs`: the tables show the references of a ledger.

## Main results

* `Database.performRegistry_shows`: the calls about resources.
-/

/-- A partial function whose values are those of a function maps a list as the function does. -/
theorem List.eq_map_of_mapM_eq_some {α β : Type} {f : α → Option β} {g : α → β}
    (h : ∀ a b, f a = some b → b = g a) {xs : List α} {ys : List β} (hys : xs.mapM f = some ys) :
    ys = xs.map g := by
  induction xs generalizing ys with
  | nil => simpa using hys.symm
  | cons x rest ih =>
    rw [List.mapM_cons] at hys
    obtain ⟨b, hb, hys⟩ := Option.bind_eq_some_iff.1 hys
    obtain ⟨bs, hbs, hys⟩ := Option.bind_eq_some_iff.1 hys
    obtain rfl := Option.some.inj hys
    rw [List.map_cons, ← h x b hb, ← ih hbs]

namespace AccessGroups

/-- A table of ascending rows has these rows. -/
theorem Table.rows_ofRows {ρ : Type} {family : IdFamily} {key : ρ → Identifier family}
    {rows : List ρ} (h : rows.Pairwise fun a b => key a < key b) :
    (Table.ofRows rows : Table key).rows = rows := by
  have hput (t : Table key) (hlist : (t.rows ++ rows).Pairwise fun a b => key a < key b) :
      (rows.foldl Table.put t).rows = t.rows ++ rows := by
    clear h
    induction rows generalizing t with
    | nil => simp
    | cons r rest ih =>
      have habove : ∀ a ∈ t.rows, key a < key r := fun a ha =>
        (List.pairwise_append.1 hlist).2.2 a ha r List.mem_cons_self
      have hrows : (t.put r).rows = t.rows ++ [r] := Table.rows_put_of_above habove
      rw [List.foldl_cons, ih _ (by rwa [hrows, List.append_assoc]), hrows, List.append_assoc]
      rfl
  exact hput .empty h

/-- The reference that a row of a table of others shows; an empty one reads as zero. -/
def HostRow.shown (r : HostRow) : GroupRef :=
  ⟨r.resource, r.groupOrZero⟩

namespace Database

variable {d : Database} {tables : ResourceTables} {names n : ResourceTable} {h h' : HostTable}
  {l : Ledger} {kind : ResourceKind} {r : ResourceId} {g : GroupId}

/-- The names of the tables of the store itself, in lower case. -/
def ownNames : List String :=
  ["permission_entries", "group_id_sequence", "sqlite_sequence", "_sqlx_migrations",
    "sqlite_master", "sqlite_schema", "sqlite_temp_master", "sqlite_temp_schema"]

/-- A table of others holds the resources of a kind in two different columns, which are those that
its names say, and statements can read it. -/
structure Houses (d : Database) (names : ResourceTable) (h : HostTable) : Prop where
  found : d.host? names.table = some h
  foreign : Text.lower names.table ∉ ownNames
  readable : ∀ kind, Statement.check names (.listRefs kind) = .ok ()
  idColumn : Text.lower names.idColumn = Text.lower h.names.idColumn
  groupColumn : Text.lower names.groupColumn = Text.lower h.names.groupColumn
  distinct : Text.lower names.idColumn ≠ Text.lower names.groupColumn
  idWord : Cell.ofWord? names.idColumn = none
  groupWord : Cell.ofWord? names.groupColumn = none

/-- There is no table of the name, which no table of the store has either. -/
structure Lacks (d : Database) (name : String) : Prop where
  foreign : Text.lower name ∉ ownNames
  absent : d.host? name = none

/-- The resources of a kind are in a table of others, unless the table is absent. -/
def Hosts (d : Database) (names : ResourceTable) : Prop :=
  d.Lacks names.table ∨ ∃ h, d.Houses names h

/-- The references that the table of the name shows, if there is one. -/
def shownIn (d : Database) (name : String) : List GroupRef :=
  ((d.host? name).map fun h => h.rows.rows.map HostRow.shown).getD []

/-- The usual table of a kind houses its resources. -/
theorem houses_standard {h : HostTable} (k : ResourceKind)
    (hfound : d.host? (ResourceTables.standardName k) = some h)
    (hnames : h.names = ResourceTables.standard.table k) :
    d.Houses (ResourceTables.standard.table k) h where
  found := hfound
  foreign := by cases k <;> decide +kernel
  readable kind := by cases k <;> rfl
  idColumn := by rw [hnames]
  groupColumn := by rw [hnames]
  distinct := by cases k <;> decide +kernel
  idWord := by cases k <;> rfl
  groupWord := by cases k <;> rfl

theorem hosts_standard (k : ResourceKind)
    (hnames : ∀ h, d.host? (ResourceTables.standardName k) = some h →
      h.names = ResourceTables.standard.table k) :
    d.Hosts (ResourceTables.standard.table k) := by
  cases hfound : d.host? (ResourceTables.standardName k) with
  | none => exact .inl ⟨by cases k <;> decide +kernel, hfound⟩
  | some h => exact .inr ⟨h, houses_standard k hfound (hnames h hfound)⟩

/-- The tables of the kinds show the references of a ledger. -/
structure ShowsRefs (d : Database) (tables : ResourceTables) (l : Ledger) : Prop where
  table : ∀ k, l.table k = Text.lower (tables.table k).table
  hosts : ∀ k, d.Hosts (tables.table k)
  refs : ∀ k, l.refs k = d.shownIn (tables.table k).table

theorem host?_congr {name name' : String} (h : Text.lower name = Text.lower name') :
    d.host? name = d.host? name' := by
  rw [host?, host?, h]

theorem shownIn_congr {name name' : String} (h : Text.lower name = Text.lower name') :
    d.shownIn name = d.shownIn name' := by
  rw [shownIn, shownIn, host?_congr h]

/-- The references of a table are in ascending order of the resources. -/
theorem pairwise_shownIn (d : Database) (name : String) :
    (d.shownIn name).Pairwise fun a b => a.resource < b.resource := by
  rw [shownIn]
  cases d.host? name with
  | none => exact .nil
  | some h => exact List.pairwise_map.2 h.rows.ascending

theorem shownIn_eq (hn : d.Houses names h) :
    d.shownIn names.table = h.rows.rows.map HostRow.shown := by
  rw [shownIn, hn.found]
  rfl

/-! ### Statements about a table of others -/

theorem reader_idColumn (hn : d.Houses names h) :
    h.relation.reader names.idColumn = .ok HostTable.idColumn.read := by
  have hcolumn : h.relation.column? names.idColumn = some HostTable.idColumn := by
    simp [Relation.column?, HostTable.relation, hn.idColumn]
  rw [Relation.reader, hn.idWord, hcolumn]

theorem column?_groupColumn (hn : d.Houses names h) :
    h.relation.column? names.groupColumn = some h.groupColumn := by
  have hne : ¬ Text.lower h.names.idColumn = Text.lower h.names.groupColumn := by
    rw [← hn.idColumn, ← hn.groupColumn]
    exact hn.distinct
  simp [Relation.column?, HostTable.relation, hn.groupColumn, hne]

theorem reader_groupColumn (hn : d.Houses names h) :
    h.relation.reader names.groupColumn = .ok h.groupColumn.read := by
  rw [Relation.reader, hn.groupWord, column?_groupColumn hn]

theorem equals_idColumn (row : HostRow) (r : ResourceId) :
    (HostTable.idColumn.read row).equals r.val = decide (row.resource = r) := by
  have hiff : row.resource.val = r.val ↔ row.resource = r :=
    ⟨Identifier.ext, fun heq => heq ▸ rfl⟩
  exact decide_eq_decide.2 hiff

/-- A listing shows the rows as they are. -/
theorem resources_eq (hn : d.Houses names h) : h.relation.resources names = .ok h.rows.rows := by
  have hsorted : (h.relation.rows.mergeSort fun a b =>
      (HostTable.idColumn.read a).le (HostTable.idColumn.read b)) = h.rows.rows := by
    refine List.mergeSort_of_pairwise (h.rows.ascending.imp fun {a b} hab => ?_)
    have hle : a.resource.val ≤ b.resource.val := by
      rw [Identifier.lt_iff_toInt] at hab
      rw [Int64.le_iff_toInt_le]
      omega
    simpa [Cell.le, HostTable.idColumn] using hle
  have hread : (fun row : HostRow => do
      let resource ← (HostTable.idColumn.read row).int? 0
      let group ← (h.groupColumn.read row).int? 1
      return (⟨⟨resource.getD 0⟩, group.map Identifier.mk⟩ : HostRow)) =
      fun row => (pure row : Except DatabaseError HostRow) := by
    funext row
    rcases row with ⟨resource, _ | group⟩ <;> rfl
  have hmap : (h.relation.resources names) =
      (h.relation.rows.mergeSort fun a b =>
        (HostTable.idColumn.read a).le (HostTable.idColumn.read b)).mapM fun row : HostRow => do
          let resource ← (HostTable.idColumn.read row).int? 0
          let group ← (h.groupColumn.read row).int? 1
          return (⟨⟨resource.getD 0⟩, group.map Identifier.mk⟩ : HostRow) := by
    rw [Relation.resources, reader_idColumn hn, reader_groupColumn hn]
    rfl
  rw [hmap, hsorted, hread, List.mapM_pure, List.map_id']
  rfl

/-- A look-up finds the reference that the listing shows. -/
theorem find_spec (hn : d.Houses names h) (r : ResourceId) :
    (∃ g, h.relation.find names r = .ok g ∧ ⟨r, g⟩ ∈ h.rows.rows.map HostRow.shown) ∨
      h.relation.find names r = .error .notFound := by
  rw [Relation.find, reader_groupColumn hn, reader_idColumn hn]
  simp only [equals_idColumn]
  cases hq : h.relation.rows.find? fun row => decide (row.resource = r) with
  | none => exact .inr rfl
  | some row =>
    have hrow : row.resource = r := by simpa using List.find?_some hq
    refine .inl ⟨row.groupOrZero, ?_, ?_⟩
    · rcases row with ⟨resource, _ | group⟩ <;> rfl
    · exact List.mem_map.2 ⟨row, List.mem_of_find?_eq_some hq, by rw [HostRow.shown, hrow]⟩

theorem exists_resource_iff {h : HostTable} {r : ResourceId} :
    (h.relation.rows.any fun row => (HostTable.idColumn.read row).equals r.val) = true ↔
      ∃ a ∈ h.rows.rows.map HostRow.shown, a.resource = r := by
  simp [HostTable.relation, equals_idColumn, HostRow.shown]

/-- A new reference leaves the others as they are, unless a constraint forbids it. -/
theorem assign_spec (hn : d.Houses names h) (r : ResourceId) (g : GroupId) :
    (∃ rows, h.relation.assign names r g = .ok rows ∧
        (rows.Pairwise fun a b => a.resource < b.resource) ∧
        (∃ a ∈ h.rows.rows.map HostRow.shown, a.resource = r) ∧
        rows.map HostRow.shown = Ledger.referring (h.rows.rows.map HostRow.shown) ⟨r, g⟩) ∨
      ∃ e, h.relation.assign names r g = .error e := by
  rw [Relation.assign, Relation.column, column?_groupColumn hn, reader_idColumn hn]
  simp only [equals_idColumn, decide_eq_true_eq]
  by_cases hnone : (h.relation.rows.any fun row => decide (row.resource = r)) = false
  · exact .inr ⟨_, if_neg (Bool.eq_false_iff.1 hnone)⟩
  have hany := (Bool.not_eq_false _).mp hnone
  rw [if_pos hany]
  cases hq : h.relation.rows.mapM fun row =>
      if row.resource = r then h.groupColumn.write? row g.val else some row with
  | none => exact .inr ⟨_, rfl⟩
  | some rows =>
    dsimp only
    by_cases hadmits : ¬ h.relation.admits rows = true
    · exact .inr ⟨_, if_neg hadmits⟩
    have hrows : rows = h.rows.rows.map fun row =>
        if row.resource = r then { row with group := some g } else row := by
      refine List.eq_map_of_mapM_eq_some (fun row changed hchanged => ?_) hq
      split at hchanged
      · next heq =>
        rw [if_pos heq]
        simp only [HostTable.groupColumn] at hchanged
        split at hchanged
        · cases hchanged
        · exact (Option.some.inj hchanged).symm
      · next hne => rw [if_neg hne, Option.some.inj hchanged]
    refine .inl ⟨rows, if_pos (not_not.1 hadmits), ?_, exists_resource_iff.1 ?_, ?_⟩
    · subst hrows
      refine List.pairwise_map.2 (h.rows.ascending.imp fun {a b} hab => ?_)
      have hkeep (a : HostRow) :
          (if a.resource = r then { a with group := some g } else a).resource = a.resource := by
        split <;> rfl
      rwa [hkeep, hkeep]
    · simpa only [equals_idColumn] using hany
    · rw [hrows, Ledger.referring, List.map_map, List.map_map]
      refine List.map_congr_left fun row _ => ?_
      by_cases heq : row.resource = r
      · simp [HostRow.shown, HostRow.groupOrZero, heq]
      · simp [HostRow.shown, heq]

/-- A deletion takes the rows of the resource away. -/
theorem delete_spec (hn : d.Houses names h) (r : ResourceId) :
    (h.relation.delete names r = .ok (h.rows.rows.filter fun row => row.resource ≠ r) ∧
        ∃ a ∈ h.rows.rows.map HostRow.shown, a.resource = r) ∨
      h.relation.delete names r = .error .notFound := by
  rw [Relation.delete, reader_idColumn hn]
  by_cases hany : (h.relation.rows.any fun row =>
      (HostTable.idColumn.read row).equals r.val) = true
  · refine .inl ⟨?_, exists_resource_iff.1 hany⟩
    refine (if_pos hany).trans ?_
    simp [equals_idColumn, HostTable.relation]
  · exact .inr (if_neg hany)

/-! ### Changing a table of others -/

theorem host?_setHost (d : Database) (t : HostTable) (name : String) :
    (d.setHost t).host? name =
      if Text.lower t.names.table = Text.lower name then (d.host? name).map fun _ => t
      else d.host? name := by
  simp only [host?, setHost]
  induction d.hosts with
  | nil => simp
  | cons a rest ih =>
    rw [List.map_cons, List.find?_cons, List.find?_cons]
    by_cases ha : Text.lower a.names.table = Text.lower t.names.table
    · rw [if_pos ha]
      by_cases ht : Text.lower t.names.table = Text.lower name
      · simp [ha, ht]
      · simp only [ha, ht, decide_false, if_false, ih]
    · rw [if_neg ha]
      by_cases hname : Text.lower a.names.table = Text.lower name
      · have ht : ¬ Text.lower t.names.table = Text.lower name := fun heq =>
          ha (hname.trans heq.symm)
        simp [hname, ht]
      · simp only [hname, decide_false, ih]

theorem name_eq (hn : d.Houses names h) : Text.lower h.names.table = Text.lower names.table := by
  simpa using List.find?_some hn.found

/-- With other rows in its table a kind has this table. -/
theorem Houses.setHost_self (hn : d.Houses names h) (rows : Table HostRow.resource) :
    (d.setHost { h with rows }).Houses names { h with rows } :=
  { hn with found := by rw [host?_setHost, if_pos (name_eq hn), hn.found]; rfl }

/-- A table of another name stays as it is. -/
theorem host?_setHost_of_ne (hn : d.Houses names h) (rows : Table HostRow.resource) {name : String}
    (hne : Text.lower names.table ≠ Text.lower name) :
    (d.setHost { h with rows }).host? name = d.host? name := by
  rw [host?_setHost, if_neg fun hname => hne ((name_eq hn).symm.trans hname)]

/-- With other rows in one table every kind has the table that it had. -/
theorem hosts_setHost (hn : d.Houses names h) (rows : Table HostRow.resource) (ho : d.Hosts n) :
    (d.setHost { h with rows }).Hosts n := by
  by_cases heq : Text.lower names.table = Text.lower n.table
  · have hfound : d.host? n.table = some h := host?_congr heq ▸ hn.found
    rcases ho with hlacks | ⟨h', ho⟩
    · exact (Option.some_ne_none h (hfound.symm.trans hlacks.absent)).elim
    · obtain rfl : h = h' := Option.some.inj (hfound.symm.trans ho.found)
      exact .inr ⟨{ h with rows }, ho.setHost_self rows⟩
  · have hsame := host?_setHost_of_ne hn rows heq
    exact ho.imp (fun hlacks => { hlacks with absent := hsame.trans hlacks.absent })
      fun ⟨h', ho⟩ => ⟨h', { ho with found := hsame.trans ho.found }⟩

theorem shownIn_setHost (hn : d.Houses names h) (rows : Table HostRow.resource) (name : String) :
    (d.setHost { h with rows }).shownIn name =
      if Text.lower names.table = Text.lower name then rows.rows.map HostRow.shown
      else d.shownIn name := by
  rw [shownIn, host?_setHost, name_eq hn]
  split
  · next heq =>
    rw [← host?_congr heq, hn.found]
    rfl
  · rfl

/-- A name that no table of the store has is that of a table of others. -/
theorem table?_of_foreign {name : String} (h : Text.lower name ∉ ownNames) :
    d.table? name = (d.host? name).map (.ofHost d) := by
  simp only [ownNames, List.mem_cons, List.not_mem_nil, or_false, not_or] at h
  obtain ⟨h₁, h₂, h₃, h₄, h₅, h₆, h₇, h₈⟩ := h
  rw [table?]
  split <;> simp_all

theorem table?_eq (hn : d.Houses names h) : d.table? names.table = some (.ofHost d h) := by
  rw [table?_of_foreign hn.foreign, hn.found]
  rfl

theorem tableFor_of_lacks (c : RegistryCall) (h : d.Lacks names.table) :
    ∃ e, d.tableFor names c = .error e := by
  have htable : d.table? names.table = none := by
    rw [table?_of_foreign h.foreign, h.absent]
    rfl
  rw [tableFor, htable]
  cases Statement.check names c with
  | ok => exact ⟨_, rfl⟩
  | error e => exact ⟨_, rfl⟩

/-- Without its table every call about a kind fails. -/
theorem performRegistry_of_lacks (c : RegistryCall) (h : d.Lacks (tables.table (kindOf c)).table) :
    ∃ e, d.performRegistry tables c = (.error e, d) := by
  obtain ⟨e, he⟩ := tableFor_of_lacks c h
  refine ⟨e, ?_⟩
  rw [performRegistry, he]
  cases c <;> rfl

/-- A readable statement is carried out in the table of others. -/
theorem performRegistry_eq (c : RegistryCall) (hn : d.Houses (tables.table (kindOf c)) h) :
    d.performRegistry tables c = d.performIn (.ofHost d h) (tables.table (kindOf c)) c ∨
      ∃ e, d.performRegistry tables c = (refuseRegistry c e, d) := by
  simp only [performRegistry, tableFor, table?_eq hn]
  cases Statement.check (tables.table (kindOf c)) c with
  | ok => exact .inl rfl
  | error e => exact .inr ⟨_, rfl⟩

/-- The resources of a kind are the rows of its table. -/
theorem resources_of_houses (hn : d.Houses (tables.table kind) h) :
    d.resources tables kind = h.rows.rows := by
  have htable : d.tableFor (tables.table kind) (.listRefs kind) = .ok (.ofHost d h) := by
    rw [tableFor, hn.readable kind, table?_eq hn]
    rfl
  simp only [resources, htable]
  rw [show (StoredTable.ofHost d h).relation.resources (tables.table kind) = _ from
    resources_eq hn]

/-- The references of a kind are what its table shows. -/
theorem resources_eq_shownIn (h : d.Hosts (tables.table kind)) :
    (d.resources tables kind).map HostRow.shown = d.shownIn (tables.table kind).table := by
  rcases h with hlacks | ⟨h, hn⟩
  · obtain ⟨e, he⟩ := tableFor_of_lacks (.listRefs kind) hlacks
    rw [resources, shownIn, hlacks.absent]
    simp only [he]
    rfl
  · rw [resources_of_houses hn, shownIn_eq hn]

/-- The tables of others show what they showed as long as they are the same. -/
theorem ShowsRefs.of_hosts_eq {d' : Database} {t : Ledger} (hl : d.ShowsRefs tables l)
    (hhosts : d'.hosts = d.hosts) (hrefs : t.refs = l.refs) (htable : t.table = l.table) :
    d'.ShowsRefs tables t := by
  have hsame (name : String) : d'.host? name = d.host? name := by rw [host?, host?, hhosts]
  refine ⟨fun k => htable ▸ hl.table k, fun k => ?_, fun k => ?_⟩
  · exact (hl.hosts k).imp (fun h => { h with absent := (hsame _).trans h.absent })
      fun ⟨h, hn⟩ => ⟨h, { hn with found := (hsame _).trans hn.found }⟩
  · rw [hrefs, hl.refs, shownIn, shownIn, hsame]

/-- With other rows in the table of one kind the tables show the ledger with other references of the
kinds in that table. -/
theorem showsRefs_setHost {t : Ledger} (hl : d.ShowsRefs tables l)
    (hn : d.Houses (tables.table kind) h) (rows : Table HostRow.resource)
    (hkind : t.refs kind = rows.rows.map HostRow.shown) (htable : t.table = l.table)
    (hother : ∀ k, l.table k ≠ l.table kind → t.refs k = l.refs k) :
    (d.setHost { h with rows }).ShowsRefs tables t := by
  refine ⟨fun k => htable ▸ hl.table k, fun k => hosts_setHost hn rows (hl.hosts k), fun k => ?_⟩
  rw [shownIn_setHost hn, ← hl.table, ← hl.table]
  split
  · next heq => rw [← hkind, t.together k kind (htable ▸ heq.symm)]
  · next hne => rw [hother k (Ne.symm hne), hl.refs k]

/-- A call about resources answers and changes what it does in the ledger, or fails without an
effect. -/
theorem performRegistry_shows (hl : d.ShowsRefs tables l) (c : RegistryCall) :
    (∃ v d' t, d.performRegistry tables c = (.ok v, d') ∧ l.GivesRegistry c v t ∧
      d'.ShowsRefs tables t ∧ ∃ hosts, d' = { d with hosts }) ∨
      ∃ e, d.performRegistry tables c = (.error e, d) := by
  rcases hl.hosts (kindOf c) with hlacks | ⟨h, hn⟩
  · exact .inr (performRegistry_of_lacks c hlacks)
  have hrefs : h.rows.rows.map HostRow.shown = l.refs (kindOf c) := by
    rw [hl.refs, shownIn_eq hn]
  rcases (performRegistry_eq c hn).symm with ⟨e, heq⟩ | heq
  · exact .inr ⟨e, heq⟩
  rw [heq]
  cases c with
  | listRefs kind =>
    have hlist : d.performIn (.ofHost d h) (tables.table kind) (.listRefs kind) =
        (.ok (h.rows.rows.map HostRow.shown), d) := by
      change (((h.relation.resources (tables.table kind)).map fun rows =>
        rows.map HostRow.shown).mapError DatabaseError.toStoreError, d) = _
      rw [show h.relation.resources (tables.table kind) = _ from resources_eq hn]
      rfl
    exact .inl ⟨_, d, l, hlist, ⟨hrefs, rfl⟩, hl, d.hosts, rfl⟩
  | findRef kind r =>
    rcases find_spec hn r with ⟨g, hfind, hmem⟩ | hfind
    · exact .inl ⟨g, d, l, Prod.ext hfind rfl, ⟨hrefs ▸ hmem, rfl⟩, hl, d.hosts, rfl⟩
    · exact .inr ⟨_, Prod.ext hfind rfl⟩
  | assign kind r g =>
    rcases assign_spec hn r g with ⟨rows, hassign, hsorted, hexists, hshown⟩ | ⟨e, hassign⟩
    · refine .inl ⟨(), d.setHost { h with rows := .ofRows rows }, l.assign kind ⟨r, g⟩, ?_,
        ⟨hrefs ▸ hexists, rfl⟩, showsRefs_setHost hl hn _ ?_ rfl fun k hk => if_neg hk, _, rfl⟩
      · simp only [performIn, StoredTable.ofHost, hassign]
      · rw [Table.rows_ofRows hsorted, hshown, hrefs]
        exact if_pos rfl
    · refine .inr ⟨e, ?_⟩
      simp only [performIn, StoredTable.ofHost, hassign]
  | delete kind r =>
    rcases delete_spec hn r with ⟨hdelete, hexists⟩ | hdelete
    · let rest := h.rows.rows.filter fun row => row.resource ≠ r
      refine .inl ⟨(), d.setHost { h with rows := .ofRows rest }, l.remove kind r, ?_,
        ⟨hrefs ▸ hexists, rfl⟩, showsRefs_setHost hl hn _ ?_ rfl fun k hk => if_neg hk, _, rfl⟩
      · simp only [performIn, StoredTable.ofHost, hdelete]
        rfl
      · rw [Table.rows_ofRows (h.rows.ascending.filter _)]
        refine (if_pos rfl).trans ?_
        rw [← hrefs, List.filter_map]
        rfl
    · refine .inr ⟨.notFound, ?_⟩
      simp only [performIn, StoredTable.ofHost, hdelete]

end Database

end AccessGroups
