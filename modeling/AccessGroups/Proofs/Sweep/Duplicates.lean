import AccessGroups.Program.World
import AccessGroups.Proofs.Program.Stateful
import AccessGroups.Proofs.Store.Effects
import AccessGroups.Proofs.Sweep.Collapse
import Mathlib.Data.List.Dedup

/-!
# How exactly rows are collapsed

The store reports the groups in which two rows agree in all columns, and the sweep deletes from
these groups every row whose grant a row with a lower identifier has. The store writes privileges as
ones and zeros. As long as all of them are written so, the two notions are the same: rows agree in
all columns but their identifiers exactly if they have the same grant.

## Main definitions

* `Entry.Repeated`: a row with a lower identifier has the same grant.
* `Entry.collapsed`: the rows without those of some groups that are repeated.
* `Sweep.repeated`, `Sweep.deleteEach`: the rows that a collapse deletes, one after another.
* `Backend.keep`: the store with some of its rows only.
* `Backend.Plain`: privileges are written as ones and zeros.

## Main results

* `Sweep.deleteRepeated_eq`, `Sweep.repeated_eq_filter`: a collapse deletes exactly the rows that
  are repeated.
* `Backend.Readable.performStore_findDuplicateGroups`: the groups that are reported.
* `Sweep.yields_collapseGroup`, `Sweep.exists_run_collapseGroup_iff`: the collapse of one group.
* `Sweep.yields_findDuplicates`, `Sweep.run_collapseDuplicates`: which groups are reported, and what
  the phase leaves.
-/

namespace AccessGroups

/-! ### Rows with the same grant -/

namespace Entry

variable {rows : List Entry} {e : Entry}

/-- A row with a lower identifier has the same grant. -/
def Repeated (rows : List Entry) (e : Entry) : Prop :=
  ∃ a ∈ rows, a.id < e.id ∧ a.toGrant = e.toGrant

instance (rows : List Entry) : DecidablePred (Repeated rows) :=
  fun e => inferInstanceAs (Decidable (∃ a ∈ rows, a.id < e.id ∧ a.toGrant = e.toGrant))

/-- After the first row, the others are repeated by it or among themselves. -/
theorem repeated_cons_iff {first : Entry} (h : first.id < e.id) :
    e.Repeated (first :: rows) ↔ first.toGrant = e.toGrant ∨ e.Repeated rows := by
  simp [Repeated, h]

/-- The first row is not repeated. -/
theorem not_repeated_first (h : ∀ a ∈ rows, e.id < a.id) : ¬ e.Repeated (e :: rows) := by
  rintro ⟨a, ha, hlt, -⟩
  rcases List.mem_cons.1 ha with rfl | ha
  · exact Identifier.lt_irrefl _ hlt
  · exact Identifier.lt_irrefl _ (Identifier.lt_trans hlt (h a ha))

/-- Rows that come later repeat none. -/
theorem repeated_append_iff {later : List Entry}
    (h : (rows ++ later).Pairwise fun a b => a.id < b.id) (he : e ∈ rows) :
    e.Repeated (rows ++ later) ↔ e.Repeated rows := by
  refine ⟨fun ⟨a, ha, hlt, heq⟩ => ⟨a, ?_, hlt, heq⟩, fun ⟨a, ha, h⟩ =>
    ⟨a, List.mem_append_left _ ha, h⟩⟩
  refine (List.mem_append.1 ha).resolve_right fun hlater => ?_
  have hbefore := (List.pairwise_append.1 h).2.2 e he a hlater
  exact Identifier.lt_irrefl _ (Identifier.lt_trans hlt hbefore)

/-- The group of a row decides whether it is repeated. -/
theorem repeated_filter_iff {p : Entry → Bool} (hp : ∀ a, a.group = e.group → p a = p e)
    (he : p e = true) : e.Repeated (rows.filter p) ↔ e.Repeated rows := by
  refine ⟨fun ⟨a, ha, h⟩ => ⟨a, (List.mem_filter.1 ha).1, h⟩, fun ⟨a, ha, hlt, heq⟩ => ?_⟩
  refine ⟨a, List.mem_filter.2 ⟨ha, ?_⟩, hlt, heq⟩
  rw [hp a (congrArg Grant.group heq), he]

/-- The rows without those of some groups that are repeated. -/
def collapsed (p : GroupId → Bool) (rows : List Entry) : List Entry :=
  rows.filter fun e => ¬ (p e.group ∧ e.Repeated rows)

theorem Repeated.of_collapsed {p : GroupId → Bool} (h : e.Repeated (collapsed p rows)) :
    e.Repeated rows := by
  obtain ⟨a, ha, h⟩ := h
  exact ⟨a, (List.mem_filter.1 ha).1, h⟩

variable (rows) in
/-- A row is left after two collapses if it is not repeated or in none of the groups. -/
theorem left_left_iff (p q : GroupId → Bool) (e : Entry) :
    (¬ (p e.group ∧ e.Repeated rows) ∧ ¬ (q e.group ∧ e.Repeated (collapsed p rows))) ↔
      ¬ ((p e.group ∨ q e.group) ∧ e.Repeated rows) := by
  by_cases hrep : e.Repeated rows
  · by_cases hp : p e.group = true
    · simp [hp, hrep]
    · -- the row that repeats it is in the same group, and so it is still there
      obtain ⟨a, ha, hlt, heq⟩ := hrep
      have hgroup : a.group = e.group := congrArg Grant.group heq
      have hstill : e.Repeated (collapsed p rows) :=
        ⟨a, List.mem_filter.2 ⟨ha, by simp [hgroup, hp]⟩, hlt, heq⟩
      simp [hp, hstill, hstill.of_collapsed]
  · have hnot : ¬ e.Repeated (collapsed p rows) := fun h => hrep h.of_collapsed
    simp [hrep, hnot]

/-- Groups may be collapsed one after another, since rows are repeated within their group. -/
theorem collapsed_collapsed (p q : GroupId → Bool) (rows : List Entry) :
    collapsed q (collapsed p rows) = collapsed (fun g => p g || q g) rows := by
  rw [collapsed, collapsed, List.filter_filter]
  refine List.filter_congr fun e _ => ?_
  have hiff := left_left_iff rows p q e
  simp only [Bool.or_eq_true, ← hiff, Bool.decide_and, Bool.and_comm]
  rfl

/-- Every grant is that of a row that is not repeated. -/
theorem exists_not_repeated (h : rows.Pairwise fun a b => a.id < b.id) (he : e ∈ rows) :
    ∃ a ∈ rows, a.toGrant = e.toGrant ∧ ¬ a.Repeated rows := by
  induction rows with
  | nil => cases he
  | cons first rest ih =>
    obtain ⟨hfirst, hrest⟩ := List.pairwise_cons.1 h
    by_cases hsame : first.toGrant = e.toGrant
    · exact ⟨first, List.mem_cons_self, hsame, not_repeated_first hfirst⟩
    · have hmem : e ∈ rest := (List.mem_cons.1 he).resolve_left fun heq => hsame (by rw [heq])
      obtain ⟨a, ha, hgrant, hnot⟩ := ih hrest hmem
      refine ⟨a, List.mem_cons_of_mem _ ha, hgrant, ?_⟩
      rw [repeated_cons_iff (hfirst a ha), hgrant]
      exact not_or.2 ⟨hsame, hnot⟩

/-- There are as many rows that are not repeated as there are different grants. -/
theorem length_filter_not_repeated (h : rows.Pairwise fun a b => a.id < b.id) :
    (rows.filter fun e => ¬ e.Repeated rows).length = (rows.map Entry.toGrant).dedup.length := by
  have hnodup : ((rows.filter fun e => ¬ e.Repeated rows).map Entry.toGrant).Nodup := by
    refine List.pairwise_map.2 ((h.filter _).imp_of_mem fun {a b} ha hb hlt heq => ?_)
    have hb' := (List.mem_filter.1 hb).2
    simp only [decide_eq_true_eq] at hb'
    exact hb' ⟨a, (List.mem_filter.1 ha).1, hlt, heq⟩
  have hsame (x : Grant) : x ∈ (rows.filter fun e => ¬ e.Repeated rows).map Entry.toGrant ↔
      x ∈ (rows.map Entry.toGrant).dedup := by
    simp only [List.mem_dedup, List.mem_map, List.mem_filter, decide_eq_true_eq]
    constructor
    · rintro ⟨e, ⟨he, -⟩, rfl⟩
      exact ⟨e, he, rfl⟩
    · rintro ⟨e, he, rfl⟩
      obtain ⟨a, ha, hgrant, hnot⟩ := exists_not_repeated h he
      exact ⟨a, ⟨ha, hnot⟩, hgrant⟩
  have hperm := (List.perm_ext_iff_of_nodup hnodup (List.nodup_dedup _)).2 hsame
  simpa using hperm.length_eq

end Entry

/-! ### What a collapse deletes -/

namespace Sweep

/-- The rows whose grants are among those kept before them. -/
def repeated : List Grant → List Entry → List Entry
  | _, [] => []
  | kept, e :: rest =>
    if e.toGrant ∉ kept then repeated (e.toGrant :: kept) rest else e :: repeated kept rest

/-- Delete rows one after another; rows that are gone are not counted. -/
def deleteEach : Nat → List Entry → Prog (Except StoreError Nat)
  | removed, [] => return .ok removed
  | removed, e :: rest => do
    match ← Prog.store (.deleteEntry e.id) with
    | .ok () => deleteEach (removed + 1) rest
    | .error .notFound => deleteEach removed rest
    | .error e => return .error e

/-- Which rows are deleted does not depend on the answers. -/
theorem deleteRepeated_eq (kept : List Grant) (removed : Nat) (items : List Entry) :
    deleteRepeated kept removed items = deleteEach removed (repeated kept items) := by
  induction items generalizing kept removed with
  | nil => rfl
  | cons e rest ih =>
    rw [deleteRepeated, repeated]
    split
    · exact ih _ _
    · rw [deleteEach]
      refine congrArg _ (funext fun x => ?_)
      rcases x with (_ | _ | _) | _
      · exact ih _ _
      · rfl
      · rfl
      · exact ih _ _

theorem repeated_eq_filter {items : List Entry} (h : items.Pairwise fun a b => a.id < b.id)
    (kept : List Grant) :
    repeated kept items = items.filter fun e => e.toGrant ∈ kept ∨ e.Repeated items := by
  induction items generalizing kept with
  | nil => rfl
  | cons e rest ih =>
    obtain ⟨hlt, hrest⟩ := List.pairwise_cons.1 h
    have hfirst := Entry.not_repeated_first hlt
    rw [repeated]
    split
    · next hnew =>
      rw [ih hrest, List.filter_cons_of_neg (by simpa using ⟨hnew, hfirst⟩)]
      refine List.filter_congr fun a ha => ?_
      simp only [List.mem_cons, Entry.repeated_cons_iff (hlt a ha), eq_comm (a := e.toGrant),
        or_assoc, or_left_comm]
    · next hold =>
      have hmem : e.toGrant ∈ kept := not_not.1 hold
      rw [ih hrest, List.filter_cons_of_pos (by simpa using .inl hmem)]
      refine congrArg _ (List.filter_congr fun a ha => ?_)
      have hsame : e.toGrant = a.toGrant → a.toGrant ∈ kept := fun heq => heq ▸ hmem
      simp only [Entry.repeated_cons_iff (hlt a ha), decide_eq_decide]
      tauto

/-- All that is deleted of a group are its repeated rows. -/
theorem repeated_group {rows : List Entry} (h : rows.Pairwise fun a b => a.id < b.id)
    (g : GroupId) : repeated [] (rows.filter fun e => e.group = g) =
      rows.filter fun e => e.group = g ∧ e.Repeated rows := by
  rw [repeated_eq_filter (h.filter _), List.filter_filter]
  refine List.filter_congr fun e _ => ?_
  by_cases hg : e.group = g
  · have hiff : e.Repeated (rows.filter fun a => a.group = g) ↔ e.Repeated rows :=
      Entry.repeated_filter_iff (fun a ha => by rw [ha]) (by simpa using hg)
    simp [hg, hiff]
  · simp [hg]

end Sweep

/-! ### Stores of either kind -/

namespace Backend

variable {b : Backend} {p q : Entry → Bool} {id : EntryId} {g : GroupId}

/-- The table of the rows is there. -/
def Readable : Backend → Prop
  | .memory _ _ => True
  | .database _ d => ∃ t, d.entries = some t

/-- The store with those of its rows that satisfy a condition, and everything else as it is. -/
def keep (p : Entry → Bool) : Backend → Backend
  | .memory s r => .memory { s with entries := s.entries.filter p } r
  | .database tables d => .database tables { d with entries := d.entries.map fun t => t.filter p }

/-- Two rows agree in all columns but the one of the identifier. -/
def agree : Backend → Entry → Entry → Bool
  | .memory _ _, x, y => x.sameGrant y
  | .database _ d, x, y => d.sameColumns x y

/-- The privileges of the rows are written as ones and zeros. -/
def Plain : Backend → Prop
  | .memory _ _ => True
  | .database _ d =>
    ∀ t, d.entries = some t → ∀ e ∈ t.rows, d.marksOf e = .ofPrivileges e.privileges

theorem entries_keep (p : Entry → Bool) (b : Backend) :
    (b.keep p).entries = b.entries.filter p := by
  cases b with
  | memory s r => rfl
  | database tables d =>
    rcases hd : d.entries with _ | t <;> simp [keep, entries, hd, Table.filter]

theorem Readable.keep (h : b.Readable) (p : Entry → Bool) : (b.keep p).Readable := by
  cases b with
  | memory s r => trivial
  | database tables d =>
    obtain ⟨t, ht⟩ := h
    exact ⟨t.filter p, congrArg (Option.map _) ht⟩

theorem keep_keep (p q : Entry → Bool) (b : Backend) :
    (b.keep p).keep q = b.keep fun e => p e && q e := by
  have htable (t : Table Entry.id) : (t.filter p).filter q = t.filter fun e => p e && q e :=
    Table.ext (by simp only [Table.filter, List.filter_filter, Bool.and_comm])
  cases b with
  | memory s r => simp only [Backend.keep, htable]
  | database tables d =>
    simp only [Backend.keep, Option.map_map]
    congr 3
    exact funext htable

/-- Conditions that agree on the rows keep the same. -/
theorem keep_congr (h : ∀ e ∈ b.entries, p e = q e) : b.keep p = b.keep q := by
  have htable {t : Table Entry.id} (h : ∀ e ∈ t.rows, p e = q e) : t.filter p = t.filter q :=
    Table.ext (List.filter_congr h)
  cases b with
  | memory s r => simp only [Backend.keep, htable h]
  | database tables d =>
    rcases hd : d.entries with _ | t
    · simp only [Backend.keep, hd, Option.map_none]
    · have hrows : ∀ e ∈ t.rows, p e = q e := by simpa [entries, hd] using h
      simp only [Backend.keep, hd, Option.map_some, htable hrows]

theorem keep_of_forall (h : ∀ e ∈ b.entries, p e = true) : b.keep p = b := by
  have htable (t : Table Entry.id) : t.filter (fun _ => true) = t :=
    Table.ext (List.filter_eq_self.2 fun _ _ => rfl)
  rw [keep_congr (q := fun _ => true) h]
  cases b with
  | memory s r => simp only [Backend.keep, htable]
  | database tables d => simp only [Backend.keep, htable, Option.map_id']

/-- If privileges are written as ones and zeros, rows agree if they have the same grant. -/
theorem Plain.agree_iff (h : b.Plain) {x y : Entry} (hx : x ∈ b.entries) (hy : y ∈ b.entries) :
    b.agree x y = true ↔ x.toGrant = y.toGrant := by
  cases b with
  | memory s r => exact Entry.sameGrant_iff
  | database tables d =>
    rcases hd : d.entries with _ | t
    · simp [entries, hd] at hx
    · have hmarks (e : Entry) (he : e ∈ (database tables d).entries) :
          d.marksOf e = .ofPrivileges e.privileges := h t hd e (by simpa [entries, hd] using he)
      rw [agree, Database.sameColumns, hmarks x hx, hmarks y hy, Bool.and_eq_true,
        decide_eq_true_eq, decide_eq_true_eq, and_iff_left_of_imp]
      exact fun heq => congrArg (fun g : Grant => Marks.ofPrivileges g.privileges) heq

/-- The rows of some groups that are repeated. -/
def repeatedIn (p : GroupId → Bool) (b : Backend) : List Entry :=
  b.entries.filter fun e => p e.group ∧ e.Repeated b.entries

/-- The store without the rows of some groups that are repeated. -/
def collapse (p : GroupId → Bool) (b : Backend) : Backend :=
  b.keep fun e => ¬ (p e.group ∧ e.Repeated b.entries)

theorem entries_collapse (p : GroupId → Bool) (b : Backend) :
    (b.collapse p).entries = Entry.collapsed p b.entries :=
  entries_keep _ b

theorem length_repeatedIn (p : GroupId → Bool) (b : Backend) :
    (b.repeatedIn p).length + (b.collapse p).entries.length = b.entries.length := by
  rw [entries_collapse, repeatedIn, Entry.collapsed,
    List.length_eq_length_filter_add (l := b.entries) fun e => p e.group ∧ e.Repeated b.entries]
  simp

/-- Groups may be collapsed one after another. -/
theorem collapse_collapse (p q : GroupId → Bool) (b : Backend) :
    (b.collapse p).collapse q = b.collapse fun g => p g || q g := by
  rw [collapse, entries_collapse, collapse, collapse, keep_keep]
  refine keep_congr fun e _ => ?_
  have hiff := Entry.left_left_iff b.entries p q e
  simp only [Bool.or_eq_true, ← hiff, Bool.decide_and]

/-- If all groups with rows that are repeated are collapsed, only the other rows are left. -/
theorem collapse_eq_keep {groups : List GroupId}
    (h : ∀ e ∈ b.entries, e.Repeated b.entries → e.group ∈ groups) :
    b.collapse (· ∈ groups) = b.keep fun e => ¬ e.Repeated b.entries := by
  refine keep_congr fun e he => ?_
  simp only [decide_eq_true_eq, and_iff_right_of_imp (h e he)]

/-! ### Calls -/

theorem Readable.performStore_findGroup (hb : b.Readable) : b.performStore (.findGroup g) =
    some (.ok (b.entries.filter fun e => e.group = g), b) := by
  cases b with
  | memory s r => rfl
  | database tables d =>
    obtain ⟨t, ht⟩ := hb
    rw [performStore, Database.performStore_eq ht, entries, ht]
    rfl

/-- The groups that are reported are those in which two rows agree in all columns. -/
theorem Readable.performStore_findDuplicateGroups (hb : b.Readable) : ∃ groups,
    b.performStore .findDuplicateGroups = some (.ok groups, b) ∧ groups.Pairwise (· < ·) ∧
      ∀ g, g ∈ groups ↔
        ∃ x ∈ b.entries, ∃ y ∈ b.entries, x.id < y.id ∧ b.agree x y = true ∧ x.group = g := by
  cases b with
  | memory s r =>
    refine ⟨_, rfl, s.pairwise_duplicateGroups, fun g => ?_⟩
    simp only [agree, Entry.sameGrant_iff]
    exact s.mem_duplicateGroups_iff
  | database tables d =>
    obtain ⟨t, ht⟩ := hb
    refine ⟨d.duplicateGroups t, ?_, Identifier.pairwise_distinct _, fun g => ?_⟩
    · rw [performStore, Database.performStore_eq ht]
      rfl
    · rw [Database.mem_duplicateGroups_iff, entries, ht]
      rfl

/-- A row that is there can be deleted. -/
theorem Readable.performStore_deleteEntry (hb : b.Readable) {e : Entry} (he : e ∈ b.entries) :
    b.performStore (.deleteEntry e.id) = some (.ok (), b.keep fun a => a.id ≠ e.id) := by
  cases b with
  | memory s r =>
    have hthere : s.entries.contains e.id = true := Table.contains_iff.2 ⟨e, he, rfl⟩
    rw [performStore, MemoryStore.perform, if_pos hthere]
    rfl
  | database tables d =>
    obtain ⟨t, ht⟩ := hb
    have hthere : t.contains e.id = true :=
      Table.contains_iff.2 ⟨e, by simpa [entries, ht] using he, rfl⟩
    rw [performStore, Database.performStore_eq ht, Database.performRows, if_pos hthere,
      Backend.keep, ht]
    rfl

end Backend

/-! ### Runs -/

namespace World

variable {w v : World} {α : Type}

/-- A call that the store answers. -/
theorem yields_store {c : StoreCall} {x : c.Answer} {b : Backend}
    (h : w.backend.performStore c = some (x, b)) :
    (Prog.store c).Yields handle w x { w with backend := b } := by
  have hhandle : handle w (.call (.store c)) = (some x, { w with backend := b }) := by
    simp only [handle, answer, h]
  exact Prog.yields_perform hhandle fun _ => rfl

theorem yields_log (w : World) (e : Event) : (Prog.log e).Yields handle w () (w.say e) :=
  Prog.yields_perform rfl fun _ => rfl

end World

namespace Sweep

variable {w : World} {g : GroupId}

/-- Rows that are there can be deleted one after another. -/
theorem yields_deleteEach (hb : w.backend.Readable) (removed : Nat) (items : List Entry)
    (hitems : ∀ e ∈ items, e ∈ w.backend.entries)
    (hascending : items.Pairwise fun a b => a.id < b.id) :
    (deleteEach removed items).Yields World.handle w (.ok (removed + items.length))
      { w with backend := w.backend.keep fun e => e ∉ items } := by
  induction items generalizing removed w with
  | nil =>
    have hall : w.backend.keep (fun e => e ∉ ([] : List Entry)) = w.backend :=
      Backend.keep_of_forall fun _ _ => by simp
    rw [hall]
    exact Prog.yields_pure _ w
  | cons e rest ih =>
    obtain ⟨hlt, hrest⟩ := List.pairwise_cons.1 hascending
    let after := w.backend.keep fun a => a.id ≠ e.id
    have he : e ∈ w.backend.entries := hitems e List.mem_cons_self
    have hthere : ∀ a ∈ rest, a ∈ after.entries := by
      intro a ha
      rw [Backend.entries_keep, List.mem_filter]
      refine ⟨hitems a (List.mem_cons_of_mem _ ha), ?_⟩
      have hne : a.id ≠ e.id := fun heq => Identifier.lt_irrefl _ (heq ▸ hlt a ha)
      simpa using hne
    have hboth : after.keep (fun a => a ∉ rest) = w.backend.keep fun a => a ∉ e :: rest := by
      rw [Backend.keep_keep]
      refine Backend.keep_congr fun a ha => ?_
      have hid : a.id = e.id ↔ a = e :=
        ⟨Identifier.eq_of_ascending w.backend.ascending_entries ha he, fun heq => by rw [heq]⟩
      simp [hid]
    rw [deleteEach]
    refine (World.yields_store (hb.performStore_deleteEntry he)).bind ?_
    have hgo := ih (w := { w with backend := after }) (hb.keep _) (removed + 1) hthere hrest
    rw [hboth, Nat.add_assoc, Nat.add_comm 1] at hgo
    exact hgo

/-- The collapse of a group deletes its repeated rows, and nothing else. -/
theorem yields_collapseGroup (hb : w.backend.Readable) (g : GroupId) :
    (collapseGroup g).Yields World.handle w (.ok (w.backend.repeatedIn (· = g)).length)
      { w with backend := w.backend.collapse (· = g) } := by
  have hascending := w.backend.ascending_entries
  have hrows : repeated [] (w.backend.entries.filter fun e => e.group = g) =
      w.backend.repeatedIn (· = g) := by
    rw [repeated_group hascending]
    simp only [Backend.repeatedIn, decide_eq_true_eq]
  have hkeep : w.backend.keep (fun e => e ∉ w.backend.repeatedIn (· = g)) =
      w.backend.collapse (· = g) :=
    Backend.keep_congr fun e he => by simp [Backend.repeatedIn, he]
  refine (World.yields_store hb.performStore_findGroup).bind ?_
  dsimp only
  rw [sortRows_eq (hascending.filter _), deleteRepeated_eq, hrows]
  have hgo := yields_deleteEach hb 0 (w.backend.repeatedIn (· = g))
    (fun e he => (List.mem_filter.1 he).1) (hascending.filter _)
  rw [hkeep, Nat.zero_add] at hgo
  exact hgo

/-- A collapse of a group deletes some row exactly if one of them is repeated. -/
theorem exists_run_collapseGroup_iff (hb : w.backend.Readable) (g : GroupId) :
    (∃ m > 0, (w.run (collapseGroup g)).1 = some (.ok m)) ↔
      ∃ e ∈ w.backend.entries, e.group = g ∧ e.Repeated w.backend.entries := by
  have hrun : (w.run (collapseGroup g)).1 = some (.ok (w.backend.repeatedIn (· = g)).length) :=
    congrArg Prod.fst (yields_collapseGroup hb g).runIn_eq
  have hsome : 0 < (w.backend.repeatedIn (· = g)).length ↔
      ∃ e ∈ w.backend.entries, e.group = g ∧ e.Repeated w.backend.entries := by
    rw [List.length_pos_iff_exists_mem]
    simp [Backend.repeatedIn]
  rw [hrun, ← hsome]
  constructor
  · rintro ⟨m, hm, heq⟩
    cases heq
    exact hm
  · exact fun hlength => ⟨_, hlength, rfl⟩

/-! ### The phase -/

theorem yields_checkpoint {r : Summary} (hw : w.cancelled = false) :
    (checkpoint r).Yields World.handle w r w := by
  have hpoll : (Prog.perform .poll).Yields World.handle w false w :=
    Prog.yields_perform (congrArg (fun b => (some b, w)) hw) fun _ => rfl
  exact hpoll.bind (Prog.yields_pure r w)

/-- Count rows as deleted because they were repeated. -/
def addDeleted (n : Nat) (r : Summary) : Summary :=
  { r with deletedDuplicateEntries := r.deletedDuplicateEntries + n }

/-- Collapsing one group counts the rows that it deletes. -/
theorem yields_collapseItem (hb : w.backend.Readable) (g : GroupId) (r : Summary) :
    ∃ v, (collapseItem g r).Yields World.handle w
        (addDeleted (w.backend.repeatedIn (· = g)).length r) v ∧
      v.cancelled = w.cancelled ∧ v.backend = w.backend.collapse (· = g) := by
  let after := { w with backend := w.backend.collapse (· = g) }
  have hgroup : (collapseGroup g).Yields World.handle w _ after := yields_collapseGroup hb g
  by_cases hsome : 0 < (w.backend.repeatedIn (· = g)).length
  · refine ⟨after.say (.duplicatesCollapsed g (w.backend.repeatedIn (· = g)).length),
      hgroup.bind ?_, rfl, rfl⟩
    dsimp only
    rw [if_pos hsome]
    exact (World.yields_log after _).bind (Prog.yields_pure _ _)
  · refine ⟨after, hgroup.bind ?_, rfl, rfl⟩
    dsimp only
    rw [if_neg hsome]
    exact Prog.yields_pure _ _

/-- Collapsing groups one after another counts the rows that are deleted. -/
theorem yields_collapseItems (hb : w.backend.Readable) (hw : w.cancelled = false)
    (groups : List GroupId) {r : Summary} (hr : r.cancelled = false) :
    ∃ v, (forItems collapseItem groups r).Yields World.handle w
        (addDeleted (w.backend.repeatedIn (· ∈ groups)).length r) v ∧
      v.backend = w.backend.collapse (· ∈ groups) := by
  induction groups generalizing w r with
  | nil =>
    refine ⟨w, ?_, (Backend.keep_of_forall fun e _ => by simp).symm⟩
    have hnone : w.backend.repeatedIn (· ∈ ([] : List GroupId)) = [] := by
      simp [Backend.repeatedIn]
    rw [hnone]
    exact Prog.yields_pure r w
  | cons g rest ih =>
    obtain ⟨v, hitem, hv, hbackend⟩ := yields_collapseItem hb g r
    have hreadable : v.backend.Readable := hbackend ▸ hb.keep _
    obtain ⟨u, hrest, hu⟩ := ih hreadable (hv.trans hw)
      (r := addDeleted (w.backend.repeatedIn (· = g)).length r) hr
    have hcollapse : u.backend = w.backend.collapse (· ∈ g :: rest) := by
      rw [hu, hbackend, Backend.collapse_collapse]
      refine Backend.keep_congr fun e _ => ?_
      simp
    have hcount : (w.backend.repeatedIn (· = g)).length +
        (v.backend.repeatedIn (· ∈ rest)).length =
          (w.backend.repeatedIn (· ∈ g :: rest)).length := by
      have hfirst := w.backend.length_repeatedIn (· = g)
      have hothers := v.backend.length_repeatedIn (· ∈ rest)
      have hall := w.backend.length_repeatedIn (· ∈ g :: rest)
      rw [← hbackend] at hfirst
      rw [← hu] at hothers
      rw [← hcollapse] at hall
      omega
    refine ⟨u, ?_, hcollapse⟩
    rw [← hcount]
    refine (yields_checkpoint hw).bind ?_
    rw [hr]
    have hsum (m n : Nat) : addDeleted (m + n) r = addDeleted n (addDeleted m r) := by
      simp only [addDeleted, Nat.add_assoc]
    rw [hsum]
    exact hitem.bind hrest

/-- Where privileges are written as ones and zeros, the groups with rows that agree are those with
rows that are repeated. -/
theorem exists_agree_iff {b : Backend} (h : b.Plain) (g : GroupId) :
    (∃ x ∈ b.entries, ∃ y ∈ b.entries, x.id < y.id ∧ b.agree x y = true ∧ x.group = g) ↔
      ∃ e ∈ b.entries, e.group = g ∧ e.Repeated b.entries := by
  constructor
  · rintro ⟨x, hx, y, hy, hlt, hagree, rfl⟩
    have heq := (h.agree_iff hx hy).1 hagree
    exact ⟨y, hy, congrArg Grant.group heq.symm, x, hx, hlt, heq⟩
  · rintro ⟨y, hy, rfl, x, hx, hlt, heq⟩
    exact ⟨x, hx, y, hy, hlt, (h.agree_iff hx hy).2 heq, congrArg Grant.group heq⟩

/-- Where privileges are written as ones and zeros, the groups with rows that are repeated are
reported, in ascending order. -/
theorem yields_findDuplicates (hb : w.backend.Readable) (hplain : w.backend.Plain) : ∃ groups,
    Groups.findDuplicates.Yields World.handle w (.ok groups) w ∧ groups.Pairwise (· < ·) ∧
      ∀ g, g ∈ groups ↔ ∃ e ∈ w.backend.entries, e.group = g ∧ e.Repeated w.backend.entries := by
  obtain ⟨groups, hcall, hascending, hgroups⟩ := hb.performStore_findDuplicateGroups
  exact ⟨groups, (World.yields_store hcall).bind (Prog.yields_pure _ _), hascending,
    fun g => (hgroups g).trans (exists_agree_iff hplain g)⟩

/-- The store reports, in ascending order, exactly the groups in which a collapse deletes some row.
The phase leaves of every grant exactly the row with the lowest identifier and changes nothing else,
and it counts the rows that it deletes. -/
theorem run_collapseDuplicates (hb : w.backend.Readable) (hplain : w.backend.Plain) :
    (∃ groups, w.run Groups.findDuplicates = (some (.ok groups), w) ∧ groups.Pairwise (· < ·) ∧
      ∀ g, g ∈ groups ↔ ∃ m > 0, (w.run (collapseGroup g)).1 = some (.ok m)) ∧
    (w.cancelled = false → ∀ r : Summary, r.cancelled = false → ∃ n v,
      w.run (collapseDuplicates r) = (some (addDeleted n r), v) ∧
      v.backend = w.backend.keep (fun e => ¬ e.Repeated w.backend.entries) ∧
      n + (w.backend.entries.map Entry.toGrant).dedup.length = w.backend.entries.length) := by
  obtain ⟨groups, hfind, hascending, hgroups⟩ := yields_findDuplicates hb hplain
  refine ⟨⟨groups, hfind.runIn_eq, hascending, fun g =>
    (hgroups g).trans (exists_run_collapseGroup_iff hb g).symm⟩, fun hw r hr => ?_⟩
  obtain ⟨v, hitems, hv⟩ := yields_collapseItems hb hw groups hr
  have hphase : (collapseDuplicates r).Yields World.handle w
      (addDeleted (w.backend.repeatedIn (· ∈ groups)).length r) v := by
    refine (yields_checkpoint hw).bind ?_
    rw [hr]
    exact hfind.bind hitems
  have hleft : v.backend = w.backend.keep fun e => ¬ e.Repeated w.backend.entries := by
    rw [hv]
    exact Backend.collapse_eq_keep fun e he hrep => (hgroups e.group).2 ⟨e, he, rfl, hrep⟩
  refine ⟨_, v, hphase.runIn_eq, hleft, ?_⟩
  rw [← Entry.length_filter_not_repeated w.backend.ascending_entries, ← Backend.entries_keep,
    ← hleft, hv]
  exact w.backend.length_repeatedIn (· ∈ groups)

/-- A database with a grant that three rows have. -/
def repetitive : World where
  backend := .database .standard
    { entries := some (.ofRows [
        ⟨⟨⟨5⟩, some ⟨1⟩, none, Privilege.read.mask⟩, ⟨1⟩⟩,
        ⟨⟨⟨5⟩, some ⟨1⟩, none, Privilege.read.mask⟩, ⟨2⟩⟩,
        ⟨⟨⟨5⟩, none, some ⟨1⟩, Privilege.read.mask⟩, ⟨3⟩⟩,
        ⟨⟨⟨5⟩, some ⟨1⟩, none, Privilege.read.mask⟩, ⟨4⟩⟩]) }

/-- The grant is left in the row with the lowest identifier. -/
theorem run_collapseDuplicates_repetitive : ∃ v,
    repetitive.run (collapseDuplicates {}) = (some { deletedDuplicateEntries := 2 }, v) ∧
      v.backend.entries.map (fun e => e.id) = [⟨1⟩, ⟨3⟩] := by
  have hplain : repetitive.backend.Plain := fun t _ e _ => Database.marksOf_eq rfl e
  obtain ⟨-, hphase⟩ := run_collapseDuplicates (w := repetitive) ⟨_, rfl⟩ hplain
  obtain ⟨n, v, hrun, hleft, hcount⟩ := hphase rfl {} rfl
  have hrows : repetitive.backend.entries.length = 4 := by decide +kernel
  have hgrants : (repetitive.backend.entries.map Entry.toGrant).dedup.length = 2 := by
    decide +kernel
  obtain rfl : n = 2 := by omega
  refine ⟨v, hrun, ?_⟩
  rw [hleft, Backend.entries_keep]
  decide +kernel

end Sweep

end AccessGroups
