import AccessGroups.Proofs.Store.Allocation
import AccessGroups.Proofs.Store.Numbering

/-!
# What calls do to rows

A successful call brings rows and groups with identifiers above all there are, and does to the other
rows nothing but what it says. For this the counter for the identifiers of rows has to be ahead of
the rows, as it always is unless somebody tampers with it. A database may be in any state otherwise.

## Main definitions

* `Backend.Regular`: the counters that a store trusts are ahead of the rows.
* `StoreCall.Effect`: the answer to a successful call, and the rows that it leaves.

## Main results

* `Backend.effect_performStore`: what a successful call does to the rows.
* `Backend.Regular.allocateGroup`: a group identifier can be handed out before.
* `Backend.counts_of_allocateGroup`: the counter of groups ascends.
-/

namespace AccessGroups

/-! ### Groups that are filled -/

namespace Entry

variable {rows stored : List Entry} {g f : GroupId}

/-- Rows that are put in the place of a group are the group. -/
theorem filter_group_append (hgroup : ∀ e ∈ stored, e.group = g) :
    (((rows.filter fun e => e.group ≠ g) ++ stored).filter fun e => e.group = g) = stored := by
  have hgone : ((rows.filter fun e => e.group ≠ g).filter fun e => e.group = g) = [] := by
    simp [List.filter_filter]
  have hall : (stored.filter fun e => e.group = g) = stored := by
    simpa [List.filter_eq_self] using hgroup
  rw [List.filter_append, hgone, hall, List.nil_append]

/-- Rows that are put in the place of a group leave the other groups as they were. -/
theorem filter_others_append (hgroup : ∀ e ∈ stored, e.group = g) :
    (((rows.filter fun e => e.group ≠ g) ++ stored).filter fun e => e.group ≠ g) =
      rows.filter fun e => e.group ≠ g := by
  have hnone : (stored.filter fun e => e.group ≠ g) = [] := by
    simpa [List.filter_eq_nil_iff] using hgroup
  rw [List.filter_append, hnone, List.append_nil, List.filter_filter]
  simp only [Bool.and_self]

/-- A group is one of the others. -/
theorem filter_group_of_ne (hne : f ≠ g) :
    ((rows.filter fun e => e.group ≠ g).filter fun e => e.group = f) =
      rows.filter fun e => e.group = f := by
  rw [List.filter_filter]
  refine List.filter_congr fun e _ => ?_
  by_cases he : e.group = f <;> simp [he, hne]

end Entry

/-! ### What calls answer and leave -/

/-- The counters that the store trusts are ahead of the rows: those for rows always, and in memory
the one for groups. -/
def Backend.Regular : Backend → Prop
  | .memory s _ => (∀ e ∈ s.entries.rows, e.id.val < s.nextEntry) ∧ 0 < s.nextGroup
  | .database _ d => ∀ t, d.entries = some t → ∀ e ∈ t.rows, e.id.val ≤ d.lastEntry.getD 0

theorem Backend.Sound.regular {b : Backend} (h : b.Sound) : b.Regular := by
  cases b with
  | memory s r => exact h
  | database tables d => exact h.counted.1

/-- What a successful call answers, and the rows that it leaves. -/
def StoreCall.Effect (rows : List Entry) : (c : StoreCall) → c.Value → List Entry → Prop
  | .findGroup g, v, t => v = rows.filter (fun e => e.group = g) ∧ t = rows
  | .insert grant, v, t => v.toGrant = grant ∧ (∀ a ∈ rows, a.id < v.id) ∧ t = rows ++ [v]
  | .deleteGroup g, n, t =>
    n = (rows.filter fun e => e.group = g).length ∧ t = rows.filter fun e => e.group ≠ g
  | .replaceGroup g grants, v, t =>
    v.map Entry.toGrant = grants ∧ (∀ a ∈ rows, ∀ e ∈ v, a.id < e.id) ∧
      t = (rows.filter fun e => e.group ≠ g) ++ v
  | .allocateGroup, g, t => (∀ e ∈ rows, e.group < g) ∧ t = rows
  | c, v, t => c.Alters rows v t

variable {c : StoreCall} {v : c.Value}

/-- What a call does to a ledger, it does to the rows. -/
theorem Ledger.Gives.effect {l t : Ledger} (h : l.Gives c v t) : c.Effect l.rows v t.rows := by
  cases c with
  | findAll => exact ⟨h.1, congrArg rows h.2⟩
  | findGroup => exact ⟨h.1, congrArg rows h.2⟩
  | findMixed => exact ⟨h.1, congrArg rows h.2⟩
  | findDuplicateGroups => exact congrArg rows h.2.2
  | insert grant =>
    obtain ⟨hgrant, hasc, rfl⟩ := h
    exact ⟨hgrant, fun a ha => (List.pairwise_append.1 hasc).2.2 a ha v List.mem_cons_self, rfl⟩
  | update e =>
    obtain ⟨hthere, -, rfl⟩ := h
    exact ⟨hthere, rfl⟩
  | deleteEntry id =>
    obtain ⟨hthere, -, rfl⟩ := h
    exact ⟨hthere, rfl⟩
  | deleteGroup g =>
    obtain ⟨hcount, -, rfl⟩ := h
    exact ⟨hcount, rfl⟩
  | replaceGroup g grants =>
    obtain ⟨hgrants, habove, -, rfl⟩ := h
    exact ⟨hgrants, habove, rfl⟩
  | allocateGroup =>
    obtain ⟨hfree, -, -, rfl⟩ := h
    exact ⟨fun e he => Identifier.lt_iff_toInt.2 (hfree.2 e he), rfl⟩

/-! ### In a database -/

/-- No word is above the largest one. -/
theorem Int64.toInt_le_largest {words : List Int64} {a : Int64} (h : a ∈ words) :
    a.toInt ≤ (words.max?.getD 0).toInt := by
  cases words with
  | nil => cases h
  | cons b rest =>
    rw [List.max?_cons', Option.getD_some]
    exact Int.lt_add_one_iff.1 ((Int64.toInt_foldl_max_lt_iff b rest).1 (Int.lt_succ _) a h)

namespace Database

variable {d d' : Database} {t : Table Entry.id} {grants : List Grant}

/-- A row that is stored comes after all others, and the counter follows it. -/
theorem effect_insert {grant : Grant} {stored : Entry}
    (hcounted : ∀ a ∈ t.rows, a.id.val ≤ d.lastEntry.getD 0)
    (h : d.insert t grant = .ok (stored, d')) :
    stored.toGrant = grant ∧ d.lastEntry.getD 0 < stored.id.val ∧
      d'.lastEntry = some stored.id.val ∧
      ∃ t', d'.entries = some t' ∧ t'.rows = t.rows ++ [stored] := by
  obtain ⟨hgrant, hentries, -⟩ := entries_of_insert h
  have hcounter : d.lastEntry.getD 0 < stored.id.val ∧ d'.lastEntry = some stored.id.val := by
    rw [insert] at h
    split at h <;> cases h
    next hid => exact ⟨lastEntry_lt_of_next hid, RowCounter.largest?_record ..⟩
  exact ⟨hgrant, hcounter.1, hcounter.2, _, hentries, Table.rows_put_of_above fun a ha =>
    Int64.lt_of_le_of_lt (hcounted a ha) hcounter.1⟩

/-- Rows that are stored come after all others. -/
theorem effect_insertAll {stored : List Entry} (ht : d.entries = some t)
    (hcounted : ∀ a ∈ t.rows, a.id.val ≤ d.lastEntry.getD 0)
    (h : d.insertAll grants = .ok (stored, d')) :
    stored.map Entry.toGrant = grants ∧ (∀ e ∈ stored, d.lastEntry.getD 0 < e.id.val) ∧
      ∃ t', d'.entries = some t' ∧ t'.rows = t.rows ++ stored := by
  induction grants generalizing d t stored with
  | nil =>
    cases h
    exact ⟨rfl, List.forall_mem_nil _, t, ht, (List.append_nil _).symm⟩
  | cons grant rest ih =>
    simp only [insertAll, entriesOrError, ht, bind, Except.bind] at h
    cases hfirst : d.insert t grant with
    | error e => simp [hfirst] at h
    | ok first =>
      cases hrest : first.2.insertAll rest with
      | error e => simp [hfirst, hrest] at h
      | ok others =>
        simp only [hfirst, hrest, pure, Except.pure, Except.ok.injEq, Prod.mk.injEq] at h
        obtain ⟨rfl, rfl⟩ := h
        obtain ⟨hgrant, habove, hlast, t₁, ht₁, hrows₁⟩ := effect_insert hcounted hfirst
        have hlast' : first.2.lastEntry.getD 0 = first.1.id.val := by rw [hlast, Option.getD_some]
        have hcounted₁ : ∀ a ∈ t₁.rows, a.id.val ≤ first.2.lastEntry.getD 0 := by
          rw [hrows₁, hlast']
          refine List.forall_mem_append.2 ⟨fun a ha => ?_, List.forall_mem_singleton.2 Int64.le_rfl⟩
          exact Int64.le_of_lt (Int64.lt_of_le_of_lt (hcounted a ha) habove)
        obtain ⟨hgrants, habove', t₂, ht₂, hrows₂⟩ := ih ht₁ hcounted₁ hrest
        rw [hlast'] at habove'
        refine ⟨by rw [List.map_cons, hgrant, hgrants], List.forall_mem_cons.2 ⟨habove, fun e he =>
          Int64.lt_trans habove (habove' e he)⟩, t₂, ht₂, ?_⟩
        rw [hrows₂, hrows₁, List.append_assoc]
        rfl

/-- A group identifier that is handed out is above all groups. -/
theorem above_of_allocateGroup {g : GroupId} (ht : d.entries = some t)
    (h : d.allocateGroup.1 = .ok g) : ∀ e ∈ t.rows, e.group < g := by
  intro e he
  obtain ⟨t', next, ht', hlimit, rfl, -⟩ := of_allocateGroup h
  obtain rfl : t = t' := Option.some.inj (ht.symm.trans ht')
  have hle : e.group.val.toInt ≤ (largestGroup t).toInt :=
    Int64.toInt_le_largest (List.mem_map_of_mem he)
  rw [Int64.le_iff_toInt_le, Int64.toInt_maxValue_sub_one] at hlimit
  rw [Identifier.lt_iff_toInt, Int64.toInt_max, Int64.toInt_add_one (by omega)]
  omega

/-- What a successful call does to the rows of a database. -/
theorem effect_performRows (ht : d.entries = some t)
    (hcounted : ∀ a ∈ t.rows, a.id.val ≤ d.lastEntry.getD 0)
    (h : d.performRows t c = (.ok v, d')) :
    ∃ t', d'.entries = some t' ∧ c.Effect t.rows v t'.rows := by
  have halters := alters_performRows ht h
  cases c with
  | findAll | findMixed | findDuplicateGroups | update | deleteEntry => exact halters
  | findGroup g =>
    cases h
    exact ⟨t, ht, rfl, rfl⟩
  | insert grant =>
    rw [performRows] at h
    split at h <;> cases h
    next hinsert =>
      obtain ⟨hgrant, habove, -, t', ht', hrows⟩ := effect_insert hcounted hinsert
      exact ⟨t', ht', hgrant, fun a ha => Int64.lt_of_le_of_lt (hcounted a ha) habove, hrows⟩
  | deleteGroup g =>
    cases h
    exact ⟨_, rfl, List.countP_eq_length_filter, rfl⟩
  | replaceGroup g grants =>
    rw [performRows] at h
    split at h <;> cases h
    next hinsert =>
      -- the counter stays ahead of the rows of the group, although they are gone
      have hcounted' : ∀ a ∈ (t.filter fun e => e.group ≠ g).rows,
          a.id.val ≤
            ({ d with entries := some (t.filter fun e => e.group ≠ g) }.lastEntry).getD 0 :=
        fun a ha => hcounted a (Table.mem_of_mem_filter ha)
      obtain ⟨hgrants, habove, t', ht', hrows⟩ := effect_insertAll rfl hcounted' hinsert
      exact ⟨t', ht', hgrants, fun a ha e he =>
        Int64.lt_of_le_of_lt (hcounted a ha) (habove e he), hrows⟩
  | allocateGroup =>
    obtain ⟨t', ht', hrows⟩ := halters
    exact ⟨t', ht', above_of_allocateGroup ht (congrArg Prod.fst h), hrows⟩

end Database

/-! ### In a store of either kind -/

namespace Backend

variable {b b' : Backend}

/-- In memory a regular store is sound. -/
theorem Regular.sound {s : MemoryStore} {r : MemoryRegistry} (h : (memory s r).Regular) :
    (memory s r).Sound :=
  h

/-- A successful call brings identifiers above all there are, and changes no other rows. -/
theorem effect_performStore (h : b.Regular) (hroom : b.idCounters.exhaustedBy (.store c) = false)
    (hcall : b.performStore c = some (.ok v, b')) : c.Effect b.entries v b'.entries := by
  cases b with
  | memory s r =>
    obtain ⟨l, hshows, -⟩ := h.sound.exists_shows
    rcases performStore_shows hshows c hroom with ⟨v', b₁, t, hcall', hgives, ht⟩ |
      ⟨e, hcall'⟩ <;> cases hcall.symm.trans hcall'
    rw [hshows.entries_eq, ht.entries_eq]
    exact hgives.effect
  | database tables d =>
    cases ht : d.entries with
    | none =>
      obtain ⟨⟨e, he⟩, -⟩ := Database.performStore_of_none ht c
      rw [performStore] at hcall
      simp only [he, Option.some.injEq, Prod.mk.injEq] at hcall
      cases hcall.1
    | some t =>
      rw [performStore, Database.performStore_eq ht] at hcall
      cases hperform : d.performRows t c with
      | mk y d' =>
        simp only [hperform, Option.some.injEq, Prod.mk.injEq] at hcall
        obtain ⟨rfl, rfl⟩ := hcall
        obtain ⟨t', ht', heffect⟩ := Database.effect_performRows ht (h t ht) hperform
        simpa [entries, ht, ht'] using heffect

/-- Whatever the state of a store, it lists no group twice. -/
theorem nodup_duplicateGroups {groups : List GroupId}
    (h : b.performStore .findDuplicateGroups = some (.ok groups, b')) : groups.Nodup := by
  have hascending : groups.Pairwise (· < ·) := by
    cases b with
    | memory s r =>
      cases h
      exact s.pairwise_duplicateGroups
    | database tables d =>
      cases ht : d.entries with
      | none =>
        obtain ⟨⟨e, he⟩, -⟩ := Database.performStore_of_none ht .findDuplicateGroups
        simp [performStore, he] at h
      | some t =>
        rw [performStore, Database.performStore_eq ht] at h
        cases h
        exact Identifier.pairwise_distinct _
  exact Identifier.nodup_of_pairwise_lt hascending

/-- In range an identifier that is handed out is not below the counter, which comes to stand behind
it. -/
theorem counts_of_allocateGroup {g : GroupId}
    (hroom : b.idCounters.exhaustedBy (.store .allocateGroup) = false)
    (hcall : b.performStore .allocateGroup = some (.ok g, b')) :
    (∀ n, b.Counts n → n ≤ g.val.toInt) ∧ b'.Counts (g.val.toInt + 1) := by
  obtain ⟨hcounter, hlargest⟩ := IdCounters.exhaustedBy_allocateGroup_eq_false.1 hroom
  have hcounts : (∃ n, b.Counts n) ∧
      (highestGroup b.entries).toInt = b.idCounters.largestGroup := by
    cases b with
    | memory s r => exact ⟨⟨_, rfl⟩, congrArg Int64.toInt s.largestGroup_eq.symm⟩
    | database tables d =>
      obtain ⟨t, next, ht, hsequence⟩ : ∃ t next, d.entries = some t ∧ d.sequence = .at next := by
        have hallocate : d.allocateGroup.1 = .ok g := congrArg Prod.fst (Option.some.inj hcall)
        obtain ⟨t, -, ht, -⟩ := Database.of_allocateGroup hallocate
        cases hsequence : d.sequence with
        | «at» next => exact ⟨t, next, ht, rfl⟩
        | dropped | empty | inexact =>
          simp [Database.allocateGroup, Database.entriesOrError, hsequence, ht] at hallocate
      refine ⟨⟨_, ⟨t, ht⟩, next, hsequence, rfl⟩, ?_⟩
      simp only [entries, idCounters, Database.idCounters, ht]
      rfl
  obtain ⟨⟨n, hn⟩, hhighest⟩ := hcounts
  have hlimit : b.BelowLimit := by
    rw [BelowLimit, Int64.toInt_maxValue_sub_one]
    refine ⟨fun e he => ?_, by omega⟩
    rw [Int64.lt_iff_toInt_lt, Int64.toInt_maxValue_sub_one]
    exact (highestGroup_lt_iff (by decide)).1 (by omega) e he
  obtain ⟨g', b₁, hcall', hg, hafter, -⟩ := performStore_allocateGroup hn hlimit
  cases hcall.symm.trans hcall'
  refine ⟨fun m hm => ?_, hafter⟩
  rw [← hm.group_eq, hn.group_eq]
  omega

/-- Handing out a group identifier leaves the counters ahead of the rows. -/
theorem Regular.allocateGroup {g : GroupId} (h : b.Regular)
    (hroom : b.idCounters.exhaustedBy (.store .allocateGroup) = false)
    (hcall : b.performStore .allocateGroup = some (.ok g, b')) : b'.Regular := by
  cases b with
  | memory s r =>
    obtain ⟨l, hshows, -⟩ := h.sound.exists_shows
    rcases performStore_shows hshows .allocateGroup hroom with ⟨v', b₁, t, hcall', -, ht⟩ |
      ⟨e, hcall'⟩ <;> cases hcall.symm.trans hcall'
    exact ht.sound.regular
  | database tables d =>
    obtain ⟨sequence, heq⟩ := d.exists_allocateGroup
    obtain rfl : Backend.database tables d.allocateGroup.2 = b' :=
      congrArg Prod.snd (Option.some.inj hcall)
    rw [heq]
    exact h

end Backend

end AccessGroups
