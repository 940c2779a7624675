import AccessGroups.Proofs.Store.Counters

/-!
# The store in memory keeps a ledger

A store in memory whose counter of rows is above all its rows shows a ledger, and as long as no
counter is exhausted every call answers and changes what it does in the ledger, or fails without an
effect.

## Main definitions

* `MemoryStore.Shows`: the store and its resources show a ledger.

## Main results

* `MemoryStore.perform_shows`, `MemoryRegistry.perform_shows`: the calls.
-/

namespace AccessGroups

namespace Table

variable {ρ : Type} {family : IdFamily} {key : ρ → Identifier family}

theorem contains_iff {t : Table key} {id : Identifier family} :
    t.contains id = true ↔ ∃ r ∈ t.rows, key r = id := by
  simp [contains]

theorem find?_eq_some_iff {t : Table key} {id : Identifier family} {r : ρ} :
    t.find? id = some r ↔ r ∈ t.rows ∧ key r = id := by
  constructor
  · intro h
    exact ⟨List.mem_of_find?_eq_some h, by simpa using List.find?_some h⟩
  · rintro ⟨hr, rfl⟩
    obtain ⟨r', hfound⟩ : ∃ r', t.find? (key r) = some r' :=
      Option.isSome_iff_exists.1 (List.find?_isSome.2 ⟨r, hr, by simp⟩)
    have hkey : key r' = key r := by simpa using List.find?_some hfound
    rw [hfound, Identifier.eq_of_ascending t.ascending (List.mem_of_find?_eq_some hfound) hr hkey]

/-- A row above all others is put at the end. -/
theorem putRow_of_above {row : ρ} {rows : List ρ} (h : ∀ r ∈ rows, key r < key row) :
    putRow key row rows = rows ++ [row] := by
  induction rows with
  | nil => rfl
  | cons r rest ih =>
    have hr := h r List.mem_cons_self
    have hnot : ¬ key row < key r := fun hlt =>
      Identifier.lt_irrefl _ (Identifier.lt_trans hlt hr)
    have hne : key row ≠ key r := fun heq => Identifier.lt_irrefl _ (heq ▸ hr)
    rw [putRow, if_neg hnot, if_neg hne, ih fun a ha => h a (List.mem_cons_of_mem _ ha)]
    rfl

theorem rows_put_of_above {t : Table key} {row : ρ} (h : ∀ r ∈ t.rows, key r < key row) :
    (t.put row).rows = t.rows ++ [row] :=
  putRow_of_above h

end Table

namespace MemoryStore

variable {s : MemoryStore} {r : MemoryRegistry} {l : Ledger}

/-- The store and its resources show a ledger: the same rows, references and group counter, no row
at or above the counter of rows, and a table for every kind. -/
structure Shows (s : MemoryStore) (r : MemoryRegistry) (l : Ledger) : Prop where
  rows : s.entries.rows = l.rows
  refs : ∀ kind, (r.refs kind).rows = l.refs kind
  counted : ∀ e ∈ s.entries.rows, e.id.val < s.nextEntry
  nextGroup : s.nextGroup.toInt = l.nextGroup
  separate : l.Separate

/-! ### New rows -/

/-- Below the largest word a new row is put at the end, under the next identifier. -/
theorem insert_spec (hs : ∀ e ∈ s.entries.rows, e.id.val < s.nextEntry)
    (hroom : s.nextEntry.toInt < Int64.maxValue.toInt) (grant : Grant) :
    (s.insert grant).1.toGrant = grant ∧
      (∀ e ∈ s.entries.rows, e.id < (s.insert grant).1.id) ∧
      (s.insert grant).2.entries.rows = s.entries.rows ++ [(s.insert grant).1] ∧
      (∀ e ∈ (s.insert grant).2.entries.rows, e.id.val < (s.insert grant).2.nextEntry) ∧
      (s.insert grant).2.nextEntry.toInt = s.nextEntry.toInt + 1 ∧
      (s.insert grant).2.nextGroup = s.nextGroup := by
  have hnext : (s.nextEntry + 1).toInt = s.nextEntry.toInt + 1 :=
    Int64.toInt_add_one hroom
  have hrows : (s.insert grant).2.entries.rows = s.entries.rows ++ [(s.insert grant).1] :=
    Table.rows_put_of_above hs
  refine ⟨rfl, hs, hrows, fun e he => ?_, hnext, rfl⟩
  change e.id.val < s.nextEntry + 1
  rw [Int64.lt_iff_toInt_lt, hnext]
  rw [hrows, List.mem_append, List.mem_singleton] at he
  rcases he with he | rfl
  · have := Int64.lt_iff_toInt_lt.1 (hs e he)
    omega
  · exact Int.lt_succ _

/-- The same for several rows, which get ascending identifiers above all others. -/
theorem insertAll_spec (grants : List Grant) (hs : ∀ e ∈ s.entries.rows, e.id.val < s.nextEntry)
    (hroom : s.nextEntry.toInt + grants.length ≤ Int64.maxValue.toInt) :
    (s.insertAll grants).1.map Entry.toGrant = grants ∧
      (∀ e ∈ (s.insertAll grants).1, ¬ e.id.val < s.nextEntry) ∧
      (s.insertAll grants).2.entries.rows = s.entries.rows ++ (s.insertAll grants).1 ∧
      (∀ e ∈ (s.insertAll grants).2.entries.rows, e.id.val < (s.insertAll grants).2.nextEntry) ∧
      (s.insertAll grants).2.nextGroup = s.nextGroup := by
  induction grants generalizing s with
  | nil => exact ⟨rfl, by simp [insertAll], (List.append_nil _).symm, hs, rfl⟩
  | cons grant rest ih =>
    rw [List.length_cons] at hroom
    obtain ⟨hgrant, -, hrows, hcounted, hnext, hgroup⟩ := insert_spec hs (by omega) grant
    obtain ⟨hgrants, habove, hrows', hcounted', hgroup'⟩ := ih hcounted (by rw [hnext]; omega)
    refine ⟨congrArg₂ List.cons hgrant hgrants, fun e he => ?_, ?_, hcounted', hgroup'.trans hgroup⟩
    · rcases List.mem_cons.1 he with rfl | he
      · exact Int64.lt_irrefl
      · have := habove e he
        rw [Int64.lt_iff_toInt_lt] at this ⊢
        omega
    · exact hrows'.trans (by rw [hrows, List.append_assoc]; rfl)

/-! ### Groups -/

/-- As many rows are gone as there were in the group. -/
theorem size_sub_size_removeGroup (s : MemoryStore) (group : GroupId) :
    s.entries.size - (s.removeGroup group).entries.size =
      s.entries.rows.countP fun e => e.group = group := by
  have hsum := List.length_eq_countP_add_countP (fun e : Entry => e.group = group)
    (l := s.entries.rows)
  change s.entries.rows.length - (s.entries.rows.filter fun e => e.group ≠ group).length = _
  rw [← List.countP_eq_length_filter]
  simp only [decide_not] at hsum ⊢
  simp only [decide_eq_true_eq] at hsum
  omega

theorem hasRepeat_iff {rows : List Entry} (h : rows.Pairwise fun a b => a.id < b.id) :
    hasRepeat rows = true ↔ ∃ a ∈ rows, ∃ b ∈ rows, a.id < b.id ∧ a.toGrant = b.toGrant := by
  induction rows with
  | nil => simp [hasRepeat]
  | cons e rest ih =>
    obtain ⟨he, hrest⟩ := List.pairwise_cons.1 h
    rw [hasRepeat, Bool.or_eq_true, ih hrest, List.any_eq_true]
    simp only [Entry.sameGrant_iff]
    constructor
    · rintro (⟨b, hb, heq⟩ | ⟨a, ha, b, hb, hlt, heq⟩)
      · exact ⟨e, List.mem_cons_self, b, List.mem_cons_of_mem _ hb, he b hb, heq⟩
      · exact ⟨a, List.mem_cons_of_mem _ ha, b, List.mem_cons_of_mem _ hb, hlt, heq⟩
    · rintro ⟨a, ha, b, hb, hlt, heq⟩
      rcases List.mem_cons.1 ha with rfl | ha'
      · rcases List.mem_cons.1 hb with rfl | hb'
        · exact absurd hlt (Identifier.lt_irrefl _)
        · exact .inl ⟨b, hb', heq⟩
      · rcases List.mem_cons.1 hb with rfl | hb'
        · exact absurd (Identifier.lt_trans hlt (he a ha')) (Identifier.lt_irrefl _)
        · exact .inr ⟨a, ha', b, hb', hlt, heq⟩

theorem mem_duplicateGroups_iff {g : GroupId} : g ∈ s.duplicateGroups ↔
    ∃ a ∈ s.entries.rows, ∃ b ∈ s.entries.rows, a.id < b.id ∧ a.toGrant = b.toGrant ∧
      a.group = g := by
  rw [duplicateGroups, List.mem_filter, Identifier.mem_distinct,
    hasRepeat_iff (s.entries.ascending.filter _)]
  simp only [List.mem_map, List.mem_filter, decide_eq_true_eq]
  constructor
  · rintro ⟨-, a, ⟨ha, hg⟩, b, ⟨hb, -⟩, hlt, heq⟩
    exact ⟨a, ha, b, hb, hlt, heq, hg⟩
  · rintro ⟨a, ha, b, hb, hlt, heq, hg⟩
    have hgb : b.group = g := (congrArg Grant.group heq).symm.trans hg
    exact ⟨⟨a, ha, hg⟩, a, ⟨ha, hg⟩, b, ⟨hb, hgb⟩, hlt, heq⟩

theorem mem_duplicateGroups (h : s.entries.rows = l.rows) (g : GroupId) :
    g ∈ s.duplicateGroups ↔ l.Repeats g := by
  rw [mem_duplicateGroups_iff, h]
  exact Iff.rfl

theorem pairwise_duplicateGroups (s : MemoryStore) : s.duplicateGroups.Pairwise (· < ·) :=
  (Identifier.pairwise_distinct _).filter _

theorem largestGroup_eq (s : MemoryStore) :
    s.largestGroup = (s.entries.rows.map fun e => e.group.val).max?.getD 0 := by
  rw [largestGroup]
  cases s.entries.rows <;> rfl

/-- The larger one of the group counter and the number after the largest group is the least free
number. -/
theorem free_iff (h : s.Shows r l) (n : Int) :
    l.Free n ↔ s.nextGroup.toInt ≤ n ∧ s.largestGroup.toInt < n := by
  have hgroups (hn : 0 < n) :
      s.largestGroup.toInt < n ↔ ∀ e ∈ l.rows, e.group.val.toInt < n := by
    rw [largestGroup_eq, Int64.largest_lt_iff hn, h.rows]
    simp
  have := l.positive
  rw [Ledger.Free, ← h.nextGroup]
  constructor
  · rintro ⟨hnext, hrows⟩
    exact ⟨hnext, (hgroups (by rw [h.nextGroup] at hnext; omega)).2 hrows⟩
  · rintro ⟨hnext, hlargest⟩
    exact ⟨hnext, (hgroups (by rw [h.nextGroup] at hnext; omega)).1 hlargest⟩

/-! ### Calls -/

/-- A call is answered as in the ledger, or fails without an effect. -/
theorem perform_shows (h : s.Shows r l) (c : StoreCall)
    (hroom : s.idCounters.exhaustedBy (.store c) = false) :
    (∃ v s' t, s.perform c = some (.ok v, s') ∧ l.Gives c v t ∧ s'.Shows r t) ∨
      ∃ e, s.perform c = some (.error e, s) := by
  -- A change that keeps the counters and adds no identifier keeps the store in step.
  have keeps (entries : Table Entry.id)
      (hids : ∀ e ∈ entries.rows, ∃ a ∈ s.entries.rows, a.id = e.id) :
      Shows { s with entries } r (l.withRows entries.rows entries.ascending) :=
    ⟨rfl, h.refs, fun e he => by
      obtain ⟨a, ha, hid⟩ := hids e he
      exact hid ▸ h.counted a ha, h.nextGroup, h.separate⟩
  obtain ⟨rows, ascending, refs, ordered, table, together, nextGroup, positive, issued⟩ := l
  obtain rfl : s.entries.rows = rows := h.rows
  cases c with
  | findAll => exact .inl ⟨_, s, _, rfl, ⟨rfl, rfl⟩, h⟩
  | findGroup group => exact .inl ⟨_, s, _, rfl, ⟨rfl, rfl⟩, h⟩
  | findDuplicateGroups =>
    exact .inl ⟨_, s, _, rfl, ⟨pairwise_duplicateGroups s, mem_duplicateGroups rfl, rfl⟩, h⟩
  | findMixed => exact .inl ⟨_, s, _, rfl, ⟨rfl, rfl⟩, h⟩
  | insert grant =>
    have hlt : s.nextEntry.toInt + 1 < Int64.maxValue.toInt :=
      IdCounters.exhaustedBy_insert_eq_false.1 hroom
    obtain ⟨hgrant, -, hput, hcounted, -, hgroup⟩ := insert_spec h.counted (by omega) grant
    have hasc := (s.insert grant).2.entries.ascending
    rw [hput] at hasc
    exact .inl ⟨_, _, _, rfl, ⟨hgrant, hasc, rfl⟩, hput, h.refs, hcounted, hgroup ▸ h.nextGroup,
      h.separate⟩
  | update entry =>
    by_cases hc : s.entries.contains entry.id
    · obtain ⟨a, ha, hid⟩ := Table.contains_iff.1 hc
      refine .inl ⟨(), _, _, if_pos hc, ⟨⟨a, ha, hid⟩, (s.entries.replace entry).ascending, rfl⟩,
        keeps (s.entries.replace entry) fun e he => ?_⟩
      obtain ⟨b, hb, rfl⟩ := List.mem_map.1 he
      refine ⟨b, hb, ?_⟩
      split
      · next heq => exact heq
      · rfl
    · exact .inr ⟨.notFound, if_neg hc⟩
  | deleteEntry id =>
    by_cases hc : s.entries.contains id
    · obtain ⟨a, ha, hid⟩ := Table.contains_iff.1 hc
      exact .inl ⟨(), _, _, if_pos hc, ⟨⟨a, ha, hid⟩, (s.entries.erase id).ascending, rfl⟩,
        keeps (s.entries.erase id) fun e he => ⟨e, (List.mem_filter.1 he).1, rfl⟩⟩
    · exact .inr ⟨.notFound, if_neg hc⟩
  | deleteGroup group =>
    refine .inl ⟨_, _, _, rfl, ⟨?_, (s.removeGroup group).entries.ascending, rfl⟩,
      keeps (s.removeGroup group).entries fun e he => ⟨e, (List.mem_filter.1 he).1, rfl⟩⟩
    exact (size_sub_size_removeGroup s group).trans List.countP_eq_length_filter
  | replaceGroup group grants =>
    have hlt : s.nextEntry.toInt + grants.length < Int64.maxValue.toInt :=
      IdCounters.exhaustedBy_replaceGroup_eq_false.1 hroom
    obtain ⟨hgrants, habove, hput, hcounted, hgroup⟩ :=
      insertAll_spec (s := s.removeGroup group) grants
        (fun e he => h.counted e (List.mem_filter.1 he).1) (Int.le_of_lt hlt)
    have hasc := ((s.removeGroup group).insertAll grants).2.entries.ascending
    rw [hput] at hasc
    refine .inl ⟨_, _, _, rfl, ⟨hgrants, fun a ha e he => ?_, hasc, rfl⟩, hput, h.refs, hcounted,
      hgroup ▸ h.nextGroup, h.separate⟩
    have h₁ := Int64.lt_iff_toInt_lt.1 (h.counted a ha)
    have h₂ := habove e he
    rw [Int64.lt_iff_toInt_lt] at h₂
    rw [Identifier.lt_iff_toInt]
    change ¬ e.id.val.toInt < s.nextEntry.toInt at h₂
    omega
  | allocateGroup =>
    obtain ⟨hnext, hlargest⟩ := IdCounters.exhaustedBy_allocateGroup_eq_false.1 hroom
    change s.nextGroup.toInt + 1 < _ at hnext
    change s.largestGroup.toInt + 2 < _ at hlargest
    have hmax : s.largestGroup ≠ Int64.maxValue := fun heq => by
      rw [heq, Int64.toInt_maxValue] at hlargest
      omega
    let fresh : GroupId := ⟨max s.nextGroup (s.largestGroup + 1)⟩
    have hfresh : fresh.val.toInt = max s.nextGroup.toInt (s.largestGroup.toInt + 1) := by
      rw [Int64.toInt_max, Int64.toInt_add_one (by omega)]
    have hnextGroup : s.nextGroup.toInt = nextGroup := h.nextGroup
    refine .inl ⟨fresh, { s with nextGroup := fresh.val + 1 }, _, ?_, ⟨?_, fun n hn => ?_, ?_, rfl⟩,
      rfl, h.refs, h.counted, ?_, h.separate⟩
    · simp [perform, allocateGroup?, hmax, fresh]
    · rw [free_iff h, hfresh]
      omega
    · rw [free_iff h] at hn
      omega
    · change nextGroup ≤ _
      omega
    · exact Int64.toInt_add_one (by omega)

end MemoryStore

namespace MemoryRegistry

variable {s : MemoryStore} {r : MemoryRegistry} {l : Ledger}

/-- A call is answered as in the ledger, or fails without an effect. -/
theorem perform_shows (h : s.Shows r l) (c : RegistryCall) :
    (∃ v t, (r.perform c).1 = .ok v ∧ l.GivesRegistry c v t ∧ s.Shows (r.perform c).2 t) ∨
      ∃ e, r.perform c = (.error e, r) := by
  cases c with
  | listRefs kind => exact .inl ⟨_, l, rfl, ⟨h.refs kind, rfl⟩, h⟩
  | findRef kind resource =>
    cases hfind : (r.refs kind).find? resource with
    | none => exact .inr ⟨.notFound, by simp [perform, hfind]⟩
    | some ref =>
      obtain ⟨hmem, rfl⟩ := Table.find?_eq_some_iff.1 hfind
      rw [h.refs kind] at hmem
      refine .inl ⟨ref.group, l, by simp [perform, hfind], ⟨hmem, rfl⟩, ?_⟩
      simpa [perform, hfind] using h
  | assign kind resource group =>
    by_cases hc : (r.refs kind).contains resource
    · obtain ⟨a, ha, hid⟩ := Table.contains_iff.1 hc
      refine .inl ⟨(), _, by simp [perform, hc], ⟨⟨a, h.refs kind ▸ ha, hid⟩, rfl⟩, ?_⟩
      have hperform : (r.perform (.assign kind resource group)).2 =
          r.set kind ((r.refs kind).replace ⟨resource, group⟩) := by simp [perform, hc]
      rw [hperform]
      refine ⟨h.rows, fun k => ?_, h.counted, h.nextGroup, h.separate⟩
      by_cases hk : k = kind
      · subst hk
        rw [refs_set_self]
        exact (congrArg (Ledger.referring · ⟨resource, group⟩) (h.refs k)).trans (if_pos rfl).symm
      · rw [refs_set_of_ne r _ hk, h.refs k]
        exact (if_neg fun heq => hk (h.separate k kind heq)).symm
    · exact .inr ⟨.notFound, by simp [perform, hc]⟩
  | delete kind resource =>
    by_cases hc : (r.refs kind).contains resource
    · obtain ⟨a, ha, hid⟩ := Table.contains_iff.1 hc
      refine .inl ⟨(), _, by simp [perform, hc], ⟨⟨a, h.refs kind ▸ ha, hid⟩, rfl⟩, ?_⟩
      have hperform : (r.perform (.delete kind resource)).2 =
          r.set kind ((r.refs kind).erase resource) := by simp [perform, hc]
      rw [hperform]
      refine ⟨h.rows, fun k => ?_, h.counted, h.nextGroup, h.separate⟩
      by_cases hk : k = kind
      · subst hk
        rw [refs_set_self]
        exact (congrArg (List.filter _) (h.refs k)).trans (if_pos rfl).symm
      · rw [refs_set_of_ne r _ hk, h.refs k]
        exact (if_neg fun heq => hk (h.separate k kind heq)).symm
    · exact .inr ⟨.notFound, by simp [perform, hc]⟩

end MemoryRegistry

end AccessGroups
