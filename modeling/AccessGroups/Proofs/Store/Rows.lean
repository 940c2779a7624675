import AccessGroups.Proofs.Store.Memory

/-!
# The rows of a database keep a ledger

A database whose tables are those that the store made shows the rows and the group counter of a
ledger: the privileges are written as ones and zeros, the counter of row identifiers is at or above
every row, and the sequence of group identifiers holds an integer. As long as no counter is
exhausted every call about rows answers and changes what it does in the ledger, or fails without an
effect.

## Main definitions

* `Database.Tidy`: the tables of the store hold what the store writes.
* `Database.ShowsRows`: the database shows the rows and the group counter of a ledger.

## Main results

* `Database.performStore_shows`: the calls about rows.
-/

namespace AccessGroups.Database

variable {d : Database} {t : Table Entry.id} {l : Ledger}

/-- The rows are these, with ones and zeros for their privileges, and no row is above the counter of
row identifiers. -/
structure Tidy (d : Database) (t : Table Entry.id) : Prop where
  entries : d.entries = some t
  marks : d.marks = []
  nonnegative : 0 ≤ (d.lastEntry.getD 0).toInt
  counted : ∀ e ∈ t.rows, e.id.val.toInt ≤ (d.lastEntry.getD 0).toInt

/-- The database shows the rows and the group counter of a ledger. -/
structure ShowsRows (d : Database) (l : Ledger) : Prop where
  tidy : ∃ t, d.Tidy t ∧ t.rows = l.rows
  sequence : ∃ next, d.sequence = .at next ∧ next.toInt = l.nextGroup

/-! ### New rows -/

/-- Below the largest word the next identifier is the one after the counter. -/
theorem nextEntry?_eq (h : d.Tidy t) (hroom : (d.lastEntry.getD 0).toInt < Int64.maxValue.toInt) :
    d.nextEntry? t = some ⟨d.lastEntry.getD 0 + 1⟩ := by
  have hlast : ((t.rows.getLast?.map fun e : Entry => e.id.val).getD 0).toInt ≤
      (d.lastEntry.getD 0).toInt := by
    cases hq : t.rows.getLast? with
    | none => simpa using h.nonnegative
    | some e => exact h.counted e (List.mem_of_getLast? hq)
  have hmax : max (d.lastEntry.getD 0) ((t.rows.getLast?.map fun e : Entry => e.id.val).getD 0) =
      d.lastEntry.getD 0 := by
    rw [← Int64.toInt_inj, Int64.toInt_max]
    omega
  have hne : d.lastEntry.getD 0 ≠ Int64.maxValue := fun heq =>
    Int.lt_irrefl _ (heq ▸ hroom)
  unfold nextEntry?
  rw [hmax]
  exact if_neg hne

/-- What a new row leaves: the row at the end under the next identifier, and all else as it was. -/
theorem insert_spec (h : d.Tidy t) (hroom : (d.lastEntry.getD 0).toInt < Int64.maxValue.toInt)
    (grant : Grant) :
    ∃ stored d' t', d.insert t grant = .ok (stored, d') ∧ d'.Tidy t' ∧ stored.toGrant = grant ∧
      t'.rows = t.rows ++ [stored] ∧ (d.lastEntry.getD 0).toInt < stored.id.val.toInt ∧
      (d'.lastEntry.getD 0).toInt = (d.lastEntry.getD 0).toInt + 1 ∧
      d'.sequence = d.sequence ∧ d'.hosts = d.hosts := by
  have hnext : (d.lastEntry.getD 0 + 1).toInt = (d.lastEntry.getD 0).toInt + 1 :=
    Int64.toInt_add_one hroom
  let stored : Entry := grant.toEntry ⟨d.lastEntry.getD 0 + 1⟩
  have habove (e : Entry) (he : e ∈ t.rows) : e.id < stored.id := by
    rw [Identifier.lt_iff_toInt]
    have := h.counted e he
    change e.id.val.toInt < (d.lastEntry.getD 0 + 1).toInt
    omega
  have hrows : (t.put stored).rows = t.rows ++ [stored] := Table.rows_put_of_above habove
  let after := (d.withWritten stored.id (t.put stored)).recordLastEntry stored.id.val
  have hlast : after.lastEntry = some stored.id.val := RowCounter.largest?_record ..
  have hinsert : d.insert t grant = .ok (stored, after) := by
    rw [insert, nextEntry?_eq h hroom]
    rfl
  refine ⟨stored, after, t.put stored, hinsert, ⟨rfl, ?_, ?_, ?_⟩, rfl, hrows, ?_, ?_, rfl, rfl⟩
  · exact (congrArg (List.filter _) h.marks).trans rfl
  · rw [hlast]
    have := h.nonnegative
    change 0 ≤ (d.lastEntry.getD 0 + 1).toInt
    omega
  · intro e he
    rw [hlast]
    rw [hrows, List.mem_append, List.mem_singleton] at he
    rcases he with he | rfl
    · exact Int.le_of_lt (Identifier.lt_iff_toInt.1 (habove e he))
    · exact Int.le_refl _
  · exact hnext ▸ Int.lt_succ _
  · rw [hlast]
    exact hnext

/-- The same for several rows, which get ascending identifiers above all others. -/
theorem insertAll_spec (grants : List Grant) (h : d.Tidy t)
    (hroom : (d.lastEntry.getD 0).toInt + grants.length ≤ Int64.maxValue.toInt) :
    ∃ stored d' t', d.insertAll grants = .ok (stored, d') ∧ d'.Tidy t' ∧
      stored.map Entry.toGrant = grants ∧ t'.rows = t.rows ++ stored ∧
      (∀ e ∈ stored, (d.lastEntry.getD 0).toInt < e.id.val.toInt) ∧
      d'.sequence = d.sequence ∧ d'.hosts = d.hosts := by
  induction grants generalizing d t with
  | nil => exact ⟨[], d, t, rfl, h, rfl, (List.append_nil _).symm, by simp, rfl, rfl⟩
  | cons grant rest ih =>
    rw [List.length_cons] at hroom
    obtain ⟨first, d₁, t₁, hinsert, h₁, hgrant, hrows, habove, hlast, hseq, hhosts⟩ :=
      insert_spec h (by omega) grant
    obtain ⟨others, d₂, t₂, hall, h₂, hgrants, hrows₂, habove₂, hseq₂, hhosts₂⟩ :=
      ih h₁ (by omega)
    refine ⟨first :: others, d₂, t₂, ?_, h₂, congrArg₂ List.cons hgrant hgrants, ?_, ?_,
      hseq₂.trans hseq, hhosts₂.trans hhosts⟩
    · simp [insertAll, entriesOrError, h.entries, hinsert, hall, bind, Except.bind, pure,
        Except.pure]
    · rw [hrows₂, hrows, List.append_assoc]
      rfl
    · intro e he
      rcases List.mem_cons.1 he with rfl | he
      · exact habove
      · have := habove₂ e he
        omega

/-! ### Groups -/

theorem marksOf_eq (h : d.marks = []) (e : Entry) : d.marksOf e = .ofPrivileges e.privileges := by
  simp [marksOf, h]

theorem sameColumns_iff (h : d.marks = []) {a b : Entry} :
    d.sameColumns a b = true ↔ a.toGrant = b.toGrant := by
  rw [sameColumns, Bool.and_eq_true, decide_eq_true_eq, decide_eq_true_eq, marksOf_eq h,
    marksOf_eq h, and_iff_left_of_imp]
  intro heq
  rw [Marks.ofPrivileges_inj]
  exact congrArg Grant.privileges heq

/-- More than one row satisfies a condition that a given row satisfies when another one does. -/
theorem one_lt_countP_iff {rows : List Entry} (h : rows.Pairwise fun a b => a.id < b.id) {e : Entry}
    (he : e ∈ rows) {p : Entry → Bool} (hp : p e = true) :
    1 < rows.countP p ↔ ∃ a ∈ rows, a.id ≠ e.id ∧ p a = true := by
  obtain ⟨before, after, rfl⟩ := List.append_of_mem he
  obtain ⟨-, hafter, hbefore⟩ := List.pairwise_append.1 h
  have hne (a : Entry) (ha : a ∈ before ∨ a ∈ after) : a.id ≠ e.id := by
    rintro heq
    rcases ha with ha | ha
    · exact Identifier.lt_irrefl _ (heq ▸ hbefore a ha e List.mem_cons_self)
    · exact Identifier.lt_irrefl _ (heq ▸ (List.pairwise_cons.1 hafter).1 a ha)
  have hcount : 1 < (before ++ e :: after).countP p ↔ 0 < before.countP p ∨ 0 < after.countP p := by
    rw [List.countP_append, List.countP_cons_of_pos hp]
    omega
  rw [hcount, List.countP_pos_iff, List.countP_pos_iff]
  constructor
  · rintro (⟨a, ha, hpa⟩ | ⟨a, ha, hpa⟩)
    · exact ⟨a, List.mem_append_left _ ha, hne a (.inl ha), hpa⟩
    · exact ⟨a, List.mem_append_right _ (List.mem_cons_of_mem _ ha), hne a (.inr ha), hpa⟩
  · rintro ⟨a, ha, hid, hpa⟩
    rcases List.mem_append.1 ha with ha | ha
    · exact .inl ⟨a, ha, hpa⟩
    · rcases List.mem_cons.1 ha with rfl | ha
      · exact absurd rfl hid
      · exact .inr ⟨a, ha, hpa⟩

/-- A group is listed when two of its rows agree in all columns, whatever numbers stand for their
privileges. -/
theorem mem_duplicateGroups_iff {g : GroupId} : g ∈ d.duplicateGroups t ↔
    ∃ a ∈ t.rows, ∃ b ∈ t.rows, a.id < b.id ∧ d.sameColumns a b = true ∧ a.group = g := by
  have hcolumns (a b : Entry) : d.sameColumns a b = true ↔
      a.toGrant = b.toGrant ∧ d.marksOf a = d.marksOf b := by simp [sameColumns]
  have hmany (e : Entry) (he : e ∈ t.rows) := one_lt_countP_iff (p := d.sameColumns e)
    t.ascending he ((hcolumns e e).2 ⟨rfl, rfl⟩)
  simp only [duplicateGroups, Identifier.mem_distinct, List.mem_map, List.mem_filter,
    decide_eq_true_eq, gt_iff_lt]
  constructor
  · rintro ⟨e, ⟨he, hcount⟩, rfl⟩
    obtain ⟨a, ha, hne, hsame⟩ := (hmany e he).1 hcount
    obtain ⟨hgrant, hmarks⟩ := (hcolumns e a).1 hsame
    by_cases hlt : a.id < e.id
    · exact ⟨a, ha, e, he, hlt, (hcolumns a e).2 ⟨hgrant.symm, hmarks.symm⟩,
        congrArg Grant.group hgrant.symm⟩
    · exact ⟨e, he, a, ha, Identifier.lt_of_not_lt_of_ne hlt hne, hsame, rfl⟩
  · rintro ⟨a, ha, b, hb, hlt, hsame, rfl⟩
    refine ⟨a, ⟨ha, (hmany a ha).2 ⟨b, hb, fun hid => ?_, hsame⟩⟩, rfl⟩
    exact Identifier.lt_irrefl _ (hid ▸ hlt)

theorem mem_duplicateGroups (hd : d.marks = []) (ht : t.rows = l.rows) (g : GroupId) :
    g ∈ d.duplicateGroups t ↔ l.Repeats g := by
  rw [mem_duplicateGroups_iff, ht]
  simp only [sameColumns_iff hd]
  exact Iff.rfl

/-- The larger one of the sequence and the number after the largest group is the least free
number. -/
theorem free_iff {next : Int64} (hnext : next.toInt = l.nextGroup) (ht : t.rows = l.rows)
    (n : Int) : l.Free n ↔ next.toInt ≤ n ∧ (largestGroup t).toInt < n := by
  have hgroups (hn : 0 < n) :
      (largestGroup t).toInt < n ↔ ∀ e ∈ l.rows, e.group.val.toInt < n := by
    rw [largestGroup, Int64.largest_lt_iff hn, ht]
    simp
  have := l.positive
  rw [Ledger.Free, ← hnext]
  constructor
  · rintro ⟨hle, hrows⟩
    exact ⟨hle, (hgroups (by omega)).2 hrows⟩
  · rintro ⟨hle, hlargest⟩
    exact ⟨hle, (hgroups (by omega)).1 hlargest⟩

/-! ### Calls -/

theorem performStore_eq (h : d.entries = some t) (c : StoreCall) :
    d.performStore c = d.performRows t c := by
  cases c <;> simp [performStore, entriesOrError, h, performRows]

/-- A call about rows is answered as in the ledger, or fails without an effect. -/
theorem performStore_shows (h : d.ShowsRows l) (c : StoreCall)
    (hroom : d.idCounters.exhaustedBy (.store c) = false) :
    (∃ v d' t, d.performStore c = (.ok v, d') ∧ l.Gives c v t ∧ d'.ShowsRows t ∧
      d'.hosts = d.hosts) ∨ ∃ e, d.performStore c = (.error e, d) := by
  obtain ⟨⟨t, ht, hrows⟩, next, hseq, hnext⟩ := h
  have h : d.ShowsRows l := ⟨⟨t, ht, hrows⟩, next, hseq, hnext⟩
  -- A change that keeps the counters and adds no identifier keeps the database in step.
  have keeps (d' : Database) (t' : Table Entry.id) (hentries : d'.entries = some t')
      (hmarks : d'.marks = []) (hlast : d'.lastEntry = d.lastEntry)
      (hseq' : d'.sequence = d.sequence)
      (hids : ∀ e ∈ t'.rows, ∃ a ∈ t.rows, a.id = e.id) :
      ShowsRows d' (l.withRows t'.rows t'.ascending) :=
    ⟨⟨t', ⟨hentries, hmarks, hlast ▸ ht.nonnegative, fun e he => by
      obtain ⟨a, ha, hid⟩ := hids e he
      exact hlast ▸ hid ▸ ht.counted a ha⟩, rfl⟩, next, hseq'.trans hseq, hnext⟩
  obtain ⟨rows, ascending, refs, ordered, table, together, nextGroup, positive, issued⟩ := l
  obtain rfl : t.rows = rows := hrows
  rw [performStore_eq ht.entries]
  cases c with
  | findAll => exact .inl ⟨_, d, _, rfl, ⟨rfl, rfl⟩, h, rfl⟩
  | findGroup group => exact .inl ⟨_, d, _, rfl, ⟨rfl, rfl⟩, h, rfl⟩
  | findDuplicateGroups =>
    exact .inl ⟨_, d, _, rfl, ⟨Identifier.pairwise_distinct _, mem_duplicateGroups ht.marks rfl,
      rfl⟩, h, rfl⟩
  | findMixed => exact .inl ⟨_, d, _, rfl, ⟨rfl, rfl⟩, h, rfl⟩
  | insert grant =>
    have hlt : (d.lastEntry.getD 0).toInt + 1 < Int64.maxValue.toInt :=
      IdCounters.exhaustedBy_insert_eq_false.1 hroom
    obtain ⟨stored, d', t', hinsert, ht', hgrant, hput, -, -, hseq', hhosts⟩ :=
      insert_spec ht (by omega) grant
    have hasc := t'.ascending
    rw [hput] at hasc
    exact .inl ⟨stored, d', _, by rw [performRows, hinsert], ⟨hgrant, hasc, rfl⟩,
      ⟨⟨t', ht', hput⟩, next, hseq'.trans hseq, hnext⟩, hhosts⟩
  | update entry =>
    by_cases hc : t.contains entry.id
    · obtain ⟨a, ha, hid⟩ := Table.contains_iff.1 hc
      refine .inl ⟨(), d.withWritten entry.id (t.replace entry), _, if_pos hc,
        ⟨⟨a, ha, hid⟩, (t.replace entry).ascending, rfl⟩,
        keeps _ (t.replace entry) rfl (by rw [withWritten, ht.marks]; rfl) rfl rfl fun e he => ?_,
        rfl⟩
      obtain ⟨b, hb, rfl⟩ := List.mem_map.1 he
      refine ⟨b, hb, ?_⟩
      split
      · next heq => exact heq
      · rfl
    · exact .inr ⟨.notFound, if_neg hc⟩
  | deleteEntry id =>
    by_cases hc : t.contains id
    · obtain ⟨a, ha, hid⟩ := Table.contains_iff.1 hc
      exact .inl ⟨(), { d with entries := some (t.erase id) }, _, if_pos hc,
        ⟨⟨a, ha, hid⟩, (t.erase id).ascending, rfl⟩,
        keeps _ (t.erase id) rfl ht.marks rfl rfl fun e he => ⟨e, (List.mem_filter.1 he).1, rfl⟩,
        rfl⟩
    · exact .inr ⟨.notFound, if_neg hc⟩
  | deleteGroup group =>
    refine .inl ⟨_, _, _, rfl, ⟨List.countP_eq_length_filter, (t.filter _).ascending, rfl⟩,
      keeps _ (t.filter _) rfl ht.marks rfl rfl fun e he => ⟨e, (List.mem_filter.1 he).1, rfl⟩, rfl⟩
  | replaceGroup group grants =>
    have hlt : (d.lastEntry.getD 0).toInt + grants.length < Int64.maxValue.toInt :=
      IdCounters.exhaustedBy_replaceGroup_eq_false.1 hroom
    let rest := t.filter fun e => e.group ≠ group
    have hrest : Tidy { d with entries := some rest } rest :=
      ⟨rfl, ht.marks, ht.nonnegative, fun e he => ht.counted e (List.mem_filter.1 he).1⟩
    obtain ⟨stored, d', t', hinsert, ht', hgrants, hput, habove, hseq', hhosts⟩ :=
      insertAll_spec grants hrest (Int.le_of_lt hlt)
    have hasc := t'.ascending
    rw [hput] at hasc
    refine .inl ⟨stored, d', _, by rw [performRows, hinsert], ⟨hgrants, fun a ha e he => ?_, hasc,
      rfl⟩, ⟨⟨t', ht', hput⟩, next, hseq'.trans hseq, hnext⟩, hhosts⟩
    rw [Identifier.lt_iff_toInt]
    exact Int.lt_of_le_of_lt (ht.counted a ha) (habove e he)
  | allocateGroup =>
    obtain ⟨hroomNext, hroomLargest⟩ := IdCounters.exhaustedBy_allocateGroup_eq_false.1 hroom
    have hnext' : d.idCounters.group = next.toInt := by rw [idCounters, hseq]
    have hlargest' : d.idCounters.largestGroup = (largestGroup t).toInt := by
      rw [idCounters, ht.entries]
      rfl
    rw [hnext'] at hroomNext
    rw [hlargest'] at hroomLargest
    let fresh : GroupId := ⟨max next (largestGroup t + 1)⟩
    have hfresh : fresh.val.toInt = max next.toInt ((largestGroup t).toInt + 1) := by
      rw [Int64.toInt_max, Int64.toInt_add_one (by omega)]
    have hnot : ¬ (Int64.maxValue - 1 ≤ largestGroup t ∨ next = Int64.maxValue) := by
      rintro (hle | rfl)
      · rw [Int64.le_iff_toInt_le] at hle
        have : (Int64.maxValue - 1).toInt = Int64.maxValue.toInt - 1 := by decide
        omega
      · omega
    have hnextGroup : next.toInt = nextGroup := hnext
    refine .inl ⟨fresh, { d with sequence := .at (fresh.val + 1) }, _, ?_,
      ⟨?_, fun n hn => ?_, ?_, rfl⟩, ⟨⟨t, ⟨ht.entries, ht.marks, ht.nonnegative, ht.counted⟩, rfl⟩,
        fresh.val + 1, rfl, ?_⟩, rfl⟩
    · simp only [performRows, allocateGroup, hseq, entriesOrError, ht.entries, if_neg hnot]
      rfl
    · rw [free_iff hnext rfl, hfresh]
      omega
    · rw [free_iff hnext rfl] at hn
      omega
    · change nextGroup ≤ _
      omega
    · exact Int64.toInt_add_one (by omega)

end AccessGroups.Database
