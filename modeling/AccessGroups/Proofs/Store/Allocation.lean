import AccessGroups.Proofs.Store.Provenance

/-!
# The allocation of group identifiers

In a database an allocation of a group identifier is one statement. In memory it takes three steps:
it reads the rows, raises the counter above their groups, and takes the counter; other requests, and
the steps of other allocations, can fall in between. In range, an identifier is the larger one of
the counter and the number after the largest group, and it is always positive if all groups are.

## Main definitions

* `Allocation`, `Backend.advance`: an allocation that is under way, and its next step.
* `Backend.Counts`, `Backend.BelowLimit`: where the counter of group identifiers stands, and that it
  is in range.
* `Backend.Advances`: what the next step of an allocation can be.
* `Backend.upcoming?`: the identifier that the call hands out next.

## Main results

* `MemoryStore.advance_thrice`: without anything in between the three steps are the call.
* `Backend.performStore_allocateGroup`, `Backend.advance_spec`: the call and the steps in range.
* `Backend.isValid_of_allocateGroup`: identifiers are positive if all groups are.
* `Backend.toInt_upcoming`: as long as they ascend, each is the number after the one before.
-/

namespace AccessGroups

/-- How far an allocation has come, with the rows that it found when it was asked for. -/
inductive Allocation where
  | asked
  | informed (rows : List Entry)
  | raised (rows : List Entry)
  | granted (rows : List Entry) (group : GroupId)
  | failed
  deriving DecidableEq

namespace Allocation

/-- The identifier that was handed out, with the rows that there were. -/
def grant? : Allocation → Option (GroupId × List Entry)
  | .granted rows group => some (group, rows)
  | _ => none

/-- The number of steps in memory that lead here. -/
def rank : Allocation → Nat
  | .asked => 0
  | .informed _ => 1
  | .raised _ => 2
  | .granted _ _ | .failed => 3

end Allocation

/-- The largest group of some rows, or zero if there are none. -/
def highestGroup (rows : List Entry) : Int64 :=
  (rows.map fun e => e.group.val).max?.getD 0

namespace Backend

/-- The next step of an allocation, unless it has ended. In a database the whole statement is one
step. -/
def advance : Backend → Allocation → Option (Allocation × Backend)
  | .memory s r, .asked => some (.informed s.entries.rows, .memory s r)
  | .memory s r, .informed rows =>
    if highestGroup rows = Int64.maxValue then some (.failed, .memory s r)
    else
      some (.raised rows,
        .memory { s with nextGroup := max s.nextGroup (highestGroup rows + 1) } r)
  | .memory s r, .raised rows =>
    some (.granted rows ⟨s.nextGroup⟩, .memory { s with nextGroup := s.nextGroup + 1 } r)
  | .database tables d, .asked | .database tables d, .informed _ | .database tables d, .raised _ =>
    match d.allocateGroup with
    | (.ok group, after) =>
      some (.granted (Backend.database tables d).entries group, .database tables after)
    | (.error _, after) => some (.failed, .database tables after)
  | _, .granted _ _ | _, .failed => none

/-- The store after it was closed and opened again, as far as it can be. -/
def reopened : Backend → Backend
  | .memory s r => .memory s r
  | .database tables d => .database tables (d.migrate.toOption.getD d)

/-- The counter of group identifiers stands at a number. -/
def Counts : Backend → Int → Prop
  | .memory s _, n => s.nextGroup.toInt = n
  | .database _ d, n => (∃ t, d.entries = some t) ∧ ∃ next, d.sequence = .at next ∧ next.toInt = n

/-- The groups of the rows and the counter of group identifiers are at least two below the largest
word. -/
def BelowLimit (b : Backend) : Prop :=
  (∀ e ∈ b.entries, e.group.val < Int64.maxValue - 1) ∧
    b.idCounters.group < (Int64.maxValue - 1).toInt

instance (b : Backend) : Decidable b.BelowLimit :=
  inferInstanceAs (Decidable (_ ∧ _))

end Backend

variable {b b' : Backend} {n m : Int}

/-! ### The largest group -/

theorem highestGroup_lt_iff {rows : List Entry} (hn : 0 < n) :
    (highestGroup rows).toInt < n ↔ ∀ e ∈ rows, e.group.val.toInt < n := by
  rw [highestGroup, Int64.largest_lt_iff hn]
  simp

theorem highestGroup_nonneg {rows : List Entry} (h : ∀ e ∈ rows, e.group.IsValid) :
    0 ≤ (highestGroup rows).toInt := by
  by_contra hneg
  have hlow := (highestGroup_lt_iff (n := 1) (by decide)).1
    (by omega : (highestGroup rows).toInt < 1)
  cases rows with
  | nil => exact hneg (by decide)
  | cons e rest =>
    have hvalid := Int64.lt_iff_toInt_lt.1 (h e List.mem_cons_self)
    have := hlow e List.mem_cons_self
    rw [Int64.toInt_zero] at hvalid
    omega

/-- The number after the largest group is one more than it, if that leaves room. -/
theorem toInt_highestGroup_add_one {rows : List Entry}
    (h : ∀ e ∈ rows, e.group.val < Int64.maxValue - 1) :
    (highestGroup rows + 1).toInt = (highestGroup rows).toInt + 1 ∧
      (highestGroup rows).toInt < Int64.maxValue.toInt - 1 := by
  have hlt : (highestGroup rows).toInt < Int64.maxValue.toInt - 1 :=
    (highestGroup_lt_iff (by decide)).2 fun e he => by
      have := Int64.lt_iff_toInt_lt.1 (h e he)
      rwa [Int64.toInt_maxValue_sub_one] at this
  exact ⟨Int64.toInt_add_one (by omega), hlt⟩

/-! ### The counter -/

/-- The counter stands at one number. -/
theorem Backend.Counts.group_eq (h : b.Counts n) : b.idCounters.group = n := by
  cases b with
  | memory s r => exact h
  | database tables d =>
    obtain ⟨-, next, hnext, rfl⟩ := h
    simp only [idCounters, Database.idCounters, hnext]

theorem MemoryStore.nextGroup_insertAll (s : MemoryStore) (grants : List Grant) :
    (s.insertAll grants).2.nextGroup = s.nextGroup := by
  induction grants generalizing s with
  | nil => rfl
  | cons grant rest ih => exact ih (s.insert grant).2

namespace Database

variable {d d' : Database} {t : Table Entry.id}

theorem sequence_of_insertAll {grants : List Grant} {stored : List Entry}
    (h : d.insertAll grants = .ok (stored, d')) (ht : d.entries = some t) :
    d'.sequence = d.sequence ∧ ∃ t', d'.entries = some t' := by
  refine insertAll_keeps (P := fun d' => d'.sequence = d.sequence ∧ ∃ t', d'.entries = some t')
    (fun grant _ d₁ t₁ stored d₂ hd _ hinsert => ?_) ⟨rfl, t, ht⟩ h
  obtain ⟨-, hentries, hsequence⟩ := entries_of_insert hinsert
  exact ⟨hsequence.trans hd.1, _, hentries⟩

/-- Only allocations change the sequence, and no call about rows takes their table away. -/
theorem sequence_performStore {c : StoreCall} (ht : d.entries = some t) (hc : c ≠ .allocateGroup) :
    (d.performStore c).2.sequence = d.sequence ∧
      ∃ t', (d.performStore c).2.entries = some t' := by
  rw [performStore_eq ht]
  cases c with
  | findAll | findGroup | findDuplicateGroups | findMixed => exact ⟨rfl, t, ht⟩
  | deleteGroup => exact ⟨rfl, _, rfl⟩
  | insert grant =>
    rw [performRows]
    split
    · exact ⟨rfl, t, ht⟩
    · next hinsert =>
      obtain ⟨-, hentries, hsequence⟩ := entries_of_insert hinsert
      exact ⟨hsequence, _, hentries⟩
  | update | deleteEntry =>
    rw [performRows]
    split
    · exact ⟨rfl, _, rfl⟩
    · exact ⟨rfl, t, ht⟩
  | replaceGroup group grants =>
    rw [performRows]
    split
    · exact ⟨rfl, t, ht⟩
    · next stored after hinsert =>
      have hkeep := sequence_of_insertAll hinsert rfl
      exact hkeep
  | allocateGroup => exact absurd rfl hc

/-- Opening a database again leaves the counter alone. -/
theorem sequence_of_migrate {next : Int64} (ht : d.entries = some t) (hnext : d.sequence = .at next)
    (h : d.migrate = .ok d') : d'.entries = some t ∧ d'.sequence = .at next := by
  simp only [migrate, bind, Except.bind] at h
  split at h
  · cases h
  · split at h
    · cases h
      exact ⟨ht, hnext⟩
    · cases h
      simp [ht, hnext]

end Database

namespace Backend

/-- Only allocations move the counter. -/
theorem Counts.performStore {c : StoreCall} {x : c.Answer} (hb : b.Counts n)
    (h : b.performStore c = some (x, b')) (hc : c ≠ .allocateGroup) : b'.Counts n := by
  cases b with
  | memory s r =>
    obtain ⟨⟨y, s'⟩, hperform, heq⟩ := Option.map_eq_some_iff.1 h
    cases heq
    have hkeep : s'.nextGroup = s.nextGroup := by
      cases c with
      | findAll | findGroup | findDuplicateGroups | findMixed | insert | deleteGroup =>
        cases hperform
        rfl
      | update | deleteEntry =>
        rw [MemoryStore.perform] at hperform
        split at hperform <;> cases hperform <;> rfl
      | replaceGroup group grants =>
        cases hperform
        exact (s.removeGroup group).nextGroup_insertAll grants
      | allocateGroup => exact absurd rfl hc
    change s'.nextGroup.toInt = n
    rw [hkeep]
    exact hb
  | database tables d =>
    obtain ⟨⟨t, ht⟩, next, hnext, rfl⟩ := hb
    cases h
    obtain ⟨hsequence, t', ht'⟩ := Database.sequence_performStore ht hc
    exact ⟨⟨t', ht'⟩, next, hsequence.trans hnext, rfl⟩

/-- Rows of other writers leave the counter alone. -/
theorem Counts.insertRaw {entry : Entry} (hb : b.Counts n) :
    ((Scenario.writeBehind (.insertRaw entry) b).getD b).Counts n := by
  cases b with
  | memory s r =>
    simp only [Scenario.writeBehind, MemoryStore.insertRaw?]
    split
    · exact hb
    · exact hb
  | database tables d =>
    obtain ⟨⟨t, ht⟩, next, hnext, rfl⟩ := hb
    simp only [Scenario.writeBehind, Database.insertRaw, ht]
    exact ⟨⟨_, rfl⟩, next, hnext, rfl⟩

/-- Closing a store and opening it again leaves the counter alone. -/
theorem Counts.reopened (hb : b.Counts n) : b.reopened.Counts n := by
  cases b with
  | memory s r => exact hb
  | database tables d =>
    obtain ⟨⟨t, ht⟩, next, hnext, rfl⟩ := hb
    rw [Backend.reopened]
    cases hopen : d.migrate with
    | error e => exact ⟨⟨t, ht⟩, next, hnext, rfl⟩
    | ok d' =>
      obtain ⟨ht', hnext'⟩ := Database.sequence_of_migrate ht hnext hopen
      exact ⟨⟨t, ht'⟩, next, hnext', rfl⟩

/-- The counter is in range, and so are the groups of the rows. -/
theorem BelowLimit.lt (hb : b.BelowLimit) (hn : b.Counts n) : n < Int64.maxValue.toInt - 1 := by
  rw [← hn.group_eq, ← Int64.toInt_maxValue_sub_one]
  exact hb.2

end Backend

namespace Database

variable {d : Database} {t : Table Entry.id} {next : Int64}

/-- In range the statement hands out the larger one of the counter and the number after the largest
group, and moves the counter behind it. -/
theorem allocateGroup_eq (ht : d.entries = some t) (hnext : d.sequence = .at next)
    (hrows : ∀ e ∈ t.rows, e.group.val < Int64.maxValue - 1)
    (hlt : next.toInt < Int64.maxValue.toInt - 1) :
    d.allocateGroup = (.ok ⟨max next (highestGroup t.rows + 1)⟩,
      { d with sequence := .at (max next (highestGroup t.rows + 1) + 1) }) := by
  have hhighest := (toInt_highestGroup_add_one hrows).2
  have hnot : ¬ (Int64.maxValue - 1 ≤ largestGroup t ∨ next = Int64.maxValue) := by
    rintro (hle | rfl)
    · rw [Int64.le_iff_toInt_le, Int64.toInt_maxValue_sub_one] at hle
      change _ ≤ (highestGroup t.rows).toInt at hle
      omega
    · omega
  simp only [allocateGroup, hnext, entriesOrError, ht, if_neg hnot]
  rfl

/-- An identifier that is handed out is the larger one of some counter and the number after the
largest group, and the counter moves behind it. -/
theorem of_allocateGroup {g : GroupId} (h : d.allocateGroup.1 = .ok g) :
    ∃ t next, d.entries = some t ∧ ¬ Int64.maxValue - 1 ≤ largestGroup t ∧
      g = ⟨max next (largestGroup t + 1)⟩ ∧
        d.allocateGroup.2 = { d with sequence := .at (g.val + 1) } := by
  obtain ⟨entries, marks, counters, sequence, hosts, migrations⟩ := d
  cases sequence with
  | «at» next =>
    cases entries with
    | none => cases h
    | some t =>
      dsimp only [allocateGroup, entriesOrError] at h ⊢
      split at h <;> cases h
      next hlimit => exact ⟨t, next, rfl, mt .inl hlimit, rfl, by rw [if_neg hlimit]⟩
  | dropped | empty | inexact => cases entries <;> cases h

end Database

/-- In memory the call is the three steps of an allocation with nothing in between. -/
theorem MemoryStore.advance_thrice (s : MemoryStore) (r : MemoryRegistry) :
    (((Backend.memory s r).advance .asked).bind fun p =>
      (p.2.advance p.1).bind fun p => p.2.advance p.1) =
      s.allocateGroup?.map fun p => (.granted s.entries.rows p.1, .memory p.2 r) := by
  have hhighest : highestGroup s.entries.rows = s.largestGroup := s.largestGroup_eq.symm
  simp only [Backend.advance, Option.bind_some, allocateGroup?, hhighest]
  by_cases hfull : s.largestGroup = Int64.maxValue <;> simp [hfull]

/-- The larger one of the counter and the number after the largest group, and the number after
that. -/
theorem toInt_fresh {next : Int64} {rows : List Entry}
    (hrows : ∀ e ∈ rows, e.group.val < Int64.maxValue - 1)
    (hlt : next.toInt < Int64.maxValue.toInt - 1) :
    (max next (highestGroup rows + 1)).toInt = max next.toInt ((highestGroup rows).toInt + 1) ∧
      (max next (highestGroup rows + 1) + 1).toInt =
        (max next (highestGroup rows + 1)).toInt + 1 := by
  obtain ⟨hadd, hhighest⟩ := toInt_highestGroup_add_one hrows
  have hmax : (max next (highestGroup rows + 1)).toInt =
      max next.toInt ((highestGroup rows).toInt + 1) := by
    rw [Int64.toInt_max, hadd]
  exact ⟨hmax, Int64.toInt_add_one (by omega)⟩

namespace Backend

/-- In range the call hands out the larger one of the counter and the number after the largest
group, and moves the counter behind it. -/
theorem performStore_allocateGroup (hb : b.Counts n) (hlimit : b.BelowLimit) :
    ∃ g b', b.performStore .allocateGroup = some (.ok g, b') ∧
      g.val.toInt = max n ((highestGroup b.entries).toInt + 1) ∧ b'.Counts (g.val.toInt + 1) ∧
      b'.entries = b.entries := by
  have hlt := hlimit.lt hb
  cases b with
  | memory s r =>
    obtain rfl : s.nextGroup.toInt = n := hb
    obtain ⟨hfresh, hnext⟩ := toInt_fresh hlimit.1 hlt
    have hne : highestGroup s.entries.rows ≠ Int64.maxValue := by
      have := (toInt_highestGroup_add_one hlimit.1).2
      intro hfull
      rw [entries, hfull] at this
      omega
    have hlargest : s.largestGroup = highestGroup s.entries.rows := s.largestGroup_eq
    let fresh := max s.nextGroup (highestGroup s.entries.rows + 1)
    refine ⟨⟨fresh⟩, .memory { s with nextGroup := fresh + 1 } r, ?_, hfresh, hnext, rfl⟩
    simp only [performStore, MemoryStore.perform, MemoryStore.allocateGroup?, hlargest, if_neg hne]
    rfl
  | database tables d =>
    obtain ⟨⟨t, ht⟩, next, hnext, rfl⟩ := hb
    have hrows : (Backend.database tables d).entries = t.rows := by rw [entries, ht]; rfl
    rw [BelowLimit, hrows] at hlimit
    obtain ⟨hfresh, hafter⟩ := toInt_fresh hlimit.1 hlt
    have hcall := Database.allocateGroup_eq ht hnext hlimit.1 hlt
    let fresh := max next (highestGroup t.rows + 1)
    refine ⟨⟨fresh⟩, .database tables { d with sequence := .at (fresh + 1) }, ?_, hrows ▸ hfresh,
      ⟨⟨t, ht⟩, fresh + 1, rfl, hafter⟩, rfl⟩
    rw [performStore, Database.performStore, hcall]

/-- If all groups are positive, so is an identifier that is handed out. -/
theorem isValid_of_allocateGroup {g : GroupId} (hrows : ∀ e ∈ b.entries, e.group.IsValid)
    (h : b.performStore .allocateGroup = some (.ok g, b')) : g.IsValid := by
  have hvalid {next : Int64} {rows : List Entry} (hrows : ∀ e ∈ rows, e.group.IsValid)
      (hlt : (highestGroup rows).toInt < Int64.maxValue.toInt) :
      (⟨max next (highestGroup rows + 1)⟩ : GroupId).IsValid := by
    have hnonneg := highestGroup_nonneg hrows
    rw [Identifier.IsValid, Int64.lt_iff_toInt_lt, Int64.toInt_max, Int64.toInt_add_one hlt,
      Int64.toInt_zero]
    omega
  cases b with
  | memory s r =>
    obtain ⟨⟨x, s'⟩, hperform, heq⟩ := Option.map_eq_some_iff.1 h
    cases heq
    obtain ⟨⟨fresh, s'⟩, hallocate, heq⟩ := Option.map_eq_some_iff.1 hperform
    cases heq
    rw [MemoryStore.allocateGroup?, s.largestGroup_eq] at hallocate
    split at hallocate <;> cases hallocate
    next hne =>
    have hle := (highestGroup s.entries.rows).toInt_le
    have hnot : (highestGroup s.entries.rows).toInt ≠ Int64.maxValue.toInt :=
      fun heq => hne (Int64.toInt_inj.1 heq)
    exact hvalid hrows (by omega)
  | database tables d =>
    rw [performStore, Database.performStore] at h
    have hallocate : d.allocateGroup.1 = .ok g := by simpa using congrArg (Option.map Prod.fst) h
    obtain ⟨t, next, ht, hlimit, rfl, -⟩ := Database.of_allocateGroup hallocate
    rw [entries, ht] at hrows
    refine hvalid hrows ?_
    rw [Int64.le_iff_toInt_le, Int64.toInt_maxValue_sub_one] at hlimit
    change ¬ _ ≤ (highestGroup t.rows).toInt at hlimit
    omega

/-- What the next step of an allocation can be when these are the rows and the counter stands at
`n`, and where the counter stands afterwards. -/
inductive Advances (rows : List Entry) (n : Int) : Allocation → Allocation → Int → Prop
  | inform : Advances rows n .asked (.informed rows) n
  | raise {seen : List Entry} : Advances rows n (.informed seen) (.raised seen)
      (max n ((highestGroup seen).toInt + 1))
  | take {seen : List Entry} {g : GroupId} (hg : g.val.toInt = n) :
      Advances rows n (.raised seen) (.granted seen g) (n + 1)
  | grant {a : Allocation} {g : GroupId} (ha : a.rank < 3)
      (hg : g.val.toInt = max n ((highestGroup rows).toInt + 1)) :
      Advances rows n a (.granted rows g) (g.val.toInt + 1)

/-- Every step leads further. -/
theorem Advances.rank_lt {rows : List Entry} {a a' : Allocation} (h : Advances rows n a a' m) :
    a.rank < a'.rank := by
  cases h with
  | inform => exact Nat.one_pos
  | raise => exact Nat.lt_succ_self 1
  | take => exact Nat.lt_succ_self 2
  | grant ha => exact ha

/-- An allocation without a next step has ended. -/
theorem rank_of_advance_eq_none {a : Allocation} (h : b.advance a = none) : a.rank = 3 := by
  cases a with
  | granted | failed => rfl
  | asked | informed | raised =>
    cases b with
    | memory s r =>
      simp only [advance] at h
      try split at h
      all_goals cases h
    | database tables d =>
      rw [advance] at h
      split at h <;> cases h

/-- In range the next step of an allocation does not fail, and leaves the rows alone. -/
theorem advance_spec {a a' : Allocation} (hb : b.Counts n) (hlimit : b.BelowLimit)
    (hseen : ∀ rows, a = .informed rows → ∀ e ∈ rows, e.group.val < Int64.maxValue - 1)
    (h : b.advance a = some (a', b')) :
    b'.entries = b.entries ∧ ∃ m, Advances b.entries n a a' m ∧ b'.Counts m := by
  have hlt := hlimit.lt hb
  cases b with
  | memory s r =>
    obtain rfl : s.nextGroup.toInt = n := hb
    cases a with
    | asked =>
      cases h
      exact ⟨rfl, _, .inform, rfl⟩
    | informed rows =>
      obtain ⟨hfresh, -⟩ := toInt_fresh (hseen rows rfl) hlt
      have hne : highestGroup rows ≠ Int64.maxValue := by
        have := (toInt_highestGroup_add_one (hseen rows rfl)).2
        intro hfull
        rw [hfull] at this
        omega
      simp only [advance, if_neg hne] at h
      cases h
      exact ⟨rfl, _, .raise, hfresh⟩
    | raised rows =>
      cases h
      exact ⟨rfl, _, .take rfl, Int64.toInt_add_one (by omega)⟩
    | granted | failed => cases h
  | database tables d =>
    obtain ⟨g, b₁, hcall, hg, hcounts, hrows⟩ := performStore_allocateGroup hb hlimit
    rw [performStore, Database.performStore] at hcall
    rcases hallocate : d.allocateGroup with ⟨_ | g', d'⟩ <;> rw [hallocate] at hcall
    · cases hcall
    · cases hcall
      cases a with
      | asked | informed | raised =>
        rw [advance, hallocate] at h
        cases h
        exact ⟨hrows, _, .grant (by simp [Allocation.rank]) hg, hcounts⟩
      | granted | failed => cases h

/-! ### The identifier that comes next -/

variable {g g' : GroupId}

/-- The group that the store hands out next, if it does. -/
def upcoming? (b : Backend) : Option GroupId :=
  (b.performStore .allocateGroup).bind fun p => Except.toOption p.1

theorem upcoming_of_performStore (h : b.performStore .allocateGroup = some (.ok g, b')) :
    b.upcoming? = some g := by
  rw [upcoming?, h]
  rfl

/-- After an identifier was handed out, the next one comes right behind it, unless the number after
the largest group is above that; at the end of the range there may be none. -/
theorem upcoming_of_allocateGroup (h : b.performStore .allocateGroup = some (.ok g, b')) :
    ∃ m ≤ g.val, b'.upcoming? = some ⟨max (g.val + 1) m⟩ ∨
      b'.upcoming? = none ∧ Int64.maxValue - 1 ≤ g.val := by
  have hle (next m : Int64) : m ≤ max next m := by
    rw [Int64.le_iff_toInt_le, Int64.toInt_max]
    exact Int.le_max_right ..
  cases b with
  | memory s r =>
    obtain ⟨⟨x, s'⟩, hperform, heq⟩ := Option.map_eq_some_iff.1 h
    cases heq
    obtain ⟨⟨fresh, s'⟩, hallocate, heq⟩ := Option.map_eq_some_iff.1 hperform
    cases heq
    rw [MemoryStore.allocateGroup?] at hallocate
    split at hallocate <;> cases hallocate
    next hne =>
    refine ⟨_, hle _ _, .inl ?_⟩
    have hagain (next : Int64) : { s with nextGroup := next }.allocateGroup? =
        some (⟨max next (s.largestGroup + 1)⟩,
          { s with nextGroup := max next (s.largestGroup + 1) + 1 }) :=
      if_neg hne
    rw [upcoming?, performStore, MemoryStore.perform, hagain]
    rfl
  | database tables d =>
    have hallocate : d.allocateGroup.1 = .ok g := congrArg Prod.fst (Option.some.inj h)
    obtain rfl : database tables d.allocateGroup.2 = b' := congrArg Prod.snd (Option.some.inj h)
    obtain ⟨t, next, ht, hlimit, rfl, hafter⟩ := Database.of_allocateGroup hallocate
    refine ⟨_, hle _ _, ?_⟩
    have hagain (next : Int64) : { d with sequence := .at next }.allocateGroup =
        if Int64.maxValue - 1 ≤ Database.largestGroup t ∨ next = Int64.maxValue then
          (.error Database.inexact.toStoreError, { d with sequence := .inexact })
        else (.ok ⟨max next (Database.largestGroup t + 1)⟩,
          { d with sequence := .at (max next (Database.largestGroup t + 1) + 1) }) := by
      simp only [Database.allocateGroup, Database.entriesOrError, ht]
    rw [upcoming?, performStore, Database.performStore, hafter, hagain]
    by_cases hlast : max next (Database.largestGroup t + 1) + 1 = Int64.maxValue
    · rw [if_pos (.inr hlast)]
      refine .inr ⟨rfl, ?_⟩
      rw [← hlast, Int64.add_sub_cancel]
      exact Int64.le_rfl
    · rw [if_neg (not_or.2 ⟨hlimit, hlast⟩)]
      exact .inl rfl

/-- As long as the identifiers ascend, each one is the number after the one before. -/
theorem toInt_upcoming (h : b.performStore .allocateGroup = some (.ok g, b'))
    (hnext : b'.upcoming? = some g') (hlt : g < g') : g'.val.toInt = g.val.toInt + 1 := by
  obtain ⟨m, hm, hsome | ⟨hnone, -⟩⟩ := upcoming_of_allocateGroup h
  · cases hnext.symm.trans hsome
    rw [Identifier.lt_iff_toInt, Int64.toInt_max] at hlt
    rw [Int64.le_iff_toInt_le] at hm
    have hroom : g.val.toInt < Int64.maxValue.toInt := by
      have := (g.val + 1).toInt_le
      omega
    rw [Int64.toInt_max, Int64.toInt_add_one hroom]
    omega
  · cases hnext.symm.trans hnone

/-- Before the end of the range it is handed out. -/
theorem upcoming_eq (h : b.performStore .allocateGroup = some (.ok g, b'))
    (hlt : g.val < Int64.maxValue - 1) : b'.upcoming? = some ⟨g.val + 1⟩ := by
  rw [Int64.lt_iff_toInt_lt, Int64.toInt_maxValue_sub_one] at hlt
  obtain ⟨m, hm, hsome | ⟨-, hfull⟩⟩ := upcoming_of_allocateGroup h
  · rw [hsome]
    refine congrArg some (Identifier.ext (Int64.toInt_inj.1 ?_))
    rw [Int64.le_iff_toInt_le] at hm
    rw [Int64.toInt_max, Int64.toInt_add_one (by omega)]
    omega
  · rw [Int64.le_iff_toInt_le, Int64.toInt_maxValue_sub_one] at hfull
    omega

end Backend

end AccessGroups
