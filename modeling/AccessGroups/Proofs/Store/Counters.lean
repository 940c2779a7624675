import AccessGroups.Proofs.Store.Ledger
import AccessGroups.Store.Backend

/-!
# The counters of identifiers

Stores hand out identifiers from counters of 64-bit words. As long as no counter comes to its
largest value their arithmetic is that of integers.

## Main definitions

* `IdCounters`: the counters of a store, with `IdCounters.exhaustedBy`.
* `MemoryStore.idCounters`, `Database.idCounters`, `Backend.idCounters`: those of the stores.

## Main results

* `Int64.toInt_max`, `Int64.toInt_add_one`: sums and maxima of words as integers.
* `Int64.largest_lt_iff`: bounds on the largest of some words.
-/

namespace Int64

theorem toInt_max (a b : Int64) : (max a b).toInt = max a.toInt b.toInt := by
  change (if a ≤ b then b else a).toInt = max a.toInt b.toInt
  rw [Int.max_def]
  simp only [Int64.le_iff_toInt_le]
  split <;> rfl

theorem toInt_maxValue_sub_one : (Int64.maxValue - 1).toInt = Int64.maxValue.toInt - 1 := by
  decide

theorem toInt_add_one {a : Int64} (h : a.toInt < Int64.maxValue.toInt) :
    (a + 1).toInt = a.toInt + 1 := by
  have := a.le_toInt
  rw [Int64.toInt_maxValue] at h
  rw [Int64.toInt_add, Int64.toInt_one]
  exact Int.bmod_eq_of_le (by omega) (by omega)

/-- The larger one of a word and some others is below a bound when all of them are. -/
theorem toInt_foldl_max_lt_iff {n : Int} (a : Int64) (words : List Int64) :
    (words.foldl max a).toInt < n ↔ ∀ b ∈ a :: words, b.toInt < n := by
  induction words generalizing a with
  | nil => simp
  | cons b rest ih =>
    have hmax : (max a b).toInt < n ↔ a.toInt < n ∧ b.toInt < n := by
      rw [toInt_max]
      omega
    simp only [List.foldl_cons, ih, List.forall_mem_cons, hmax, and_assoc]

/-- The largest of some words, or zero if there are none, is below a positive bound when all of them
are. -/
theorem largest_lt_iff {n : Int} (hn : 0 < n) (words : List Int64) :
    (words.max?.getD 0).toInt < n ↔ ∀ b ∈ words, b.toInt < n := by
  cases words with
  | nil => simpa using hn
  | cons a rest => simpa [List.max?_cons'] using toInt_foldl_max_lt_iff a rest

end Int64

namespace AccessGroups

/-- The counters from which a store hands out identifiers. -/
structure IdCounters where
  /-- The counter of the identifiers of rows. -/
  entry : Int
  /-- The counter of the identifiers of groups. -/
  group : Int
  /-- The largest group of a row, or zero. -/
  largestGroup : Int

/-- The call takes a counter to the largest value of a word or beyond it. -/
def IdCounters.exhaustedBy (n : IdCounters) : Call → Bool
  | .store (.insert _) => Int64.maxValue.toInt ≤ n.entry + 1
  | .store (.replaceGroup _ grants) => Int64.maxValue.toInt ≤ n.entry + grants.length
  | .store .allocateGroup => Int64.maxValue.toInt ≤ max n.group (n.largestGroup + 1) + 1
  | _ => false

namespace IdCounters

theorem exhaustedBy_insert_eq_false {n : IdCounters} {grant : Grant} :
    n.exhaustedBy (.store (.insert grant)) = false ↔ n.entry + 1 < Int64.maxValue.toInt := by
  rw [exhaustedBy, decide_eq_false_iff_not, Int.not_le]

theorem exhaustedBy_replaceGroup_eq_false {n : IdCounters} {g : GroupId} {grants : List Grant} :
    n.exhaustedBy (.store (.replaceGroup g grants)) = false ↔
      n.entry + grants.length < Int64.maxValue.toInt := by
  rw [exhaustedBy, decide_eq_false_iff_not, Int.not_le]

theorem exhaustedBy_allocateGroup_eq_false {n : IdCounters} :
    n.exhaustedBy (.store .allocateGroup) = false ↔
      n.group + 1 < Int64.maxValue.toInt ∧ n.largestGroup + 2 < Int64.maxValue.toInt := by
  rw [exhaustedBy, decide_eq_false_iff_not, Int.not_le]
  omega

end IdCounters

/-- The counters of a store in memory. -/
def MemoryStore.idCounters (s : MemoryStore) : IdCounters :=
  ⟨s.nextEntry.toInt, s.nextGroup.toInt, s.largestGroup.toInt⟩

/-- The counters of a database: that of rows stands at the largest identifier ever used. -/
def Database.idCounters (d : Database) : IdCounters where
  entry := (d.lastEntry.getD 0).toInt
  group := match d.sequence with
    | .at next => next.toInt
    | _ => 0
  largestGroup := ((d.entries.map Database.largestGroup).getD 0).toInt

/-- The counters of a store of either kind. -/
def Backend.idCounters : Backend → IdCounters
  | .memory store _ => store.idCounters
  | .database _ data => data.idCounters

end AccessGroups
