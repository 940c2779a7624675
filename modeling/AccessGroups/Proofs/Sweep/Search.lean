import AccessGroups.Proofs.Program.Stateful
import AccessGroups.Proofs.Store.Allocation
import AccessGroups.Proofs.Sweep.Safe
import AccessGroups.Proofs.Sweep.Survey
import Mathlib.Data.List.Perm.Subperm
import Mathlib.Order.Bounds.Defs
import Mathlib.Tactic.Choose

/-!
# The search for a fresh group

A resource that shares its group is moved to one that nothing refers to. The sweep asks the store
for a group until it is given one that the scan has not met, and nothing in this loop bounds the
number of requests. What ends it is that the store hands out ascending identifiers, so that every
refusal leaves one referenced group fewer at or above the next answer. Others may take identifiers
in between; without them the search goes through all identifiers from the next one of the store to
the first one that is not referenced.

## Main definitions

* `Sweep.issuing`: the answers to the requests of a search, one after another.
* `Sweep.searched`: what a search comes to.
* `Sweep.Settles`: the answer that ends a search.
* `Sweep.Alone`: nobody else takes an identifier while a search goes on.
* `Sweep.Consumed`: what a search comes to that was alone.

## Main results

* `Sweep.runIn_allocateFresh`: a search ends with the answer that settles it.
* `Sweep.Ascends.le_countP`: the groups that were refused are referenced and not below the first.
* `Sweep.search_allocateUnreferenced`: where every search ends.
-/

namespace AccessGroups.Sweep

open Prog

/-- Requests for a group are answered one after another. The state counts them. -/
def issuing (answers : Nat → Except StoreError GroupId) (n : Nat) :
    (op : Op) → Option op.Answer × Nat
  | .call (.store .allocateGroup) => (some (answers n), n + 1)
  | .log _ => (some (), n)
  | _ => (none, n)

/-- What the search for a fresh group comes to, and the number of its requests. -/
def searched (referenced : List GroupId) (answers : Nat → Except StoreError GroupId) :
    Option (Except ServiceError GroupId) × Nat :=
  (allocateUnreferenced referenced).runIn (issuing answers) 0

/-- The answer is a group that is referenced. -/
def Refused (referenced : List GroupId) (answer : Except StoreError GroupId) : Prop :=
  ∃ g ∈ referenced, answer = .ok g

instance (referenced : List GroupId) (answer : Except StoreError GroupId) :
    Decidable (Refused referenced answer) :=
  inferInstanceAs (Decidable (∃ g ∈ referenced, answer = .ok g))

/-- The search ends with this answer: a failure, or the first group that is not referenced. -/
structure Settles (referenced : List GroupId) (answers : Nat → Except StoreError GroupId)
    (n : Nat) : Prop where
  before : ∀ k < n, Refused referenced (answers k)
  last : ¬ Refused referenced (answers n)

/-- The groups among the first answers ascend. -/
def Ascends (answers : Nat → Except StoreError GroupId) (calls : Nat) : Prop :=
  ∀ i j g h, i < j → j < calls → answers i = .ok g → answers j = .ok h → g < h

variable {answers : Nat → Except StoreError GroupId} {referenced : List GroupId} {last : Nat}

/-! ### What a search comes to -/

theorem yields_allocateGroup (n : Nat) : (Prog.store .allocateGroup).Yields (issuing answers) n
    (answers n) (n + 1) :=
  yields_perform rfl fun _ => rfl

/-- A search goes past the groups that are referenced. -/
theorem runFrom_allocateFresh {held : Bool} (h : ∀ k < last, Refused referenced (answers k))
    (limit : Nat) : (allocateFresh referenced (last + limit)).runFrom (issuing answers) held 0 =
      (allocateFresh referenced limit).runFrom (issuing answers) held last := by
  induction last generalizing limit with
  | zero => rw [Nat.zero_add]
  | succ k ih =>
    obtain ⟨g, hmem, hanswer⟩ := h k k.lt_succ_self
    rw [Nat.succ_add_eq_add_succ, ih fun i hi => h i (Nat.lt_succ_of_lt hi), allocateFresh_succ,
      (yields_allocateGroup k).runFrom_bind, hanswer]
    dsimp only
    rw [if_neg (not_not.2 hmem)]
    exact (yields_perform rfl fun _ => rfl).runFrom_bind _

/-- It ends with the answer that settles it, whatever bound above that it is given. -/
theorem runIn_allocateFresh (h : Settles referenced answers last) {limit : Nat}
    (hlimit : last < limit) : (allocateFresh referenced limit).runIn (issuing answers) 0 =
      (some (Groups.ofAnswer (answers last)), last + 1) := by
  obtain ⟨rest, rfl⟩ : ∃ rest, limit = last + (rest + 1) := ⟨limit - last - 1, by omega⟩
  have hend : (allocateFresh referenced (rest + 1)).runFrom (issuing answers) false last =
      (some (Groups.ofAnswer (answers last), false), last + 1) := by
    rw [allocateFresh_succ, (yields_allocateGroup last).runFrom_bind]
    have hlast := h.last
    cases hanswer : answers last with
    | error e => rfl
    | ok g =>
      have hfresh : g ∉ referenced := fun hmem => hlast ⟨g, hmem, hanswer⟩
      dsimp only
      rw [if_pos hfresh]
      rfl
  rw [runIn_eq, runFrom_allocateFresh h.before, hend]
  rfl

/-- The groups that were refused are referenced, and none of them is below the first answer. -/
theorem Ascends.le_countP (hascends : Ascends answers last)
    (h : ∀ k < last, Refused referenced (answers k)) {first : GroupId}
    (hfirst : answers 0 = .ok first) : last ≤ referenced.countP (first ≤ ·) := by
  choose! group hmem hanswer using h
  have hascending : ((List.range last).map group).Pairwise (· < ·) := by
    refine List.pairwise_map.2 (List.pairwise_lt_range.imp_of_mem fun hi hj hlt => ?_)
    rw [List.mem_range] at hi hj
    exact hascends _ _ _ _ hlt hj (hanswer _ hi) (hanswer _ hj)
  have hsub : (List.range last).map group ⊆ referenced.filter (first ≤ ·) := by
    intro g hg
    obtain ⟨k, hk, rfl⟩ := List.mem_map.1 hg
    rw [List.mem_range] at hk
    refine List.mem_filter.2 ⟨hmem k hk, decide_eq_true ?_⟩
    rw [Identifier.le_iff_toInt]
    rcases Nat.eq_zero_or_pos k with rfl | hpos
    · cases hfirst.symm.trans (hanswer 0 hk)
      exact Int.le_refl _
    · exact Int.le_of_lt (Identifier.lt_iff_toInt.1
        (hascends 0 k first (group k) hpos hk hfirst (hanswer k hk)))
  have hnodup : ((List.range last).map group).Nodup :=
    Identifier.nodup_of_pairwise_lt hascending
  have hlength := (hnodup.subperm hsub).length_le
  rwa [List.length_map, List.length_range, ← List.countP_eq_length_filter] at hlength

/-- If the answers ascend, one of them ends the search before its bound is reached. -/
theorem exists_settles {limit : Nat} (hlimit : referenced.length < limit)
    (hascends : Ascends answers ((allocateFresh referenced limit).runIn (issuing answers) 0).2) :
    ∃ last < limit, Settles referenced answers last := by
  by_contra hnone
  have hall : ∀ k < limit, Refused referenced (answers k) := by
    intro k
    induction k using Nat.strongRecOn with
    | ind k ih =>
      intro hk
      by_contra hend
      exact hnone ⟨k, hk, fun i hi => ih i hi (Nat.lt_trans hi hk), hend⟩
  have hcalls : ((allocateFresh referenced limit).runIn (issuing answers) 0).2 = limit := by
    have hrun : (allocateFresh referenced limit).runFrom (issuing answers) false 0 =
        (none, limit) :=
      runFrom_allocateFresh hall 0
    rw [runIn_eq, hrun]
  obtain ⟨first, -, hfirst⟩ := hall 0 (by omega)
  have hcount := (hcalls ▸ hascends).le_countP hall hfirst
  have := List.countP_le_length (p := fun g => decide (first ≤ g)) (l := referenced)
  omega

/-! ### A search without others -/

/-- These are the stores that the requests find. No request fails, and what others do before the
next one leaves the group that comes next as it is. -/
def Alone (stores : Nat → Backend) (answers : Nat → Except StoreError GroupId) (calls : Nat) :
    Prop :=
  ∀ k < calls, ∃ g b, answers k = .ok g ∧
    (stores k).performStore .allocateGroup = some (.ok g, b) ∧
      (stores (k + 1)).upcoming? = b.upcoming?

/-- A search that was alone has taken the identifiers from the first to the last one, which is the
least one that is not referenced. -/
structure Consumed (referenced : List GroupId) (answers : Nat → Except StoreError GroupId)
    (last : Nat) (first fresh : GroupId) : Prop where
  taken : ∀ k ≤ last, ∃ g, answers k = .ok g ∧ g.val.toInt = first.val.toInt + k
  final : answers last = .ok fresh
  least : IsLeast {g | first ≤ g ∧ g ∉ referenced} fresh

variable {stores : Nat → Backend}

theorem Alone.exists_upcoming {calls : Nat} (h : Alone stores answers (calls + 1)) :
    ∃ first, (stores 0).upcoming? = some first := by
  obtain ⟨g, b, -, hcall, -⟩ := h 0 calls.succ_pos
  exact ⟨g, Backend.upcoming_of_performStore hcall⟩

/-- Without others the identifiers follow one another. -/
theorem Alone.taken {first : GroupId} (h : Alone stores answers (last + 1))
    (hascends : Ascends answers (last + 1)) (hfirst : (stores 0).upcoming? = some first) {k : Nat}
    (hk : k ≤ last) : ∃ g, answers k = .ok g ∧ g.val.toInt = first.val.toInt + k := by
  induction k with
  | zero =>
    obtain ⟨g, b, hanswer, hcall, -⟩ := h 0 last.succ_pos
    cases hfirst.symm.trans (Backend.upcoming_of_performStore hcall)
    exact ⟨first, hanswer, (Int.add_zero _).symm⟩
  | succ k ih =>
    obtain ⟨g, hanswer, hg⟩ := ih (Nat.le_of_succ_le hk)
    obtain ⟨g₁, b, hanswer₁, hcall, hnext⟩ := h k (by omega)
    cases hanswer.symm.trans hanswer₁
    obtain ⟨g', b', hanswer', hcall', -⟩ := h (k + 1) (by omega)
    have hlt : g < g' := hascends _ _ _ _ k.lt_succ_self (by omega) hanswer hanswer'
    have hupcoming := Backend.upcoming_of_performStore hcall'
    have hstep := Backend.toInt_upcoming hcall (hnext.symm.trans hupcoming) hlt
    exact ⟨g', hanswer', by omega⟩

theorem Alone.consumed {first : GroupId} (h : Alone stores answers (last + 1))
    (hascends : Ascends answers (last + 1)) (hsettles : Settles referenced answers last)
    (hfirst : (stores 0).upcoming? = some first) :
    ∃ fresh, Consumed referenced answers last first fresh := by
  obtain ⟨fresh, hfinal, hfresh⟩ := h.taken hascends hfirst (Nat.le_refl last)
  refine ⟨fresh, fun k hk => h.taken hascends hfirst hk, hfinal, ⟨?_, fun hmem => ?_⟩, ?_⟩
  · rw [Identifier.le_iff_toInt]
    omega
  · exact hsettles.last ⟨fresh, hmem, hfinal⟩
  · rintro g ⟨hle, hnot⟩
    rw [Identifier.le_iff_toInt] at hle ⊢
    by_contra hlt
    -- an identifier between the first one and this one has been refused
    obtain ⟨k, hk⟩ := Int.le.dest hle
    have hbefore : k < last := by omega
    obtain ⟨g', hanswer, hg'⟩ := h.taken hascends hfirst (Nat.le_of_lt hbefore)
    obtain ⟨g₁, hmem, hanswer₁⟩ := hsettles.before k hbefore
    cases hanswer.symm.trans hanswer₁
    have heq : g = g' := Identifier.eq_iff_toInt.2 (by omega)
    exact hnot (heq ▸ hmem)

/-- From a valid group on, the result is also the least group that no listing shows. -/
theorem Consumed.least_unmentioned {v : Survey} {first fresh : GroupId}
    (h : Consumed v.scan.referenced answers last first fresh) (hvalid : first.IsValid) :
    IsLeast {g | first ≤ g ∧ ¬ Survey.Mentions v.listings g} fresh := by
  have hsame : {g | first ≤ g ∧ g ∉ v.scan.referenced} =
      {g | first ≤ g ∧ ¬ Survey.Mentions v.listings g} := by
    refine Set.ext fun g => and_congr_right fun hle => not_congr ?_
    have hg : g.IsValid := Int64.lt_of_lt_of_le hvalid hle
    rw [v.mem_referenced, and_iff_right hg]
  rw [← hsame]
  exact h.least

/-- If the groups that it is given ascend, a search ends with the first answer that is not a
referenced group. It makes at most one request more than there are referenced groups that are not
below the first answer, and the bound that it is given is never reached. Without others it takes the
identifiers from the next one of the store to the least one that is not referenced. If the next one
is valid, as all are that a store should hand out, that is the least one that no listing shows. -/
theorem search_allocateUnreferenced (v : Survey) (answers : Nat → Except StoreError GroupId)
    (hascends : Ascends answers (searched v.scan.referenced answers).2) :
    ∃ last, Settles v.scan.referenced answers last ∧
      searched v.scan.referenced answers = (some (Groups.ofAnswer (answers last)), last + 1) ∧
      (∀ limit > last, (allocateFresh v.scan.referenced limit).runIn (issuing answers) 0 =
        searched v.scan.referenced answers) ∧
      (∀ first, answers 0 = .ok first → last ≤ v.scan.referenced.countP (first ≤ ·)) ∧
      ∀ stores, Alone stores answers (last + 1) → ∃ first fresh,
        (stores 0).upcoming? = some first ∧ Consumed v.scan.referenced answers last first fresh ∧
          (first.IsValid → IsLeast {g | first ≤ g ∧ ¬ Survey.Mentions v.listings g} fresh) ∧
          (fresh.val < Int64.maxValue - 1 →
            (stores (last + 1)).upcoming? = some ⟨fresh.val + 1⟩) := by
  have hpos : 0 < UInt64.size := by decide
  obtain ⟨last, hlimit, hsettles⟩ := exists_settles (by omega) hascends
  have hrun {limit : Nat} (h : last < limit) :
      (allocateFresh v.scan.referenced limit).runIn (issuing answers) 0 = _ :=
    runIn_allocateFresh hsettles h
  have hsearched : searched v.scan.referenced answers = _ := hrun hlimit
  rw [hsearched] at hascends
  have hbefore : Ascends answers last := fun i j g h hlt hj =>
    hascends i j g h hlt (Nat.lt_succ_of_lt hj)
  refine ⟨last, hsettles, hsearched, fun limit h => (hrun h).trans hsearched.symm,
    fun first hfirst => hbefore.le_countP hsettles.before hfirst, fun stores halone => ?_⟩
  obtain ⟨first, hfirst⟩ := halone.exists_upcoming
  obtain ⟨fresh, hconsumed⟩ := halone.consumed hascends hsettles hfirst
  refine ⟨first, fresh, hfirst, hconsumed, hconsumed.least_unmentioned, fun hlt => ?_⟩
  obtain ⟨g, b, hanswer, hcall, hnext⟩ := halone last last.lt_succ_self
  cases hconsumed.final.symm.trans hanswer
  exact hnext.trans (Backend.upcoming_eq hcall hlt)

/-- Two pages refer to the first two groups, which no row has. -/
def occupied : Survey where
  rows := []
  listings := ResourceKind.all.map fun kind =>
    ⟨kind, .ok (if kind = .page then [⟨⟨1⟩, ⟨1⟩⟩, ⟨⟨2⟩, ⟨2⟩⟩] else [])⟩
  complete := rfl

/-- The identifiers of a store that begins with one. -/
def counting (k : Nat) : Except StoreError GroupId :=
  .ok ⟨.ofNat (k + 1)⟩

/-- A store without rows that has handed out so many identifiers. -/
def unfilled (k : Nat) : Backend :=
  .memory { nextGroup := .ofNat (k + 1) } {}

/-- In a new store a search goes past both groups and takes the third one. -/
theorem search_occupied :
    Ascends counting (searched occupied.scan.referenced counting).2 ∧ Alone unfilled counting 3 ∧
      Consumed occupied.scan.referenced counting 2 ⟨1⟩ ⟨3⟩ ∧
      IsLeast {g | ⟨1⟩ ≤ g ∧ ¬ Survey.Mentions occupied.listings g} ⟨3⟩ := by
  have hreferenced : occupied.scan.referenced = [⟨1⟩, ⟨2⟩] := by decide
  have hsettles : Settles occupied.scan.referenced counting 2 := by
    rw [hreferenced]
    constructor
    · decide
    · decide
  have hrun : searched occupied.scan.referenced counting = (some (.ok ⟨3⟩), 3) :=
    runIn_allocateFresh hsettles (Nat.lt_add_left _ (by decide))
  have hascends : Ascends counting 3 := by
    have hfirst : ∀ j < 3, ∀ i < j, (⟨.ofNat (i + 1)⟩ : GroupId) < ⟨.ofNat (j + 1)⟩ := by decide
    intro i j g h hlt hj hg hh
    cases hg
    cases hh
    exact hfirst j hj i hlt
  have halone : Alone unfilled counting 3 := by
    intro k hk
    obtain rfl | rfl | rfl : k = 0 ∨ k = 1 ∨ k = 2 := by omega
    · exact ⟨_, _, rfl, rfl, rfl⟩
    · exact ⟨_, _, rfl, rfl, rfl⟩
    · exact ⟨_, _, rfl, rfl, rfl⟩
  have hsearch : Ascends counting (searched occupied.scan.referenced counting).2 := by
    rw [hrun]
    exact hascends
  obtain ⟨last, -, hcalls, -, -, hstores⟩ := search_allocateUnreferenced occupied counting hsearch
  obtain rfl : last = 2 := Nat.succ.inj (congrArg Prod.snd (hcalls.symm.trans hrun))
  obtain ⟨first, fresh, hfirst, hconsumed, hleast, -⟩ := hstores unfilled halone
  cases hfirst
  cases hconsumed.final
  exact ⟨hsearch, halone, hconsumed, hleast (by decide)⟩

end AccessGroups.Sweep
