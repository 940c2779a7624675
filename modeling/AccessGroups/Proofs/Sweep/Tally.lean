import AccessGroups.Proofs.Sweep.Thorough

/-!
# What the counters of a report count

Every counter of the report of a sweep counts calls that succeeded: the updates that finish a split,
the assignments of fresh groups, the rows made up for missing groups, the deletions of orphans that
found rows, and the deletions of rows that repeat others. This holds wherever a call fails and
whenever the sweep is cancelled, with one exception. If a group loses some of its repeated rows
before the deletion of another one fails, then the report notes the failure and the rows that are
gone do not count.

## Main definitions

* `Sweep.callsOf`: the calls of the attempts of a phase.
* `Sweep.Tallied`: the counters are the numbers of these calls.

## Main results

* `Sweep.repairsOf_foldl_settle`, `Sweep.deletedDuplicateEntries_foldl_settle`: the counters after
  some attempts.
* `Sweep.tallied_runOnce`: the counters of a sweep that was completed.
-/

namespace AccessGroups

namespace Summary

theorem repairsOf_add {p q : Phase} (hq : q ≠ .scan) (r : Summary) (n : Nat) :
    (r.add q n).repairsOf p = r.repairsOf p + if q = p then n else 0 := by
  cases q <;> cases p <;> first | rfl | exact absurd rfl hq

/-- An attempt adds its repairs to the counter of its phase. -/
theorem repairsOf_settle (r : Summary) (a : Sweep.Task.Attempt) (p : Phase) :
    (r.settle a).repairsOf p = r.repairsOf p + if a.task.phase = p then a.repairs else 0 := by
  rw [settle, Sweep.Task.Attempt.repairs]
  cases a.verdict with
  | failed e => cases p <;> simp [note, fail, repairsOf]
  | skipped => simp [note]
  | succeeded n => exact repairsOf_add a.task.phase_ne_scan r n

end Summary

namespace Sweep

variable {operator : UserId} {attempts : List Task.Attempt} {rest : List Task} {r : Summary}
  {p : Phase}

/-- The calls of some of the attempts. -/
def callsOf (which : Task.Attempt → Bool) (attempts : List Task.Attempt) : List Exchange :=
  (attempts.filter which).flatMap Task.Attempt.calls

/-- The attempt belongs to a phase. -/
def Task.Attempt.isOf (p : Phase) (a : Task.Attempt) : Bool :=
  a.task.phase = p

/-- The attempt to collapse a group failed. -/
def Task.Attempt.inVain (a : Task.Attempt) : Bool :=
  a.isOf .collapseDuplicates && a.failure?.isSome

/-- The counters of the report are the numbers of these calls. Of the rows that repeat others, those
do not count that were deleted by attempts that failed. -/
structure Tallied (xs : List Exchange) (attempts : List Task.Attempt) (r : Summary) : Prop where
  split : r.splitEntries = xs.countP (Exchange.mends .splitMixed)
  reassigned : r.reassignedResources = xs.countP (Exchange.mends .reassignShared)
  created : r.createdGroups =
    (callsOf (Task.Attempt.isOf .createMissing) attempts).countP (Exchange.mends .createMissing)
  deleted : r.deletedOrphanGroups = xs.countP (Exchange.mends .deleteOrphans)
  collapsed : r.deletedDuplicateEntries +
      (callsOf Task.Attempt.inVain attempts).countP (Exchange.mends .collapseDuplicates) =
    xs.countP (Exchange.mends .collapseDuplicates)

theorem countP_callsOf_cons (which : Task.Attempt → Bool) (a : Task.Attempt)
    (attempts : List Task.Attempt) :
    (callsOf which (a :: attempts)).countP (Exchange.mends p) =
      (if which a then a.calls.countP (Exchange.mends p) else 0) +
        (callsOf which attempts).countP (Exchange.mends p) := by
  rw [callsOf, List.filter_cons]
  split
  · rw [List.flatMap_cons, List.countP_append]
    rfl
  · rw [Nat.zero_add]
    rfl

/-- Calls that are made for a task repair nothing as far as another phase is concerned, but for the
rows that a split stores as well. -/
theorem mends_of_makes {task : Task} {x : Exchange} (hmakes : task.makes x.call = true)
    (hp : p ≠ .createMissing) (hne : task.phase ≠ p) : x.mends p = false := by
  rcases x with ⟨c | c | c, x⟩ <;> cases task <;> cases c <;> cases hmakes <;> cases p <;>
    first | rfl | exact absurd rfl hp | exact absurd rfl hne

/-- All calls that repair something for a phase are those of its attempts. -/
theorem countP_flatMap_calls (hproper : ∀ a ∈ attempts, a.Proper) (hp : p ≠ .createMissing) :
    (attempts.flatMap Task.Attempt.calls).countP (Exchange.mends p) =
      (callsOf (Task.Attempt.isOf p) attempts).countP (Exchange.mends p) := by
  induction attempts with
  | nil => rfl
  | cons a attempts ih =>
    obtain ⟨ha, hrest⟩ := List.forall_mem_cons.1 hproper
    rw [List.flatMap_cons, List.countP_append, countP_callsOf_cons, ih hrest]
    split
    · rfl
    · next hne =>
      have hother : a.task.phase ≠ p := by simpa [Task.Attempt.isOf] using hne
      rw [List.countP_eq_zero.2 fun x hx => ?_]
      exact Bool.eq_false_iff.1 (mends_of_makes (ha.makes x hx) hp hother)

/-- The counter of a phase after some attempts, unless these collapse groups. -/
theorem repairsOf_foldl_settle (hproper : ∀ a ∈ attempts, a.Proper)
    (hp : p ≠ .collapseDuplicates) (r : Summary) :
    (attempts.foldl Summary.settle r).repairsOf p =
      r.repairsOf p + (callsOf (Task.Attempt.isOf p) attempts).countP (Exchange.mends p) := by
  induction attempts generalizing r with
  | nil => rfl
  | cons a attempts ih =>
    obtain ⟨ha, hrest⟩ := List.forall_mem_cons.1 hproper
    have hcounted : (if a.task.phase = p then a.repairs else 0) =
        if a.isOf p then a.calls.countP (Exchange.mends p) else 0 := by
      by_cases heq : a.task.phase = p
      · subst heq
        simp [Task.Attempt.isOf, ha.repairs hp]
      · simp [Task.Attempt.isOf, heq]
    rw [List.foldl_cons, ih hrest, Summary.repairsOf_settle, hcounted, countP_callsOf_cons,
      Nat.add_assoc]

/-- An attempt to collapse a group counts its repairs only if it did not fail. -/
theorem repairs_of_collapse {a : Task.Attempt} (h : a.task.phase = .collapseDuplicates) :
    a.repairs = if a.failure?.isSome then 0
      else a.calls.countP (Exchange.mends .collapseDuplicates) := by
  have hmoot : a.calls.any a.task.moot = false := by
    refine List.any_eq_false.2 fun x _ => ?_
    cases htask : a.task <;> rw [htask] at h <;> cases h <;> exact Bool.false_ne_true
  rw [Task.Attempt.repairs, Task.Attempt.failure?, Task.Attempt.verdict, hmoot, h]
  cases a.calls.findSome? a.task.refusal? <;> rfl

/-- After some attempts, the rows that were deleted count or were deleted in vain. -/
theorem deletedDuplicateEntries_foldl_settle (attempts : List Task.Attempt) (r : Summary) :
    (attempts.foldl Summary.settle r).repairsOf .collapseDuplicates +
        (callsOf Task.Attempt.inVain attempts).countP (Exchange.mends .collapseDuplicates) =
      r.repairsOf .collapseDuplicates +
        (callsOf (Task.Attempt.isOf .collapseDuplicates) attempts).countP
          (Exchange.mends .collapseDuplicates) := by
  induction attempts generalizing r with
  | nil => rfl
  | cons a attempts ih =>
    have hrest := ih (r.settle a)
    have hcounted : (if a.task.phase = .collapseDuplicates then a.repairs else 0) +
          (if a.inVain then a.calls.countP (Exchange.mends .collapseDuplicates) else 0) =
        if a.isOf .collapseDuplicates then a.calls.countP (Exchange.mends .collapseDuplicates)
          else 0 := by
      by_cases heq : a.task.phase = .collapseDuplicates
      · cases hfailed : a.failure?.isSome <;>
          simp [Task.Attempt.inVain, Task.Attempt.isOf, heq, repairs_of_collapse heq, hfailed]
      · simp [Task.Attempt.inVain, Task.Attempt.isOf, heq]
    rw [Summary.repairsOf_settle] at hrest
    rw [List.foldl_cons, countP_callsOf_cons, countP_callsOf_cons]
    omega

/-- The calls of a scan repair nothing. -/
theorem countP_exchanges (v : Survey) (p : Phase) : v.exchanges.countP (Exchange.mends p) = 0 := by
  refine List.countP_eq_zero.2 fun x hx => ?_
  rcases List.mem_cons.1 hx with rfl | hx
  · cases p <;> exact Bool.false_ne_true
  · obtain ⟨listing, -, rfl⟩ := List.mem_map.1 hx
    cases p <;> exact Bool.false_ne_true

/-- The report of a sweep that was completed is tallied. -/
theorem Chronicle.tallied {v : Survey} (h : Chronicle operator v attempts rest r) :
    Tallied (v.exchanges ++ attempts.flatMap Task.Attempt.calls) attempts r := by
  have hproper : ∀ a ∈ attempts, a.Proper := fun a ha => (h.made a ha).toProper
  have hnone (p : Phase) : v.summary.repairsOf p = 0 := by
    obtain ⟨_, _, _, _, hsummary⟩ := v.exists_summary
    rw [hsummary]
    cases p <;> rfl
  have hreport (p : Phase) : r.repairsOf p =
      (attempts.foldl Summary.settle v.summary).repairsOf p := by
    rw [h.report]
    cases p <;> rfl
  have hcounted (p : Phase) (hp : p ≠ .collapseDuplicates) : r.repairsOf p =
      (callsOf (Task.Attempt.isOf p) attempts).countP (Exchange.mends p) := by
    rw [hreport, repairsOf_foldl_settle hproper hp, hnone, Nat.zero_add]
  have hall (p : Phase) (hp : p ≠ .createMissing) :
      (v.exchanges ++ attempts.flatMap Task.Attempt.calls).countP (Exchange.mends p) =
        (callsOf (Task.Attempt.isOf p) attempts).countP (Exchange.mends p) := by
    rw [List.countP_append, countP_exchanges, Nat.zero_add, countP_flatMap_calls hproper hp]
  have hsame (p : Phase) (hp : p ≠ .collapseDuplicates) (hp' : p ≠ .createMissing) :
      r.repairsOf p =
        (v.exchanges ++ attempts.flatMap Task.Attempt.calls).countP (Exchange.mends p) :=
    (hcounted p hp).trans (hall p hp').symm
  refine ⟨hsame .splitMixed nofun nofun, hsame .reassignShared nofun nofun,
    hcounted .createMissing nofun, hsame .deleteOrphans nofun nofun, ?_⟩
  have hdeleted := deletedDuplicateEntries_foldl_settle attempts v.summary
  rw [hnone, Nat.zero_add, ← hreport, ← hall .collapseDuplicates nofun] at hdeleted
  exact hdeleted

variable {w : World} {d : Disturbance}

/-- Wherever calls fail and whenever it is cancelled, the counters of a sweep that was completed are
the numbers of the calls that succeeded, except that the rows deleted by an attempt to collapse a
group do not count if it failed in the end. -/
theorem tallied_runOnce (operator : UserId)
    (h : (w.watch d (runOnce operator)).1 = some (.ok (.completed r))) :
    ∃ v attempts rest, Chronicle operator v attempts rest r ∧
      (w.watch d (runOnce operator)).2.exchanges =
        v.exchanges ++ attempts.flatMap Task.Attempt.calls ∧
        Tallied (w.watch d (runOnce operator)).2.exchanges attempts r := by
  have hmay : ∀ n, (w.cancelled || d.cancelled n) = true → True := fun _ _ => trivial
  obtain ⟨-, hskipped, -⟩ | ⟨-, hconducted⟩ :=
    conducted_runOnce hmay (.inl (h ▸ Option.some_ne_none _))
  · cases h.symm.trans hskipped
  rw [h] at hconducted
  obtain ⟨e, -, hfailed⟩ | ⟨v, attempts, rest, r, hresult, hexchanges, hchronicle, -⟩ :=
    hconducted.exists_chronicle
  · cases hfailed
  · cases hresult
    exact ⟨v, attempts, rest, hchronicle, hexchanges, hexchanges ▸ hchronicle.tallied⟩

/-- A world in which a group has the same grant three times. -/
def threefold : World where
  backend := .memory
    { entries := .ofRows [
        ⟨.forUser ⟨5⟩ ⟨1⟩ Privilege.read.mask, ⟨1⟩⟩,
        ⟨.forUser ⟨5⟩ ⟨1⟩ Privilege.read.mask, ⟨2⟩⟩,
        ⟨.forUser ⟨5⟩ ⟨1⟩ Privilege.read.mask, ⟨3⟩⟩]
      nextEntry := 4 }
    { refs := fun
        | .page => .ofRows [⟨⟨1⟩, ⟨5⟩⟩]
        | _ => .empty }

/-- The second deletion of a row fails. -/
def secondDown : Disturbance where
  fault n := if n = 13 then some (.backend "down") else none

/-- One row is deleted, and the report counts none. -/
theorem tallied_runOnce_threefold :
    ∃ r attempts, (threefold.watch secondDown (runOnce ⟨7⟩)).1 = some (.ok (.completed r)) ∧
      Tallied (threefold.watch secondDown (runOnce ⟨7⟩)).2.exchanges attempts r ∧
        r.deletedDuplicateEntries = 0 ∧
          (threefold.watch secondDown (runOnce ⟨7⟩)).2.exchanges.countP
            (Exchange.mends .collapseDuplicates) = 1 := by
  have hdeleted : (threefold.watch secondDown (runOnce ⟨7⟩)).2.exchanges.countP
      (Exchange.mends .collapseDuplicates) = 1 := by decide +kernel
  have hresult : (threefold.watch secondDown (runOnce ⟨7⟩)).1 = some (.ok (.completed
      { scannedEntries := 3
        scannedResources := 1
        failures := [⟨.collapseDuplicates, "group 5", "backend error: down"⟩] })) := by
    decide +kernel
  obtain ⟨v, attempts, rest, -, -, htallied⟩ := tallied_runOnce ⟨7⟩ hresult
  exact ⟨_, attempts, hresult, htallied, rfl, hdeleted⟩

end Sweep

end AccessGroups
