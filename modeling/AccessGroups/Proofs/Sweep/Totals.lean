import AccessGroups.Metrics
import Mathlib

/-!
# What the metrics add up to

Whatever runs of the sweep are recorded, a counter holds the sum of what they raised it by, as far
as a 64-bit word holds it. The sums do not depend on the order of the runs. The durations are kept
one by one in that order, and of the unrepairable entries only the last number is kept.

## Main definitions

* `SweepEvent.raises`: the counters that a run raises.
* `Recorder.ofEvents`: everything recorded from an empty recorder.
* `Recorder.Totals`: what the metrics of some runs have to be.

## Main results

* `Counter.name_injective`: what is recorded about a counter is recorded under its name alone.
* `Recorder.counters_raiseAll`: the value of a counter after it has been raised many times.
* `Recorder.totals_ofEvents`: the metrics are what they have to be.
-/

namespace AccessGroups

namespace Counter

theorem mem_all (c : Counter) : c ∈ all := by
  cases c with
  | runs result => cases result <;> decide
  | repairs phase | failures phase => cases phase <;> decide

/-- Different counters have different names. -/
theorem name_injective : Function.Injective name := by
  have hnames : (all.map name).Nodup := by decide +kernel
  exact fun c c' h => List.inj_on_of_nodup_map hnames (mem_all c) (mem_all c') h

end Counter

/-- The counters that the report of a run raises, with the amounts. -/
def Summary.raises (s : Summary) : List (Counter × Nat) :=
  repairPhases.map (fun p => (.repairs p, s.repairsOf p)) ++
    s.failures.map fun f => (.failures f.phase, 1)

namespace SweepEvent

/-- The report of a run that came to its end or was cancelled. -/
def summary? : SweepEvent → Option Summary
  | .completed s _ => some s
  | _ => none

/-- The counters that the end of a run raises, with the amounts. -/
def raises (e : SweepEvent) : List (Counter × Nat) :=
  (.runs e.result, 1) :: (e.summary?.map Summary.raises).getD []

/-- The run was turned away. -/
def isSkipped : SweepEvent → Bool
  | .skipped => true
  | _ => false

/-- The run failed. -/
def isAborted : SweepEvent → Bool
  | .aborted _ => true
  | _ => false

end SweepEvent

namespace Recorder

variable {r : Recorder} {c : Counter} {l : List (Counter × Nat)} {events : List SweepEvent}

/-! ### Counters that are raised many times -/

/-- The value of a counter, zero if it was never raised. -/
def value (r : Recorder) (c : Counter) : Nat :=
  ((r.counters c).getD 0).toNat

/-- Raise counters one after another. -/
def raiseAll (r : Recorder) (l : List (Counter × Nat)) : Recorder :=
  l.foldl (fun r x => r.raise x.1 x.2.toUInt64) r

/-- The sum of the amounts for one counter. -/
def total (c : Counter) (l : List (Counter × Nat)) : Nat :=
  ((l.filter fun x => x.1 = c).map Prod.snd).sum

theorem total_append (c : Counter) (l l' : List (Counter × Nat)) :
    total c (l ++ l') = total c l + total c l' := by
  simp [total]

theorem total_cons (c : Counter) (x : Counter × Nat) (l : List (Counter × Nat)) :
    total c (x :: l) = (if x.1 = c then x.2 else 0) + total c l := by
  by_cases hx : x.1 = c <;> simp [total, hx]

theorem total_eq_zero (h : c ∉ l.map Prod.fst) : total c l = 0 := by
  have hnone : l.filter (fun x => x.1 = c) = [] := by
    refine List.filter_eq_nil_iff.2 fun x hx hc => h ?_
    exact List.mem_map.2 ⟨x, hx, of_decide_eq_true hc⟩
  rw [total, hnone]
  rfl

theorem value_raise (r : Recorder) (c c' : Counter) (n : Nat) :
    (r.raise c' n.toUInt64).value c = if c' = c then (r.value c + n) % 2 ^ 64 else r.value c := by
  by_cases hc : c' = c
  · subst hc
    simp [value, raise, UInt64.toNat_add]
  · simp [value, raise, hc, Ne.symm hc]

theorem counters_raise_self (r : Recorder) (c : Counter) (n : Nat) :
    (r.raise c n.toUInt64).counters c = some (UInt64.ofNat (r.value c + n)) := by
  have hsum : (r.counters c).getD 0 + n.toUInt64 = UInt64.ofNat (r.value c + n) :=
    UInt64.toNat_inj.1 (by simp [value, UInt64.toNat_add])
  rw [← hsum]
  exact if_pos rfl

theorem counters_raise_of_ne {c' : Counter} (h : c ≠ c') (n : UInt64) :
    (r.raise c' n).counters c = r.counters c :=
  if_neg h

/-- A counter that has been raised holds the sum of the amounts, as far as its word holds it. -/
theorem counters_raiseAll (r : Recorder) (l : List (Counter × Nat)) (c : Counter) :
    (r.raiseAll l).counters c =
      if c ∈ l.map Prod.fst then some (UInt64.ofNat (r.value c + total c l)) else r.counters c := by
  induction l generalizing r with
  | nil => rfl
  | cons x rest ih =>
    have hstep : r.raiseAll (x :: rest) = (r.raise x.1 x.2.toUInt64).raiseAll rest := rfl
    rw [hstep, ih, value_raise, total_cons]
    by_cases hx : x.1 = c
    · have hmem : c ∈ (x :: rest).map Prod.fst := List.mem_map.2 ⟨x, List.mem_cons_self .., hx⟩
      rw [if_pos hx, if_pos hx, if_pos hmem]
      split
      · refine congrArg some (UInt64.toNat_inj.1 ?_)
        simp [Nat.add_assoc]
      · next hrest =>
        rw [total_eq_zero hrest, ← hx]
        exact counters_raise_self r x.1 x.2
    · rw [if_neg hx, if_neg hx, Nat.zero_add, counters_raise_of_ne (Ne.symm hx)]
      simp only [List.map_cons, List.mem_cons, Ne.symm hx, false_or]

theorem value_raiseAll (l : List (Counter × Nat)) (c : Counter) :
    (raiseAll {} l).value c = total c l % 2 ^ 64 := by
  rw [value, counters_raiseAll]
  by_cases hc : c ∈ l.map Prod.fst
  · rw [if_pos hc]
    simp [value]
  · rw [if_neg hc, total_eq_zero hc]
    rfl

/-! ### Recording runs -/

/-- Everything recorded about some runs, from an empty recorder. -/
def ofEvents (events : List SweepEvent) : Recorder :=
  events.foldl record {}

theorem raiseAll_append (r : Recorder) (l l' : List (Counter × Nat)) :
    r.raiseAll (l ++ l') = (r.raiseAll l).raiseAll l' :=
  List.foldl_append

theorem counters_raiseAll_congr {r' : Recorder} (h : r.counters = r'.counters)
    (l : List (Counter × Nat)) : (r.raiseAll l).counters = (r'.raiseAll l).counters := by
  funext c
  rw [counters_raiseAll, counters_raiseAll, value, value, h]

theorem durations_raiseAll (r : Recorder) (l : List (Counter × Nat)) :
    (r.raiseAll l).durations = r.durations := by
  induction l generalizing r with
  | nil => rfl
  | cons x rest ih => exact ih (r.raise x.1 x.2.toUInt64)

theorem summarize_eq (r : Recorder) (s : Summary) : r.summarize s =
    { r.raiseAll s.raises with unrepairable := some s.unrepairableEntries.toUInt64.toFloat } := by
  rw [Summary.raises, raiseAll_append, raiseAll, raiseAll, List.foldl_map, List.foldl_map]
  rfl

/-- The counters after a run has been recorded. -/
theorem counters_record (r : Recorder) (e : SweepEvent) :
    (r.record e).counters = (r.raiseAll e.raises).counters := by
  cases e with
  | skipped | aborted => rfl
  | completed s elapsed =>
    rw [record, summarize_eq]
    let counted := r.raise (.runs (SweepEvent.completed s elapsed).result) 1
    have hsame : (counted.observe elapsed).counters = counted.counters := rfl
    exact counters_raiseAll_congr hsame s.raises

theorem counters_ofEvents (events : List SweepEvent) :
    (ofEvents events).counters = (raiseAll {} (events.flatMap SweepEvent.raises)).counters := by
  induction events using List.reverseRecOn with
  | nil => rfl
  | append_singleton front e ih =>
    rw [ofEvents, List.foldl_append, List.flatMap_append, raiseAll_append, List.flatMap_singleton]
    exact (counters_record _ e).trans (counters_raiseAll_congr ih _)

theorem value_ofEvents (events : List SweepEvent) (c : Counter) :
    (ofEvents events).value c = (events.map fun e => total c e.raises).sum % 2 ^ 64 := by
  have hflat : total c (events.flatMap SweepEvent.raises) =
      (events.map fun e => total c e.raises).sum := by
    induction events with
    | nil => rfl
    | cons e rest ih => rw [List.flatMap_cons, total_append, ih, List.map_cons, List.sum_cons]
  rw [value, counters_ofEvents, ← hflat]
  exact value_raiseAll _ c

theorem counters_ofEvents_perm {events' : List SweepEvent} (h : events.Perm events') :
    (ofEvents events).counters = (ofEvents events').counters := by
  have hperm : (events.flatMap SweepEvent.raises).Perm (events'.flatMap SweepEvent.raises) :=
    h.flatMap_right _
  funext c
  rw [counters_ofEvents, counters_ofEvents, counters_raiseAll, counters_raiseAll]
  have htotal : total c (events.flatMap SweepEvent.raises) =
      total c (events'.flatMap SweepEvent.raises) := ((hperm.filter _).map _).sum_eq
  have hmem : c ∈ (events.flatMap SweepEvent.raises).map Prod.fst ↔
      c ∈ (events'.flatMap SweepEvent.raises).map Prod.fst := (hperm.map _).mem_iff
  rw [htotal, if_congr hmem rfl rfl]

/-! ### The sums over the runs -/

/-- The reports of the runs that came to their end or were cancelled. -/
def summaries (events : List SweepEvent) : List Summary :=
  events.filterMap SweepEvent.summary?

theorem sum_map_summaries {g : SweepEvent → Nat} {f : Summary → Nat}
    (h : ∀ e, g e = (e.summary?.map f).getD 0) (events : List SweepEvent) :
    (events.map g).sum = ((summaries events).map f).sum := by
  induction events with
  | nil => rfl
  | cons e rest ih =>
    rw [List.map_cons, List.sum_cons, ih, h]
    unfold summaries
    rw [List.filterMap_cons]
    cases e.summary? with
    | none => exact Nat.zero_add _
    | some s => rfl

theorem sum_map_ite {α : Type} (p : α → Bool) (l : List α) :
    (l.map fun a => if p a then 1 else 0).sum = l.countP p := by
  induction l with
  | nil => rfl
  | cons a rest ih => rw [List.map_cons, List.sum_cons, ih, List.countP_cons, Nat.add_comm]

theorem total_failures (p : Phase) (l : List RepairFailure) :
    total (.failures p) (l.map fun f => (Counter.failures f.phase, 1)) =
      l.countP fun f => f.phase = p := by
  induction l with
  | nil => rfl
  | cons f rest ih =>
    rw [List.map_cons, total_cons, ih, List.countP_cons, Nat.add_comm]
    simp only [Counter.failures.injEq, decide_eq_true_eq]

theorem total_summary (s : Summary) (c : Counter) : total c s.raises =
    match c with
    | .runs _ => 0
    | .repairs p => s.repairsOf p
    | .failures p => s.failures.countP fun f : RepairFailure => f.phase = p := by
  rw [Summary.raises, total_append]
  cases c with
  | runs x =>
    rw [total_eq_zero (by simp), total_eq_zero (by simp)]
  | repairs p =>
    rw [total_eq_zero (l := s.failures.map _) (by simp)]
    cases p <;> simp [total, repairPhases, Summary.repairsOf]
  | failures p =>
    rw [total_eq_zero (by simp), total_failures]
    exact Nat.zero_add _

/-- What a run adds to a counter. -/
theorem total_raises (e : SweepEvent) (c : Counter) : total c e.raises =
    (if .runs e.result = c then 1 else 0) + (e.summary?.map fun s => total c s.raises).getD 0 := by
  rw [SweepEvent.raises, total_cons]
  cases e.summary? <;> rfl

theorem value_repairs (events : List SweepEvent) (p : Phase) :
    (ofEvents events).value (.repairs p) =
      ((summaries events).map fun s => s.repairsOf p).sum % 2 ^ 64 := by
  rw [value_ofEvents, sum_map_summaries fun e => ?_]
  rw [total_raises, if_neg (by simp), Nat.zero_add]
  simp only [total_summary]

theorem value_failures (events : List SweepEvent) (p : Phase) :
    (ofEvents events).value (.failures p) =
      ((summaries events).map fun s => s.failures.countP fun f => f.phase = p).sum % 2 ^ 64 := by
  rw [value_ofEvents, sum_map_summaries fun e => ?_]
  rw [total_raises, if_neg (by simp), Nat.zero_add]
  simp only [total_summary]

theorem value_runs (events : List SweepEvent) (x : RunResult) :
    (ofEvents events).value (.runs x) = events.countP (fun e => e.result = x) % 2 ^ 64 := by
  have hone (e : SweepEvent) :
      total (.runs x) e.raises = if decide (e.result = x) = true then 1 else 0 := by
    rw [total_raises]
    cases e.summary? <;> simp [total_summary]
  rw [value_ofEvents, ← sum_map_ite]
  simp only [hone]

/-! ### The metrics of some runs -/

theorem countP_summaries (events : List SweepEvent) (p : Summary → Bool) :
    (summaries events).countP p = events.countP fun e => (e.summary?.map p).getD false := by
  rw [summaries, List.countP_filterMap]

theorem countP_result (events : List SweepEvent) (x : RunResult) :
    events.countP (fun e => e.result = x) = match x with
      | .completed => (summaries events).countP fun s => !s.cancelled
      | .cancelled => (summaries events).countP fun s => s.cancelled
      | .skipped => events.countP SweepEvent.isSkipped
      | .aborted => events.countP SweepEvent.isAborted := by
  have hcompleted (s : Summary) (elapsed : Duration) :
      (SweepEvent.completed s elapsed).result = if s.cancelled then .cancelled else .completed :=
    rfl
  cases x with
  | completed | cancelled =>
    dsimp only
    rw [countP_summaries]
    refine List.countP_congr fun e _ => ?_
    cases e with
    | skipped | aborted => simp [SweepEvent.result, SweepEvent.summary?]
    | completed s elapsed => cases hs : s.cancelled <;> simp [hcompleted, SweepEvent.summary?, hs]
  | skipped | aborted =>
    refine List.countP_congr fun e _ => ?_
    cases e with
    | skipped | aborted => simp [SweepEvent.result, SweepEvent.isSkipped, SweepEvent.isAborted]
    | completed s elapsed =>
      cases hs : s.cancelled <;> simp [hcompleted, SweepEvent.isSkipped, SweepEvent.isAborted, hs]

theorem sum_countP_result (events : List SweepEvent) :
    (RunResult.all.map fun x => events.countP fun e => e.result = x).sum = events.length := by
  induction events with
  | nil => rfl
  | cons e rest ih =>
    simp only [RunResult.all, List.map_cons, List.map_nil, List.sum_cons, List.sum_nil,
      List.countP_cons, List.length_cons] at ih ⊢
    cases e.result <;> simp <;> omega

theorem sum_repairs (l : List Summary) : (l.map Summary.repairs).sum =
    (repairPhases.map fun p => (l.map fun s => s.repairsOf p).sum).sum := by
  induction l with
  | nil => rfl
  | cons s rest ih =>
    simp only [repairPhases, Summary.repairsOf, Summary.repairs, List.map_cons, List.map_nil,
      List.sum_cons, List.sum_nil] at ih ⊢
    omega

/-- What the metrics of some runs are. A counter holds its number as far as a 64-bit word does; the
order of the runs matters only for the durations and for the last number of unrepairable entries. -/
structure Totals (events : List SweepEvent) (r : Recorder) : Prop where
  completed : r.value (.runs .completed) =
    (summaries events).countP (fun s => !s.cancelled) % 2 ^ 64
  cancelled : r.value (.runs .cancelled) = (summaries events).countP (fun s => s.cancelled) % 2 ^ 64
  skipped : r.value (.runs .skipped) = events.countP SweepEvent.isSkipped % 2 ^ 64
  aborted : r.value (.runs .aborted) = events.countP SweepEvent.isAborted % 2 ^ 64
  /-- Every run is counted under one result. -/
  runs : (RunResult.all.map fun x => r.value (.runs x)).sum % 2 ^ 64 = events.length % 2 ^ 64
  runs_of_lt : events.length < 2 ^ 64 →
    (RunResult.all.map fun x => r.value (.runs x)).sum = events.length
  /-- Every run that was not skipped has its duration. -/
  durations : r.durations = (events.filterMap SweepEvent.elapsed?).map Duration.toFloat
  split : r.value (.repairs .splitMixed) =
    ((summaries events).map Summary.splitEntries).sum % 2 ^ 64
  reassigned : r.value (.repairs .reassignShared) =
    ((summaries events).map Summary.reassignedResources).sum % 2 ^ 64
  created : r.value (.repairs .createMissing) =
    ((summaries events).map Summary.createdGroups).sum % 2 ^ 64
  deleted : r.value (.repairs .deleteOrphans) =
    ((summaries events).map Summary.deletedOrphanGroups).sum % 2 ^ 64
  collapsed : r.value (.repairs .collapseDuplicates) =
    ((summaries events).map Summary.deletedDuplicateEntries).sum % 2 ^ 64
  /-- If the sum of no phase is too large for its counter, the counters together are the repairs. -/
  repairs : (∀ p ∈ repairPhases, ((summaries events).map fun s => s.repairsOf p).sum < 2 ^ 64) →
    (repairPhases.map fun p => r.value (.repairs p)).sum =
      ((summaries events).map Summary.repairs).sum
  failures (p : Phase) : r.value (.failures p) =
    ((summaries events).map fun s => s.failures.countP fun f => f.phase = p).sum % 2 ^ 64
  unrepairable : r.unrepairable =
    (summaries events).getLast?.map fun s => s.unrepairableEntries.toUInt64.toFloat
  reordered (events' : List SweepEvent) (hperm : events.Perm events') :
    (ofEvents events').counters = r.counters

theorem durations_record (r : Recorder) (e : SweepEvent) :
    (r.record e).durations = r.durations ++ e.elapsed?.toList.map Duration.toFloat := by
  cases e with
  | skipped => exact (List.append_nil _).symm
  | aborted => rfl
  | completed s elapsed =>
    rw [record, summarize_eq]
    exact durations_raiseAll _ s.raises

theorem durations_ofEvents (events : List SweepEvent) :
    (ofEvents events).durations =
      (events.filterMap SweepEvent.elapsed?).map Duration.toFloat := by
  induction events using List.reverseRecOn with
  | nil => rfl
  | append_singleton front e ih =>
    rw [ofEvents, List.foldl_append, List.filterMap_append, List.map_append, ← ih]
    refine (durations_record _ e).trans ?_
    cases he : e.elapsed? <;> simp [he, ofEvents]

theorem unrepairable_record (r : Recorder) (e : SweepEvent) :
    (r.record e).unrepairable =
      (e.summary?.map fun s => s.unrepairableEntries.toUInt64.toFloat).or r.unrepairable := by
  cases e with
  | skipped | aborted => rfl
  | completed s elapsed =>
    rw [record, summarize_eq]
    rfl

theorem unrepairable_ofEvents (events : List SweepEvent) : (ofEvents events).unrepairable =
    (summaries events).getLast?.map fun s => s.unrepairableEntries.toUInt64.toFloat := by
  induction events using List.reverseRecOn with
  | nil => rfl
  | append_singleton front e ih =>
    rw [ofEvents, List.foldl_append, summaries, List.filterMap_append, List.getLast?_append]
    refine (unrepairable_record _ e).trans ?_
    cases he : e.summary? with
    | none =>
      rw [List.filterMap_cons_none he]
      exact ih
    | some s =>
      rw [List.filterMap_cons_some he]
      rfl

/-- **Metrics add up.** Whatever runs are recorded, the counters are the sums over the runs, every
run that was not skipped has its duration, and the number of unrepairable entries is that of the
last run that was not skipped and did not fail. -/
theorem totals_ofEvents (events : List SweepEvent) : Totals events (ofEvents events) := by
  have hruns : (RunResult.all.map fun x => (ofEvents events).value (.runs x)).sum =
      (RunResult.all.map fun x => events.countP (fun e => e.result = x) % 2 ^ 64).sum :=
    congrArg List.sum (List.map_congr_left fun x _ => value_runs events x)
  have hlength := sum_countP_result events
  simp only [RunResult.all, List.map_cons, List.map_nil, List.sum_cons, List.sum_nil] at hlength
  exact {
    completed := by rw [value_runs, countP_result]
    cancelled := by rw [value_runs, countP_result]
    skipped := by rw [value_runs, countP_result]
    aborted := by rw [value_runs, countP_result]
    runs := by
      rw [hruns]
      simp only [RunResult.all, List.map_cons, List.map_nil, List.sum_cons, List.sum_nil]
      omega
    runs_of_lt := by
      intro hlt
      rw [hruns]
      simp only [RunResult.all, List.map_cons, List.map_nil, List.sum_cons, List.sum_nil]
      omega
    durations := durations_ofEvents events
    split := value_repairs events .splitMixed
    reassigned := value_repairs events .reassignShared
    created := value_repairs events .createMissing
    deleted := value_repairs events .deleteOrphans
    collapsed := value_repairs events .collapseDuplicates
    repairs := by
      intro hlt
      rw [sum_repairs]
      refine congrArg List.sum (List.map_congr_left fun p hp => ?_)
      rw [value_repairs, Nat.mod_eq_of_lt (hlt p hp)]
    failures := value_failures events
    unrepairable := unrepairable_ofEvents events
    reordered := fun events' hperm => (counters_ofEvents_perm hperm).symm }

end Recorder

end AccessGroups
