import AccessGroups.Sweep.Report
import AccessGroups.Time.Duration

/-!
# Metrics of the sweep

What has been recorded about the runs of the sweep: counters of runs by result and of repairs and
failures by phase, the durations of the runs, and the number of unrepairable entries that the last
run saw. Counters are 64-bit words and wrap around.

## Main definitions

* `SweepEvent`: the end of a run that was skipped, aborted or completed.
* `Recorder`: everything recorded so far, with `Recorder.record`.
* `Counter`: the names of the counters.
-/

namespace AccessGroups

/-- How a run ended, as the metrics tell runs apart. -/
inductive RunResult where
  | completed
  | cancelled
  | skipped
  | aborted
  deriving DecidableEq, Repr

namespace RunResult

/-- The results in the order of their labels. -/
def all : List RunResult := [.completed, .cancelled, .skipped, .aborted]

/-- The result as a label. -/
def name : RunResult → String
  | .completed => "completed"
  | .cancelled => "cancelled"
  | .skipped => "skipped"
  | .aborted => "aborted"

end RunResult

/-- The counters. -/
inductive Counter where
  | runs (result : RunResult)
  | repairs (phase : Phase)
  | failures (phase : Phase)
  deriving DecidableEq, Repr

namespace Counter

/-- Every counter that can be recorded. -/
def all : List Counter :=
  RunResult.all.map .runs ++ Phase.all.map .repairs ++ Phase.all.map .failures

/-- The name of the counter with its label. -/
def name : Counter → String
  | .runs result => "warden_sweep_runs_total\x7bresult=" ++ result.name ++ "\x7d"
  | .repairs phase => "warden_sweep_repairs_total\x7bphase=" ++ phase.name ++ "\x7d"
  | .failures phase => "warden_sweep_failures_total\x7bphase=" ++ phase.name ++ "\x7d"

end Counter

/-- The name of the histogram of durations. -/
def durationsName : String := "warden_sweep_duration_seconds"

/-- The name of the gauge of unrepairable entries. -/
def unrepairableName : String := "warden_sweep_unrepairable_entries"

/-- What each metric means. -/
def metricDescriptions : List (String × String) :=
  [("counter warden_sweep_runs_total",
      "Consistency sweeps by result (completed, cancelled, skipped, aborted)"),
    ("histogram " ++ durationsName, "Duration of consistency sweeps in seconds"),
    ("counter warden_sweep_repairs_total", "Repairs performed, by phase"),
    ("counter warden_sweep_failures_total", "Failed repair items, by phase"),
    ("gauge " ++ unrepairableName,
      "Entries without a principal or privileges seen by the last sweep")]

/-- The end of a run. -/
inductive SweepEvent where
  /-- The run was turned away because another one was going on. -/
  | skipped
  /-- The run failed before it repaired anything. -/
  | aborted (elapsed : Duration)
  /-- The run came to its end or was cancelled. -/
  | completed (summary : Summary) (elapsed : Duration)

/-- The end of a run before anybody looked at the clock. -/
inductive SweepEnd where
  | skipped
  | aborted
  | completed (summary : Summary)
  deriving DecidableEq, Repr

/-- The end of a run that took some time. -/
def SweepEnd.after (elapsed : Duration) : SweepEnd → SweepEvent
  | .skipped => .skipped
  | .aborted => .aborted elapsed
  | .completed summary => .completed summary elapsed

namespace SweepEvent

/-- The result under which the run is counted. -/
def result : SweepEvent → RunResult
  | .skipped => .skipped
  | .aborted _ => .aborted
  | .completed summary _ => if summary.cancelled then .cancelled else .completed

/-- How long the run took, if it was not skipped. -/
def elapsed? : SweepEvent → Option Duration
  | .skipped => none
  | .aborted elapsed => some elapsed
  | .completed _ elapsed => some elapsed

end SweepEvent

/-- The phases whose repairs are counted. -/
def repairPhases : List Phase :=
  [.splitMixed, .reassignShared, .createMissing, .deleteOrphans, .collapseDuplicates]

/-- Everything recorded so far. A counter that was never raised has no value. -/
structure Recorder where
  counters : Counter → Option UInt64 := fun _ => none
  unrepairable : Option Float := none
  durations : List Float := []
  described : Bool := false

namespace Recorder

instance : Inhabited Recorder := ⟨{}⟩

/-- Raise a counter. -/
def raise (r : Recorder) (c : Counter) (amount : UInt64) : Recorder :=
  { r with
    counters := fun c' =>
      if c' = c then some ((r.counters c).getD 0 + amount) else r.counters c' }

/-- Record how long a run took. -/
def observe (r : Recorder) (elapsed : Duration) : Recorder :=
  { r with durations := r.durations ++ [elapsed.toFloat] }

/-- Record what a run did. -/
def summarize (r : Recorder) (s : Summary) : Recorder :=
  let repaired := repairPhases.foldl (fun r p => r.raise (.repairs p) (s.repairsOf p).toUInt64) r
  let failed := s.failures.foldl (fun r f => r.raise (.failures f.phase) 1) repaired
  { failed with unrepairable := some s.unrepairableEntries.toUInt64.toFloat }

/-- Record the end of a run. -/
def record (r : Recorder) (e : SweepEvent) : Recorder :=
  let counted := r.raise (.runs e.result) 1
  match e with
  | .skipped => counted
  | .aborted elapsed => counted.observe elapsed
  | .completed summary elapsed => (counted.observe elapsed).summarize summary

/-- Record what the metrics mean. -/
def describe (r : Recorder) : Recorder :=
  { r with described := true }

/-- The counters that have been raised, with their values. -/
def counterValues (r : Recorder) : List (Counter × UInt64) :=
  Counter.all.filterMap fun c => (r.counters c).map (c, ·)

end Recorder

end AccessGroups
