import AccessGroups.Sweep.Repair

/-!
# A run of the sweep

A run takes the flag that at most one run can hold, scans, repairs, and gives the flag back. A run
that finds the flag taken is skipped. A run fails only if the rows cannot be read.

## Main definitions

* `SweepOutcome`: a run was completed, or skipped.
* `Sweep.runOnce`: one run.
-/

namespace AccessGroups

/-- How a run ended that did not fail. -/
inductive SweepOutcome where
  | completed (summary : Summary)
  | skipped
  deriving DecidableEq, Repr

namespace Sweep

/-- What the log says at the end of a run. -/
def closing (r : Summary) : Event :=
  if r.repairs > 0 || !r.failures.isEmpty then
    .sweepRepaired r.repairs r.failures.length r.cancelled
  else .sweepIdle r.cancelled

/-- A run that holds the flag. -/
def runHolding (operator : UserId) : Prog (Except ServiceError SweepOutcome) := do
  Prog.log .sweepStarting
  match ← scan with
  | .error e =>
    Prog.perform (.record .aborted)
    return .error e
  | .ok (s, r) =>
    let r ← repair operator s r
    Prog.perform (.record (.completed r))
    Prog.log (closing r)
    return .ok (.completed r)

/-- One run of the sweep. -/
def runOnce (operator : UserId) : Prog (Except ServiceError SweepOutcome) := do
  if ← Prog.perform .claim then
    let result ← runHolding operator
    Prog.perform .release
    return result
  else
    Prog.log .sweepRunning
    Prog.perform (.record .skipped)
    return .ok .skipped

end Sweep

end AccessGroups
