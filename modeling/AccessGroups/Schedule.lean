import AccessGroups.Settings

/-!
# The timetable of the sweep

The first sweep waits for a fixed delay and a random share of another one; later sweeps follow at a
fixed interval. A sweep that is late starts at once, and the ones after it keep to the grid that the
first one began. The task that sweeps ends as soon as it looks at the clock after it was cancelled.

Times are counted in milliseconds.

## Main definitions

* `Timetable`: the interval and the two parts of the first delay; the interval is positive.
* `Timetable.firstDelay`: the delay before the first sweep for a random draw.
* `nextTick`: when the next sweep is due.
* `Stage`, `Stage.step`: where the task stands and what it does next.
-/

namespace AccessGroups

/-- The interval of the sweep and the two parts of the delay before the first one. -/
structure Timetable where
  interval : Duration
  initialDelay : Duration
  jitter : Duration
  interval_pos : interval.nanos ≠ 0

namespace Timetable

/-- The timetable with these parts, unless the interval is zero. -/
def ofParts (interval initialDelay jitter : Duration) : Except SettingError Timetable :=
  if h : interval.nanos ≠ 0 then .ok ⟨interval, initialDelay, jitter, h⟩ else .error .zeroInterval

/-- The timetable of the settings. -/
def ofSettings (s : SweepSettings) : Except SettingError Timetable :=
  ofParts s.interval s.initialDelay s.jitter

/-- The longest random delay in milliseconds, within 64 bits. -/
def jitterMillis (t : Timetable) : Nat :=
  min t.jitter.millis (UInt64.size - 1)

/-- The delay before the first sweep for a random draw of at most `jitterMillis` milliseconds. -/
def firstDelay (t : Timetable) (draw : Fin (t.jitterMillis + 1)) : Duration :=
  t.initialDelay.saturatingAdd (.ofMillis (UInt64.ofNat draw.val))

end Timetable

/-- When the tick after one that was due at `due` and came at `now` is due. A tick counts as late
when it comes more than five milliseconds after it was due; the ticks missed until `now` are left
out. -/
def nextTick (period due now : Nat) : Nat :=
  if now ≤ due + 5 then due + period else now + period - (now - due) % period

/-- Where the task that sweeps stands. -/
inductive Stage where
  /-- The task has not yet run. -/
  | fresh
  /-- The delay before the first sweep ends at `due`. -/
  | waiting (due : Nat)
  /-- The next sweep is due at `due`. -/
  | ticking (due : Nat)
  | stopped
  deriving DecidableEq, Repr

/-- What the task does when it has something to do. -/
inductive Move where
  /-- The task announces itself and begins to wait. -/
  | announce
  /-- The delay is over. -/
  | ready
  | sweep
  /-- The task ends because it was cancelled, before the first delay was over or after it. -/
  | stop (early : Bool)
  deriving DecidableEq, Repr

namespace Stage

/-- The time at which the task has something to do unless it is cancelled. -/
def due? : Stage → Option Nat
  | .fresh => some 0
  | .waiting due => some due
  | .ticking due => some due
  | .stopped => none

/-- What the task does at time `now`, and where it stands then; nothing if it has to wait. -/
def step (period delay now : Nat) (cancelled : Bool) : Stage → Option (Move × Stage)
  | .fresh => some (.announce, .waiting (now + delay))
  | .waiting due =>
    if cancelled then some (.stop true, .stopped)
    else if due ≤ now then some (.ready, .ticking now)
    else none
  | .ticking due =>
    if cancelled then some (.stop false, .stopped)
    else if due ≤ now then some (.sweep, .ticking (nextTick period due now))
    else none
  | .stopped => none

end Stage

end AccessGroups
