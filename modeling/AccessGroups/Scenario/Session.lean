import AccessGroups.Scenario.Machine

/-!
# Sessions

A session plays the steps of a scenario one after another and reports on each: its result, the
calls and log events that it caused, the results of nested steps, and what is stored if that has
changed since it was last shown.

## Main definitions

* `Scenario.Session`: the beginning of a session, with `Scenario.Session.play`.
* `Scenario.Observation`: the report on a step.
-/

namespace AccessGroups.Scenario

/-- What is stored. -/
structure Snapshot where
  entries : List Entry := []
  resources : List (ResourceKind × HostRow) := []
  deriving DecidableEq

/-- The stored rows and resources of a world. -/
def Snapshot.ofWorld (w : World) : Snapshot :=
  ⟨w.backend.entries, w.backend.resources⟩

/-- The report on a step. -/
structure Observation where
  result : Result
  calls : List Call
  log : List Event
  nested : List Result
  /-- What is stored, if that has changed since it was last shown. -/
  state : Option Snapshot

/-- A step of a session; what is stored after a quiet step is not shown. -/
structure Cue where
  step : Step
  quiet : Bool

/-- The beginning of a session. -/
structure Session where
  backend : Backend
  operator : UserId

namespace Session

/-- The machine at the beginning. -/
def start (s : Session) : Machine where
  scene := {
    world := { backend := s.backend }
    operator := s.operator }

/-- Forget what has been observed. -/
def forget (m : Machine) : Machine :=
  { m with scene := { m.scene with
      calls := [], nested := [], world := { m.scene.world with log := [] } } }

/-- Play the steps one after another, when they weigh so much at most and what is stored was last
shown as given. -/
def playFrom (weight : Nat) : List Cue → Snapshot → Machine → List Observation
  | [], _, _ => []
  | cue :: rest, shown, m =>
    let (result, m) := m.runAct (scheduledRun weight) weight (performWithin weight .main cue.step)
    let current := Snapshot.ofWorld m.scene.world
    let changed := !cue.quiet && current ≠ shown
    { result
      calls := m.scene.calls.reverse
      log := m.scene.world.log.reverse
      nested := m.scene.nested
      state := if changed then some current else none } ::
    playFrom weight rest (if changed then current else shown) (forget m)

/-- Play the steps of a session. -/
def play (s : Session) (cues : List Cue) : List Observation :=
  playFrom (Step.weightOf (cues.map fun c => c.step)) cues {} s.start

end Session

end AccessGroups.Scenario
