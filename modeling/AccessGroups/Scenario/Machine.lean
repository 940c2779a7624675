import AccessGroups.Scenario.Scene

/-!
# Time in a scenario

Time moves only while the steps of a scenario let it pass, and then the tasks that sweep on
timetables get their turns. A task whose sweep lets time pass, or that waits for its next sweep, is
put aside until the clock has come to its time; tasks go on in the order in which they were put
aside. A task whose sweep is abandoned ends there.

## Main definitions

* `Scenario.Task`: a task that sweeps on a timetable.
* `Scenario.Machine`: a scene with a clock and the tasks.
* `Scenario.Machine.runAct`: running an act of the steps.
-/

namespace AccessGroups.Scenario

/-- A task that sweeps on a timetable. -/
structure Task where
  number : Nat
  period : Nat
  delay : Nat
  stage : Stage := .fresh
  /-- The rest of the sweep that the task has begun, which says whether the sweep was abandoned. -/
  sweep : Option (SceneAct Bool) := none

/-- What a task waits for. -/
inductive Wait where
  | time (due : Nat)
  /-- The end of another task, on which the rest of its own sweep depends. -/
  | endOf (task : Nat) (next : Bool → SceneAct Bool)

/-- The time that a task waits for, if it waits for one. -/
def Wait.due? : Wait → Option Nat
  | .time due => some due
  | .endOf _ _ => none

/-- A scene with a clock and tasks. -/
structure Machine where
  scene : Scene
  clock : Nat := 0
  /-- The tasks that can go on, in the order in which they do. -/
  ready : List Task := []
  /-- The tasks that wait, in the order in which they began to. -/
  waiting : List (Wait × Task) := []
  /-- The tasks that have ended, and whether they crashed. -/
  ended : List (Nat × Bool) := []

namespace Machine

/-- Say something in the log. -/
def say (e : Event) (m : Machine) : Machine :=
  { m with scene := m.scene.say e }

/-- Let a task wait. -/
def putAside (w : Wait) (t : Task) (m : Machine) : Machine :=
  { m with waiting := m.waiting ++ [(w, t)] }

/-- Let the waiting tasks of some kind go on. -/
def wake (f : Wait × Task → Option Task) (m : Machine) : Machine :=
  { m with
    ready := m.ready ++ m.waiting.filterMap f
    waiting := m.waiting.filter fun w => (f w).isNone }

/-- Let the clock go on, and with it the tasks that wait for the time. -/
def moveClock (time : Nat) (m : Machine) : Machine :=
  { m with clock := time }.wake fun (w, t) => if w.due?.any (· ≤ time) then some t else none

/-- Let the tasks that wait for their next sweep notice that they have been cancelled. -/
def wakeCancelled (m : Machine) : Machine :=
  m.wake fun (w, t) =>
    if w.due?.isSome && t.sweep.isNone && m.scene.isCancelled (.task t.number) then some t else none

/-- How a task has ended, if it has. -/
def outcome? (number : Nat) (m : Machine) : Option Bool :=
  (m.ended.find? fun e => e.1 = number).map fun e => e.2

/-- End a task; the tasks that wait for its end go on. -/
def endTask (number : Nat) (crashed : Bool) (m : Machine) : Machine :=
  { m with ended := (number, crashed) :: m.ended }.wake fun
    | (.endOf task next, t) =>
      if task = number then some { t with sweep := some (next crashed) } else none
    | _ => none

/-- Let the task go on before all others. -/
def goOn (t : Task) (m : Machine) : Machine :=
  { m with ready := t :: m.ready }

/-- Start a task. -/
def startTask (number period delay : Nat) (m : Machine) : Machine :=
  { m with ready := m.ready ++ [{ number, period, delay }] }

/-- Run the sweep of a task until its end, or until it lets time pass. -/
def runSweep (t : Task) : SceneAct Bool → Machine → Machine
  | .done crashed, m => if crashed then m.endTask t.number true else m.goOn { t with sweep := none }
  | .get next, m => runSweep t (next m.scene) m
  | .set s next, m => runSweep t next { m with scene := s }
  | .sleep millis next, m =>
    if millis = 0 then runSweep t next m
    else m.putAside (.time (m.clock + millis)) { t with sweep := some next }
  | .start number period delay next, m => runSweep t next (m.startTask number period delay)
  | .await number next, m =>
    match m.outcome? number with
    | some crashed => runSweep t (next crashed) m
    | none => m.putAside (.endOf number next) t

/-- Let a task that is not within a sweep make a move. -/
def move (sweep : Nat → SceneAct Bool) (t : Task) (m : Machine) : Move → Machine
  | .announce => (m.say (.scheduled (t.period / 1000) (t.delay / 1000))).goOn t
  | .ready => m.goOn t
  | .sweep => m.goOn { t with sweep := some (sweep t.number) }
  | .stop early => (m.say (if early then .stoppedEarly else .stopped)).endTask t.number false

/-- Let a task go on: with its sweep, or with its next move, or else let it wait. -/
def continueTask (sweep : Nat → SceneAct Bool) (t : Task) (m : Machine) : Machine :=
  match t.sweep with
  | some act => runSweep t act m
  | none =>
    match t.stage.step t.period t.delay m.clock (m.scene.isCancelled (.task t.number)) with
    | some (next, stage) => move sweep { t with stage } m next
    | none => m.putAside (.time (t.stage.due?.getD 0)) t

/-- Give the next task its turn, or else let the clock go on to the next time before the horizon, if
there is one, that a task waits for. -/
def turn? (sweep : Nat → SceneAct Bool) (horizon : Option Nat) (m : Machine) : Option Machine :=
  let m := m.wakeCancelled
  match m.ready with
  | t :: rest => some (continueTask sweep t { m with ready := rest })
  | [] => do
    let due ← (m.waiting.filterMap fun w => w.1.due?).min?
    if horizon.all (due < ·) then some (m.moveClock due) else none

/-- Give turns while a condition holds, so many at most. -/
def turnsWhile (sweep : Nat → SceneAct Bool) (horizon : Option Nat) (p : Machine → Bool) :
    Nat → Machine → Machine
  | 0, m => m
  | n + 1, m =>
    if p m then
      match turn? sweep horizon m with
      | some m => turnsWhile sweep horizon p n m
      | none => m
    else m

/-- The most turns within so many milliseconds, when the steps weigh so much at most: in a
millisecond a task makes at most four moves besides those of its sweep. -/
def turnBound (weight millis : Nat) : Nat :=
  8 * (weight + 2) * (millis + 2)

/-- Let time pass, all tasks having their turns before its end. -/
def advance (sweep : Nat → SceneAct Bool) (weight millis : Nat) (m : Machine) : Machine :=
  let target := m.clock + millis
  (turnsWhile sweep (some target) (fun _ => true) (turnBound weight millis) m).moveClock target

/-- Let time pass until a task has ended and no other task can go on. -/
def await (sweep : Nat → SceneAct Bool) (weight number : Nat) (m : Machine) : Machine :=
  turnsWhile sweep none (fun m => (m.outcome? number).isNone || !m.ready.isEmpty)
    (turnBound weight weight) m

/-- Run an act of the steps, which weigh so much at most. -/
def runAct {α : Type} (sweep : Nat → SceneAct Bool) (weight : Nat) :
    SceneAct α → Machine → α × Machine
  | .done a, m => (a, m)
  | .get next, m => runAct sweep weight (next m.scene) m
  | .set s next, m => runAct sweep weight next { m with scene := s }
  | .sleep millis next, m =>
    runAct sweep weight next (if millis = 0 then m else advance sweep weight millis m)
  | .start number period delay next, m =>
    runAct sweep weight next (m.startTask number period delay)
  | .await number next, m =>
    let m := if (m.outcome? number).isSome then m else await sweep weight number m
    runAct sweep weight (next ((m.outcome? number).getD false)) m

end Machine

end AccessGroups.Scenario
