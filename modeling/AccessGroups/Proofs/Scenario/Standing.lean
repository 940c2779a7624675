import AccessGroups.Proofs.Scenario.Starts
import AccessGroups.Proofs.Time.FirstDelay

/-!
# The turns of a single task

A task that sweeps on a timetable is the only one on a machine. At any time it stands at one of five
points: it has not begun yet, its first delay is just over, its next sweep is due now, its next
sweep is due later but it has not been put aside yet, or it is put aside until then. On a quiet
scene each turn brings it nearer to the point where it is put aside, or it begins a sweep and then
stands before the next one, a period later; unless the sweep is abandoned, which ends the task. Once
it is put aside the clock goes on to the time that it waits for, if that comes before the horizon.

## Main definitions

* `Scenario.Job`: what stays the same about a task.
* `Scenario.Standing`: where the task stands, and how many turns it can have before the clock has to
  go on.
* `Scenario.Over`: a machine whose only task has ended.
* `Scenario.Turn`: what a turn does.

## Main results

* `Scenario.Standing.turn`: every turn on a quiet scene is one of these.
* `Scenario.Standing.stop`: once it is cancelled the task ends without beginning a sweep and without
  waiting for the clock.
-/

namespace AccessGroups

/-- A task whose sweep comes in time is due next a period later. -/
theorem nextTick_self (period due : Nat) : nextTick period due due = due + period :=
  if_pos (by omega)

/-- Without a random share the first delay is the initial one. -/
theorem Timetable.firstDelay_eq {t : Timetable} {draw : Fin (t.jitterMillis + 1)}
    (h : t.jitter = .zero) : t.firstDelay draw = t.initialDelay :=
  firstDelay_eq_of_lt (by rw [h]; decide)

/-- A cancelled task that has begun has nothing left to do but to end. -/
theorem Stage.step_cancelled (period delay : Nat) {stage : Stage} {now due : Nat}
    {cancelled : Bool} (hstage : stage = .waiting due ∨ stage = .ticking due)
    (hcancelled : cancelled = true) :
    ∃ early, stage.step period delay now cancelled = some (.stop early, .stopped) := by
  obtain rfl | rfl := hstage
  · exact ⟨true, by simp [Stage.step, hcancelled]⟩
  · exact ⟨false, by simp [Stage.step, hcancelled]⟩

namespace Scenario

/-- What stays the same about a task that sweeps on a timetable. -/
structure Job where
  number : Nat
  period : Nat
  delay : Nat

/-- The task at a stage, not within a sweep. -/
def Job.task (j : Job) (stage : Stage) : Task :=
  { number := j.number, period := j.period, delay := j.delay, stage }

/-- The only task of the machine stands before a sweep that is due at some time, or before the end
of its first delay at that time. It can have so many turns before the clock has to go on. -/
inductive Standing (j : Job) (ended : List (Nat × Bool)) (due : Nat) : Nat → Machine → Prop
  | fresh {s now} (hdue : due = now + j.delay) :
    Standing j ended due 5 ⟨s, now, [j.task .fresh], [], ended⟩
  | ready {s} : Standing j ended due 4 ⟨s, due, [j.task (.waiting due)], [], ended⟩
  | tick {s} : Standing j ended due 3 ⟨s, due, [j.task (.ticking due)], [], ended⟩
  | early {s now stage} (hstage : stage = .waiting due ∨ stage = .ticking due) (hnow : now < due) :
    Standing j ended due 1 ⟨s, now, [j.task stage], [], ended⟩
  | asleep {s now stage} (hstage : stage = .waiting due ∨ stage = .ticking due)
    (hnow : now < due) :
    Standing j ended due 0 ⟨s, now, [], [(.time due, j.task stage)], ended⟩

/-- The only task of the machine has ended, and it crashed or not. -/
structure Over (number : Nat) (crashed : Bool) (m : Machine) : Prop where
  ready : m.ready = []
  waiting : m.waiting = []
  outcome : m.outcome? number = some crashed

variable {j : Job} {ended : List (Nat × Bool)} {due turns weight target : Nat} {m : Machine}
  {s : Scene}

namespace Standing

theorem clock_le (h : Standing j ended due turns m) : m.clock ≤ due := by
  cases h <;> simp only <;> omega

theorem turns_le (h : Standing j ended due turns m) : turns ≤ 5 := by
  cases h <;> omega

/-- Where the task stands does not depend on the scene. -/
theorem onScene (h : Standing j ended due turns m) (s : Scene) :
    Standing j ended due turns { m with scene := s } := by
  cases h with
  | fresh hdue => exact .fresh hdue
  | ready => exact .ready
  | tick => exact .tick
  | early hstage hnow => exact .early hstage hnow
  | asleep hstage hnow => exact .asleep hstage hnow

theorem outcome?_eq (h : Standing j ended due turns m) (number : Nat) :
    m.outcome? number = (ended.find? fun e => e.1 = number).map fun e => e.2 := by
  cases h <;> rfl

/-- A task that has something to do at some time stands before it from then on. -/
theorem of_due (j : Job) (ended : List (Nat × Bool)) (s : Scene) {now : Nat} {stage : Stage}
    (hstage : stage = .waiting due ∨ stage = .ticking due)
    (hnow : now ≤ due) :
    ∃ turns ≤ 4, Standing j ended due turns ⟨s, now, [j.task stage], [], ended⟩ := by
  obtain hlt | rfl := Nat.lt_or_eq_of_le hnow
  · exact ⟨1, by decide, .early hstage hlt⟩
  · obtain rfl | rfl := hstage
    · exact ⟨4, by decide, .ready⟩
    · exact ⟨3, by decide, .tick⟩

end Standing

namespace Machine

variable {sweep : Nat → SceneAct Bool} {horizon : Option Nat} {t : Task} {now : Nat}

theorem turn?_ready :
    turn? sweep horizon ⟨s, now, [t], [], ended⟩ =
      some (continueTask sweep t ⟨s, now, [], [], ended⟩) := rfl

/-- A task between its sweeps makes the next move of its stage. -/
theorem continueTask_task {stage next : Stage} {mv : Move}
    (h : stage.step j.period j.delay m.clock (m.scene.isCancelled (.task j.number)) =
      some (mv, next)) :
    continueTask sweep (j.task stage) m = move sweep (j.task next) m mv := by
  simp only [continueTask, Job.task, h]

/-- A task between its sweeps is put aside if it has nothing to do. -/
theorem continueTask_eq_putAside {stage : Stage}
    (h : stage.step j.period j.delay m.clock (m.scene.isCancelled (.task j.number)) = none) :
    continueTask sweep (j.task stage) m =
      m.putAside (.time (stage.due?.getD 0)) (j.task stage) := by
  simp only [continueTask, Job.task, h]

/-- A task within a sweep goes on with it. -/
theorem continueTask_sweeping {stage : Stage} {act : SceneAct Bool} :
    continueTask sweep { j.task stage with sweep := some act } m =
      runSweep { j.task stage with sweep := some act } act m := rfl

/-- The task whose turn it is begins a sweep if that is the next move of its stage. -/
theorem begins?_ready {stage : Stage} :
    begins? ⟨s, now, [j.task stage], [], ended⟩ =
      match stage.step j.period j.delay now (s.isCancelled (.task j.number)) with
      | some (.sweep, _) => some ⟨j.number, now, s⟩
      | _ => none := rfl

/-- A task that is put aside lets the clock go on to its time, if that comes before the horizon. -/
theorem turn?_asleep (h : s.isCancelled (.task t.number) = false) :
    turn? sweep (some target) ⟨s, now, [], [(.time due, t)], ended⟩ =
      if due < target then some ⟨s, due, [t], [], ended⟩ else none := by
  simp [turn?, wakeCancelled, wake, moveClock, h, Wait.due?]

/-- A task that is put aside between its sweeps has a turn once it is cancelled. -/
theorem turn?_cancelled (h : s.isCancelled (.task t.number) = true) (ht : t.sweep = none) :
    turn? sweep horizon ⟨s, now, [], [(.time due, t)], ended⟩ =
      some (continueTask sweep t ⟨s, now, [], [], ended⟩) := by
  simp [turn?, wakeCancelled, wake, h, ht, Wait.due?]

theorem moveClock_asleep :
    moveClock target ⟨s, now, [], [(.time due, t)], ended⟩ =
      if due ≤ target then ⟨s, target, [t], [], ended⟩
      else ⟨s, target, [], [(.time due, t)], ended⟩ := by
  by_cases hdue : due ≤ target <;> simp [moveClock, wake, hdue, Wait.due?]

/-- A sweep that takes no time is run to its end in one turn. -/
theorem runSweep_eq {act : SceneAct Bool} {crashed : Bool} {u : Scene}
    (h : act.finish? m.scene = some (crashed, u)) :
    runSweep t act m =
      if crashed then { m with scene := u }.endTask t.number true
      else { m with scene := u }.goOn { t with sweep := none } := by
  induction act generalizing m with
  | done a => cases h; rfl
  | get next ih => exact ih m.scene h
  | set s next ih => exact ih h
  | sleep millis next ih =>
    simp only [Act.finish?] at h
    split at h
    · next hzero => rw [runSweep, if_pos hzero]; exact ih h
    · cases h
  | start task period delay next ih => cases h
  | await task next ih => cases h

theorem begins?_asleep {w : Wait} (h : s.isCancelled (.task t.number) = false) :
    begins? ⟨s, now, [], [(w, t)], ended⟩ = none := by
  simp [begins?, wakeCancelled, wake, h]

theorem begins?_cancelled {stage : Stage} (h : s.isCancelled (.task j.number) = true) :
    begins? ⟨s, now, [], [(.time due, j.task stage)], ended⟩ =
      begins? ⟨s, now, [j.task stage], [], ended⟩ := by
  simp [begins?, wakeCancelled, wake, Wait.due?, Job.task, h]

end Machine

open Machine

/-- What a turn does on a quiet scene when the task stands before a sweep that is due at some time
and the clock is to come to a target. -/
inductive Turn (j : Job) (ended : List (Nat × Bool)) (due weight target turns : Nat) (m : Machine) :
    Prop
  /-- There is no turn until the target. -/
  | wait (hturn : turn? (scheduledRun weight) (some target) m = none) (hturns : turns = 0)
    (hdue : target ≤ due)
  /-- No sweep begins, and the task has come nearer to being put aside or to the target. -/
  | move (next : Machine) (left : Nat)
    (hturn : turn? (scheduledRun weight) (some target) m = some next) (hbegins : m.begins? = none)
    (hquiet : next.scene.Quiet j.number) (hstanding : Standing j ended due left next)
    (hclock : m.clock ≤ next.clock) (htarget : next.clock < target)
    (hleft : 5 * (target - next.clock) + left < 5 * (target - m.clock) + turns)
  /-- A sweep begins now, and in the next turn it is over. -/
  | sweep (begun next : Machine) (hturns : turns = 3) (hdue : m.clock = due)
    (hturn : turn? (scheduledRun weight) (some target) m = some begun)
    (hbegins : m.begins? = some ⟨j.number, due, m.scene⟩)
    (hrest : turn? (scheduledRun weight) (some target) begun = some next)
    (hnone : begun.begins? = none) (hclock : next.clock = due)
    (hquiet : next.scene.Quiet j.number)
    (hnext : (runOnce? weight j.number m.scene).isSome ∧
        Standing j ended (due + j.period) 1 next ∨
      (runOnce? weight j.number m.scene).isNone ∧ Over j.number true next)

/-- The turn after the one in which a sweep begins ends it. -/
theorem turn?_sweeping (ended : List (Nat × Bool)) (weight target now : Nat) (stage : Stage)
    (hquiet : s.Quiet j.number) :
    ∃ next, turn? (scheduledRun weight) (some target) ⟨s, now,
        [{ j.task stage with sweep := some (scheduledRun weight j.number) }], [], ended⟩ =
          some next ∧ next.clock = now ∧ next.scene.Quiet j.number ∧
      if (runOnce? weight j.number s).isSome then
        ∃ u, next = ⟨u, now, [j.task stage], [], ended⟩
      else Over j.number true next := by
  obtain ⟨u, hfinish, hu⟩ := finish?_scheduledRun weight hquiet
  refine ⟨_, turn?_ready, ?_⟩
  rw [continueTask_sweeping, runSweep_eq (m := ⟨s, now, [], [], ended⟩) hfinish]
  cases runOnce? weight j.number s with
  | some outcome => exact ⟨rfl, hu, u, rfl⟩
  | none => exact ⟨rfl, hu, rfl, rfl, by simp [endTask, wake, outcome?, Job.task]⟩

/-- Every turn on a quiet scene is of one of these kinds. -/
theorem Standing.turn (weight : Nat) (h : Standing j ended due turns m)
    (hquiet : m.scene.Quiet j.number) (hperiod : 0 < j.period) (htarget : m.clock < target) :
    Turn j ended due weight target turns m := by
  have hcancelled : m.scene.isCancelled (.task j.number) = false := hquiet.uncancelled
  cases h with
  | @fresh s now hdue =>
    obtain ⟨left, hleft, hnext⟩ := Standing.of_due j ended
      (s.say (.scheduled (j.period / 1000) (j.delay / 1000))) (.inl rfl) (show now ≤ due by omega)
    exact .move _ left (by subst hdue; rfl) rfl (hquiet.say _) hnext (Nat.le_refl _) htarget
      (by dsimp only; omega)
  | @ready s =>
    have hstep : (Stage.waiting due).step j.period j.delay due (s.isCancelled (.task j.number)) =
        some (.ready, .ticking due) := by simp [Stage.step, hcancelled]
    refine .move ⟨s, due, [j.task (.ticking due)], [], ended⟩ 3 ?_ ?_ hquiet .tick
      (Nat.le_refl _) htarget (by dsimp only; omega)
    · rw [turn?_ready, continueTask_task hstep]; rfl
    · rw [begins?_ready, hstep]
  | @tick s =>
    have hstep : (Stage.ticking due).step j.period j.delay due (s.isCancelled (.task j.number)) =
        some (.sweep, .ticking (due + j.period)) := by
      simp [Stage.step, hcancelled, nextTick_self]
    obtain ⟨next, hrest, hclock, hnext, hends⟩ := turn?_sweeping ended weight target due
      (.ticking (due + j.period)) hquiet
    refine .sweep _ next rfl rfl ?_ ?_ hrest rfl hclock hnext ?_
    · rw [turn?_ready, continueTask_task hstep]; rfl
    · rw [begins?_ready, hstep]
    · cases hrun : runOnce? weight j.number s with
      | some outcome =>
        rw [hrun] at hends
        obtain ⟨u, rfl⟩ := hends
        exact .inl ⟨rfl, .early (.inr rfl) (by omega)⟩
      | none =>
        rw [hrun] at hends
        exact .inr ⟨rfl, hends⟩
  | @early s now stage hstage hnow =>
    have hlate : ¬ due ≤ now := by omega
    have hstep : stage.step j.period j.delay now (s.isCancelled (.task j.number)) = none := by
      obtain rfl | rfl := hstage <;> simp [Stage.step, hcancelled, hlate]
    have htime : stage.due?.getD 0 = due := by obtain rfl | rfl := hstage <;> rfl
    refine .move ⟨s, now, [], [(.time due, j.task stage)], ended⟩ 0 ?_ ?_ hquiet
      (.asleep hstage hnow) (Nat.le_refl _) htarget (by dsimp only; omega)
    · rw [turn?_ready, continueTask_eq_putAside hstep, htime]; rfl
    · rw [begins?_ready, hstep]
  | @asleep s now stage hstage hnow =>
    by_cases hdue : due < target
    · obtain ⟨left, hleft, hnext⟩ := Standing.of_due j ended s hstage (Nat.le_refl due)
      exact .move ⟨s, due, [j.task stage], [], ended⟩ left
        (by rw [turn?_asleep hcancelled, if_pos hdue]) (begins?_asleep hcancelled) hquiet hnext
        (Nat.le_of_lt hnow) hdue (by dsimp only; omega)
    · exact .wait (by rw [turn?_asleep hcancelled, if_neg hdue]) rfl (by omega)

/-! ### The end of a cancelled task -/

/-- Within so many turns the task ends uncrashed, without beginning a sweep and without waiting for
the clock. -/
structure Stops (weight number turns : Nat) (m : Machine) : Prop where
  starts : turnStarts (scheduledRun weight) none (unsettled number) turns m = []
  gone : Over number false (turnsWhile (scheduledRun weight) none (unsettled number) turns m)
  clock : (turnsWhile (scheduledRun weight) none (unsettled number) turns m).clock = m.clock

namespace Stops

variable {number now : Nat} {next : Machine}

theorem of_ended : Stops weight number turns ⟨s, now, [], [], (number, false) :: ended⟩ := by
  have hsettled : unsettled number ⟨s, now, [], [], (number, false) :: ended⟩ = false := by
    simp [unsettled, outcome?]
  refine ⟨turnStarts_eq_nil (.inl hsettled), ?_, ?_⟩
  · rw [turnsWhile_eq_self (.inl hsettled)]
    exact ⟨rfl, rfl, by simp [outcome?]⟩
  · rw [turnsWhile_eq_self (.inl hsettled)]

theorem succ (houtcome : m.outcome? number = none)
    (hturn : turn? (scheduledRun weight) none m = some next) (hbegins : m.begins? = none)
    (hclock : next.clock = m.clock) (h : Stops weight number turns next) :
    Stops weight number (turns + 1) m := by
  have hunsettled : unsettled number m = true := by rw [unsettled, houtcome]; rfl
  refine ⟨?_, ?_, ?_⟩
  · rw [turnStarts_succ hunsettled hturn, hbegins]; exact h.starts
  · rw [turnsWhile_succ hunsettled hturn]; exact h.gone
  · rw [turnsWhile_succ hunsettled hturn, h.clock, hclock]

/-- A cancelled task that has begun ends with its next turn. -/
theorem ready {stage : Stage} (hstage : stage = .waiting due ∨ stage = .ticking due)
    (hcancelled : s.isCancelled (.task j.number) = true)
    (houtcome : outcome? j.number ⟨s, now, [j.task stage], [], ended⟩ = none) :
    Stops weight j.number (turns + 1) ⟨s, now, [j.task stage], [], ended⟩ := by
  obtain ⟨early, hstep⟩ := Stage.step_cancelled j.period j.delay hstage hcancelled
  refine succ houtcome (turn?_ready.trans (congrArg some (continueTask_task hstep))) ?_ rfl
    .of_ended
  rw [begins?_ready, hstep]

/-- A cancelled task that is put aside ends with the next turn. -/
theorem asleep {stage : Stage} (hstage : stage = .waiting due ∨ stage = .ticking due)
    (hcancelled : s.isCancelled (.task j.number) = true)
    (houtcome : outcome? j.number ⟨s, now, [], [(.time due, j.task stage)], ended⟩ = none) :
    Stops weight j.number (turns + 1) ⟨s, now, [], [(.time due, j.task stage)], ended⟩ := by
  obtain ⟨early, hstep⟩ := Stage.step_cancelled j.period j.delay hstage hcancelled
  refine succ houtcome ((turn?_cancelled hcancelled rfl).trans
    (congrArg some (continueTask_task hstep))) ?_ rfl .of_ended
  rw [begins?_cancelled hcancelled, begins?_ready, hstep]

end Stops

/-- A task that is cancelled before its next sweep is due ends without beginning a sweep and without
waiting for the clock. -/
theorem Standing.stop (weight : Nat) (h : Standing j ended due turns m)
    (hcancelled : m.scene.isCancelled (.task j.number) = true) (hnow : m.clock < due)
    (houtcome : m.outcome? j.number = none) (n : Nat) : Stops weight j.number (n + 2) m := by
  cases h with
  | @fresh s now hdue =>
    subst hdue
    exact .succ houtcome turn?_ready rfl rfl (.ready (.inl rfl) hcancelled houtcome)
  | ready => cases Nat.lt_irrefl _ hnow
  | tick => cases Nat.lt_irrefl _ hnow
  | early hstage _ => exact .ready hstage hcancelled houtcome
  | asleep hstage _ => exact .asleep hstage hcancelled houtcome

end Scenario

end AccessGroups
