import AccessGroups.Proofs.Scenario.Quiet
import AccessGroups.Scenario.Machine

/-!
# When sweeps begin

The turns of a machine are followed once more, this time to note each sweep that begins: which task
begins it, what time it is and what the scene is like.

## Main definitions

* `Scenario.Start`: the beginning of a sweep, with `Scenario.Start.outcome?`.
* `Scenario.Machine.begins?`: the sweep that the next turn begins.
* `Scenario.Machine.turnStarts`, `Scenario.Machine.actStarts`: the sweeps that begin during turns,
  and while an act of the steps is run.

## Main results

* `Scenario.Machine.turnsWhile_succ`, `Scenario.Machine.turnStarts_succ`: giving one turn more.
* `Scenario.Machine.runAct_bind`, `Scenario.Machine.actStarts_bind`: an act runs as its parts one
  after the other, and the sweeps begin in that order.
-/

namespace AccessGroups.Scenario

/-- The beginning of a sweep. -/
structure Start where
  task : Nat
  time : Nat
  /-- The scene on which the sweep begins. -/
  scene : Scene

/-- How the sweep ends, if it takes no time and is not abandoned. -/
def Start.outcome? (weight : Nat) (b : Start) : Option (Except ServiceError SweepOutcome) :=
  runOnce? weight b.task b.scene

namespace Machine

/-- The sweep that the next turn begins, if the task whose turn it is begins one. -/
def begins? (m : Machine) : Option Start :=
  m.wakeCancelled.ready.head?.bind fun t =>
    if t.sweep.isSome then none
    else
      match t.stage.step t.period t.delay m.clock (m.scene.isCancelled (.task t.number)) with
      | some (.sweep, _) => some ⟨t.number, m.clock, m.scene⟩
      | _ => none

variable (sweep : Nat → SceneAct Bool) (weight : Nat)

/-- The sweeps that begin while turns are given. -/
def turnStarts (horizon : Option Nat) (p : Machine → Bool) : Nat → Machine → List Start
  | 0, _ => []
  | n + 1, m =>
    if p m then
      match turn? sweep horizon m with
      | some next => m.begins?.toList ++ turnStarts horizon p n next
      | none => []
    else []

/-- The task has not ended yet, or another one can go on. -/
def unsettled (number : Nat) (m : Machine) : Bool :=
  (m.outcome? number).isNone || !m.ready.isEmpty

/-- The sweeps that begin while an act of the steps is run. -/
def actStarts {α : Type} : SceneAct α → Machine → List Start
  | .done _, _ => []
  | .get next, m => actStarts (next m.scene) m
  | .set s next, m => actStarts next { m with scene := s }
  | .sleep millis next, m =>
    if millis = 0 then actStarts next m
    else
      turnStarts sweep (some (m.clock + millis)) (fun _ => true) (turnBound weight millis) m ++
        actStarts next (advance sweep weight millis m)
  | .start number period delay next, m => actStarts next (m.startTask number period delay)
  | .await number next, m =>
    if (m.outcome? number).isSome then actStarts (next ((m.outcome? number).getD false)) m
    else
      let m' := await sweep weight number m
      turnStarts sweep none (unsettled number) (turnBound weight weight) m ++
        actStarts (next ((m'.outcome? number).getD false)) m'

/-! ### Single turns -/

section

variable {sweep : Nat → SceneAct Bool} {horizon : Option Nat} {p : Machine → Bool}
  {m next : Machine} {n : Nat}

theorem turnsWhile_succ (hp : p m = true) (hturn : turn? sweep horizon m = some next) :
    turnsWhile sweep horizon p (n + 1) m = turnsWhile sweep horizon p n next := by
  rw [turnsWhile, if_pos hp, hturn]

theorem turnStarts_succ (hp : p m = true) (hturn : turn? sweep horizon m = some next) :
    turnStarts sweep horizon p (n + 1) m =
      m.begins?.toList ++ turnStarts sweep horizon p n next := by
  rw [turnStarts, if_pos hp, hturn]

/-- There are no more turns if there is none now, or if the condition does not hold. -/
theorem turnsWhile_eq_self (h : p m = false ∨ turn? sweep horizon m = none) :
    turnsWhile sweep horizon p n m = m := by
  cases n with
  | zero => rfl
  | succ n => obtain h | h := h <;> simp [turnsWhile, h]

theorem turnStarts_eq_nil (h : p m = false ∨ turn? sweep horizon m = none) :
    turnStarts sweep horizon p n m = [] := by
  cases n with
  | zero => rfl
  | succ n => obtain h | h := h <;> simp [turnStarts, h]

end

/-! ### One act after the other -/

variable {α β : Type} (act : SceneAct α) (f : α → SceneAct β) (m : Machine)

theorem runAct_bind :
    runAct sweep weight (act >>= f) m =
      runAct sweep weight (f (runAct sweep weight act m).1) (runAct sweep weight act m).2 := by
  change runAct sweep weight (act.bind f) m = _
  induction act generalizing m with
  | done a => rfl
  | get next ih => exact ih m.scene m
  | set s next ih => exact ih _
  | sleep millis next ih => exact ih _
  | start number period delay next ih => exact ih _
  | await number next ih => exact ih _ _

theorem actStarts_bind :
    actStarts sweep weight (act >>= f) m =
      actStarts sweep weight act m ++
        actStarts sweep weight (f (runAct sweep weight act m).1) (runAct sweep weight act m).2 := by
  change actStarts sweep weight (act.bind f) m = _
  induction act generalizing m with
  | done a => rfl
  | get next ih => exact ih m.scene m
  | set s next ih => exact ih _
  | sleep millis next ih =>
    simp only [actStarts, Act.bind, runAct]
    split
    · exact ih m
    · rw [ih, List.append_assoc]
  | start number period delay next ih => exact ih _
  | await number next ih =>
    simp only [actStarts, Act.bind, runAct]
    split
    · exact ih _ _
    · rw [ih, List.append_assoc]

end Machine

end AccessGroups.Scenario
