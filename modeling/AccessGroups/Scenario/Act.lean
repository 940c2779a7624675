/-!
# Acts

An act is a computation on a state that can let time pass on the way, so that something else can
run in between. It can also start tasks that sweep on a timetable, and wait for the end of one.

Acts can be joined: while one of them lets time pass the others go on, and the joint act goes on as
soon as one of its parts does.

## Main definitions

* `Scenario.Act σ α`: acts on a state of type `σ` with a value of type `α`; acts form a monad.
* `Scenario.Act.join`: joining acts.
-/

namespace AccessGroups.Scenario

/-- A computation on a state of type `σ` that can let time pass. -/
inductive Act (σ : Type) (α : Type) where
  | done (a : α)
  | get (next : σ → Act σ α)
  | set (s : σ) (next : Act σ α)
  /-- Let so many milliseconds pass. -/
  | sleep (millis : Nat) (next : Act σ α)
  /-- Start a task that sweeps at an interval after a delay, both in milliseconds. -/
  | start (task period delay : Nat) (next : Act σ α)
  /-- Wait for the end of a task, and learn whether it crashed. -/
  | await (task : Nat) (next : Bool → Act σ α)

namespace Act

variable {σ α β : Type}

/-- Go on with the value of an act. -/
def bind : Act σ α → (α → Act σ β) → Act σ β
  | .done a, f => f a
  | .get next, f => .get fun s => (next s).bind f
  | .set s next, f => .set s (next.bind f)
  | .sleep millis next, f => .sleep millis (next.bind f)
  | .start task period delay next, f => .start task period delay (next.bind f)
  | .await task next, f => .await task fun crashed => (next crashed).bind f

instance : Monad (Act σ) where
  pure := .done
  bind := Act.bind

/-- Change the state and return a value. -/
def modify (f : σ → α × σ) : Act σ α :=
  .get fun s => .set (f s).2 (.done (f s).1)

/-- Change the state. -/
def update (f : σ → σ) : Act σ Unit :=
  modify fun s => ((), f s)

/-- A value of the state. -/
def read (f : σ → α) : Act σ α :=
  .get fun s => .done (f s)

/-! ### Joined acts -/

/-- What a part of a joint act has come to. -/
inductive Part (σ : Type) (α : Type) where
  | ended (a : α)
  /-- The part goes on after so many milliseconds. -/
  | asleep (millis : Nat) (rest : Act σ α)

/-- Run a part until it ends or lets time pass. -/
def toPart : Act σ α → Act σ (Part σ α)
  | .done a => .done (.ended a)
  | .get next => .get fun s => (next s).toPart
  | .set s next => .set s next.toPart
  | .sleep millis next => if millis = 0 then next.toPart else .done (.asleep millis next)
  | .start task period delay next => .start task period delay next.toPart
  | .await task next => .await task fun crashed => (next crashed).toPart

namespace Part

/-- The value of a part that has ended. -/
def value? : Part σ α → Option α
  | .ended a => some a
  | .asleep _ _ => none

/-- The milliseconds after which a part goes on. -/
def millis? : Part σ α → Option Nat
  | .ended _ => none
  | .asleep millis _ => some millis

end Part

/-- Let the parts go on in their order after so many milliseconds. There is no result as soon as one
of them ends with a value that breaks the joint act off. -/
def resume (breaks : α → Bool) (elapsed : Nat) : List (Part σ α) → Act σ (Option (List (Part σ α)))
  | [] => return some []
  | part :: rest => do
    let part ← match part with
      | .ended a => pure (.ended a)
      | .asleep millis act =>
        if millis ≤ elapsed then act.toPart else pure (.asleep (millis - elapsed) act)
    if (part.value?).any breaks then return none
    let rest ← resume breaks elapsed rest
    return rest.map (part :: ·)

/-- Let the parts go on until all have ended. Time passes so many times at most. -/
def finish (breaks : α → Bool) : Nat → List (Part σ α) → Act σ (Option (List α))
  | 0, parts => return parts.mapM Part.value?
  | rounds + 1, parts =>
    match (parts.filterMap Part.millis?).min? with
    | none => return parts.mapM Part.value?
    | some millis => .sleep millis do
      match ← resume breaks millis parts with
      | none => return none
      | some parts => finish breaks rounds parts

/-- Run acts jointly. There is no result if one of them ends with a value that breaks the joint act
off. Time passes so many times at most. -/
def join (breaks : α → Bool) (rounds : Nat) (acts : List (Act σ α)) : Act σ (Option (List α)) := do
  match ← resume breaks 0 (acts.map (.asleep 0)) with
  | none => return none
  | some parts => finish breaks rounds parts

end Act

end AccessGroups.Scenario
