import AccessGroups.Event
import AccessGroups.Metrics
import AccessGroups.Program.Call

/-!
# Programs

The services are programs: trees of operations on the outside, each with a continuation for every
answer. A program says what it asks for and in which order, and leaves open who answers, so that
the same program runs on any store, with failures, cancellation or other writers in between.

A program ends with a value, or it is abandoned: an operation got no answer, or the program gave
up. A program that is abandoned while it holds the sweep flag gives the flag back.

## Main definitions

* `Op`: the operations, with `Op.Answer`.
* `Prog α`: a program with a value of type `α`; programs form a monad.
* `Prog.exec`: running a program with a handler that answers its operations, and
  `Prog.execFrom`, which keeps track of the sweep flag.

## Main results

* `Prog.execFrom_bind`: a program runs as its parts one after the other.
-/

namespace AccessGroups

/-- An operation of a program. -/
inductive Op where
  | call (c : Call)
  | log (e : Event)
  /-- Record the end of a run of the sweep in the metrics. -/
  | record (e : SweepEnd)
  /-- Ask whether the run has been cancelled. -/
  | poll
  /-- Try to take the flag that at most one run of the sweep can hold. -/
  | claim
  /-- Give the flag back. -/
  | release

namespace Op

/-- The answer to the operation. -/
abbrev Answer : Op → Type
  | .call c => c.Answer
  | .poll => Bool
  | .claim => Bool
  | _ => Unit

/-- Whether the program holds the flag after the operation was answered. -/
def holds : (op : Op) → op.Answer → Bool → Bool
  | .claim, taken, held => taken || held
  | .release, _, _ => false
  | _, _, held => held

end Op

/-- A program with a value of type `α`. -/
inductive Prog (α : Type) where
  | done (a : α)
  | step (op : Op) (next : op.Answer → Prog α)
  | abandon

namespace Prog

variable {α β γ : Type}

/-- Go on with the value of a program. -/
def bind : Prog α → (α → Prog β) → Prog β
  | .done a, f => f a
  | .step op next, f => .step op fun x => (next x).bind f
  | .abandon, _ => .abandon

instance : Monad Prog where
  pure := .done
  bind := Prog.bind

@[simp] theorem pure_eq (a : α) : (pure a : Prog α) = .done a := rfl

@[simp] theorem done_bind (a : α) (f : α → Prog β) : (.done a : Prog α) >>= f = f a := rfl

@[simp] theorem step_bind (op : Op) (next : op.Answer → Prog α) (f : α → Prog β) :
    .step op next >>= f = .step op fun x => next x >>= f := rfl

@[simp] theorem abandon_bind (f : α → Prog β) : .abandon >>= f = .abandon := rfl

@[simp] theorem bind_done (p : Prog α) : p >>= .done = p := by
  induction p with
  | done a => rfl
  | step op next ih => rw [step_bind]; exact congrArg _ (funext ih)
  | abandon => rfl

theorem bind_bind (p : Prog α) (f : α → Prog β) (g : β → Prog γ) :
    p >>= f >>= g = p >>= fun a => f a >>= g := by
  induction p with
  | done a => rfl
  | step op next ih => simp only [step_bind]; exact congrArg _ (funext ih)
  | abandon => rfl

instance : LawfulMonad Prog :=
  LawfulMonad.mk' Prog bind_done done_bind bind_bind

/-! ### Single operations -/

/-- Ask for one operation. -/
def perform (op : Op) : Prog op.Answer :=
  .step op .done

/-- Call the store. -/
def store (c : StoreCall) : Prog c.Answer :=
  perform (.call (.store c))

/-- Call the resources. -/
def registry (c : RegistryCall) : Prog c.Answer :=
  perform (.call (.registry c))

/-- Call the source of principals. -/
def principal (c : PrincipalCall) : Prog c.Answer :=
  perform (.call (.principal c))

/-- Say something in the log. -/
def log (e : Event) : Prog Unit :=
  perform (.log e)

/-! ### Running a program -/

section Exec

variable {m : Type → Type} [Monad m] (handle : (op : Op) → m (Option op.Answer))

/-- The end of a program that is abandoned: it gives the flag back if it holds it. -/
def giveUp (held : Bool) : m (Option α) := do
  if held then
    let _ ← handle .release
    pure none
  else pure none

/-- Run a program with a handler that answers its operations, or leaves one without an answer. The
argument `held` says whether the program holds the sweep flag; the result says it of its end. -/
def execFrom (held : Bool) : Prog α → m (Option (α × Bool))
  | .done a => pure (some (a, held))
  | .step op next =>
    handle op >>= fun r => r.elim (giveUp handle held) fun x =>
      execFrom (op.holds x held) (next x)
  | .abandon => giveUp handle held

/-- Run a program that begins without the sweep flag. -/
def exec (p : Prog α) : m (Option α) :=
  execFrom handle false p >>= fun r => pure (r.map Prod.fst)

@[simp] theorem execFrom_done (held : Bool) (a : α) :
    execFrom handle held (.done a) = pure (some (a, held)) := rfl

@[simp] theorem execFrom_abandon (held : Bool) :
    execFrom handle held (.abandon : Prog α) = giveUp handle held := rfl

theorem execFrom_step (held : Bool) (op : Op) (next : op.Answer → Prog α) :
    execFrom handle held (.step op next) = handle op >>= fun r =>
      r.elim (giveUp handle held) fun x => execFrom handle (op.holds x held) (next x) := rfl

theorem giveUp_bind [LawfulMonad m] (held : Bool) (f : α → m (Option β)) :
    (giveUp handle held >>= fun r => r.elim (pure none) f) = giveUp handle held := by
  cases held <;> simp [giveUp]

/-- Running a program and going on with its value is running the two parts one after the other. -/
theorem execFrom_bind [LawfulMonad m] (held : Bool) (p : Prog α) (f : α → Prog β) :
    execFrom handle held (p >>= f) = execFrom handle held p >>= fun r =>
      r.elim (pure none) fun a => execFrom handle a.2 (f a.1) := by
  induction p generalizing held with
  | done a => simp
  | step op next ih =>
    simp only [step_bind, execFrom_step, bind_assoc]
    refine congrArg _ (funext fun r => ?_)
    cases r with
    | some x => exact ih x _
    | none => exact (giveUp_bind handle held _).symm
  | abandon => exact (giveUp_bind handle held _).symm

end Exec

end Prog

end AccessGroups
