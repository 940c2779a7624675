import AccessGroups.Program.Basic

/-!
# What all runs of a program come to

A program leaves open who answers its operations. Here the answers are constrained by a relation
between states, which says what an operation may answer in a state and in which state it leaves the
answerer. A program *meets* a condition from a state when every sequence of admissible answers
leads to a value and a state with that condition, and no such sequence leads to a point where the
program is abandoned.

## Main definitions

* `Prog.Meets`: the condition holds at the end of every run.

## Main results

* `Prog.meets_bind`: a program meets a condition when its first part meets that its second part
  does.
* `Prog.Meets.mono`: a condition may be weakened.
-/

namespace AccessGroups.Prog

variable {σ α β : Type} {step : σ → (op : Op) → op.Answer → σ → Prop} {Q R : α → σ → Prop}

/-- Every run of the program from the state ends with a value and a state that satisfy `Q`. -/
def Meets (step : σ → (op : Op) → op.Answer → σ → Prop) (Q : α → σ → Prop) : Prog α → σ → Prop
  | .done a, s => Q a s
  | .step op next, s => ∀ x t, step s op x t → (next x).Meets step Q t
  | .abandon, _ => False

@[simp] theorem meets_done (a : α) (s : σ) : (Prog.done a).Meets step Q s ↔ Q a s :=
  Iff.rfl

@[simp] theorem meets_pure (a : α) (s : σ) : (pure a : Prog α).Meets step Q s ↔ Q a s :=
  Iff.rfl

theorem meets_step (op : Op) (next : op.Answer → Prog α) (s : σ) :
    (Prog.step op next).Meets step Q s ↔ ∀ x t, step s op x t → (next x).Meets step Q t :=
  Iff.rfl

/-- A program that goes on with the value of another one meets a condition when the other one meets
that the rest does. -/
theorem meets_bind (p : Prog α) (f : α → Prog β) (Q : β → σ → Prop) (s : σ) :
    (p >>= f).Meets step Q s ↔ p.Meets step (fun a t => (f a).Meets step Q t) s := by
  induction p generalizing s with
  | done a => exact Iff.rfl
  | step op next ih =>
    rw [step_bind, meets_step, meets_step]
    exact forall₃_congr fun x t _ => ih x t
  | abandon => exact Iff.rfl

theorem Meets.mono {p : Prog α} {s : σ} (h : p.Meets step Q s) (hQ : ∀ a t, Q a t → R a t) :
    p.Meets step R s := by
  induction p generalizing s with
  | done a => exact hQ a s h
  | step op next ih => exact fun x t hstep => ih x (h x t hstep)
  | abandon => exact h

/-- Two conditions that are met are met together. -/
theorem Meets.and {p : Prog α} {s : σ} (h : p.Meets step Q s) (h' : p.Meets step R s) :
    p.Meets step (fun a t => Q a t ∧ R a t) s := by
  induction p generalizing s with
  | done a => exact ⟨h, h'⟩
  | step op next ih => exact fun x t hstep => ih x (h x t hstep) (h' x t hstep)
  | abandon => exact h

/-- The first part of a program may be judged by any condition from which the rest goes on. -/
theorem Meets.bind {p : Prog α} {f : α → Prog β} {Q : β → σ → Prop} {s : σ}
    (h : p.Meets step R s) (hf : ∀ a t, R a t → (f a).Meets step Q t) :
    (p >>= f).Meets step Q s :=
  (meets_bind p f Q s).2 (h.mono hf)

end AccessGroups.Prog
