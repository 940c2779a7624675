import AccessGroups.Program.Basic

/-!
# Programs run on a state

The answers to the operations of a program come from a state, which they may change. Running a
program goes through its operations one after another, so that a part of a program can be replaced
by another one that ends alike.

## Main definitions

* `Prog.runFrom`: running a program on a state, with or without the sweep flag.
* `Prog.runIn`: running a whole program on a state.
* `Prog.Yields`: what a program ends with that leaves the flag alone.

## Main results

* `Prog.runFrom_step`, `Prog.runFrom_bind`: one operation, and one part, after another.
* `Prog.runFrom_related`: how the state at the end is related to that at the start.
-/

namespace AccessGroups.Prog

variable {σ α β : Type} {handle : σ → (op : Op) → Option op.Answer × σ} {held : Bool} {s t : σ}

/-- Run a program on a state. The flag says whether it holds the sweep flag, at the start and at the
end. -/
def runFrom (handle : σ → (op : Op) → Option op.Answer × σ) (held : Bool) (p : Prog α) (s : σ) :
    Option (α × Bool) × σ :=
  (p.execFrom (m := StateM σ) (fun op s => handle s op) held).run s

/-- Run a program that begins without the sweep flag on a state. -/
def runIn (handle : σ → (op : Op) → Option op.Answer × σ) (p : Prog α) (s : σ) : Option α × σ :=
  (p.exec (m := StateM σ) fun op s => handle s op).run s

theorem runIn_eq (p : Prog α) (s : σ) :
    p.runIn handle s = ((p.runFrom handle false s).1.map Prod.fst, (p.runFrom handle false s).2) :=
  rfl

@[simp] theorem runFrom_done (a : α) (s : σ) :
    (Prog.done a).runFrom handle held s = (some (a, held), s) := rfl

/-- After an answer the rest of the program is run. -/
theorem runFrom_step {op : Op} {next : op.Answer → Prog α} {x : op.Answer}
    (h : handle s op = (some x, t)) :
    (Prog.step op next).runFrom handle held s = (next x).runFrom handle (op.holds x held) t := by
  have hrun : StateT.run (m := Id) (fun s => handle s op) s = pure (some x, t) := h
  simp only [runFrom, execFrom_step, StateT.run_bind, hrun]
  rfl

/-- Without an answer the program is abandoned. -/
theorem runFrom_step_none {op : Op} {next : op.Answer → Prog α} (h : handle s op = (none, t)) :
    (Prog.step op next).runFrom handle held s = (Prog.abandon : Prog α).runFrom handle held t := by
  have hrun : StateT.run (m := Id) (fun s => handle s op) s = pure (none, t) := h
  simp only [runFrom, execFrom_step, StateT.run_bind, hrun]
  rfl

/-- A program that is abandoned gives the flag back if it holds it. -/
theorem runFrom_abandon (s : σ) : (Prog.abandon : Prog α).runFrom handle held s =
    (none, if held then (handle s .release).2 else s) := by
  cases held <;> rfl

/-- The second part of a program is run after the first one, unless that is abandoned. -/
theorem runFrom_bind (p : Prog α) (f : α → Prog β) (s : σ) :
    (p >>= f).runFrom handle held s = match p.runFrom handle held s with
      | (some (a, held'), t) => (f a).runFrom handle held' t
      | (none, t) => (none, t) := by
  simp only [runFrom, execFrom_bind, StateT.run_bind]
  rcases (p.execFrom (m := StateM σ) (fun op s => handle s op) held).run s with ⟨_ | ⟨a, held'⟩, t⟩
  · rfl
  · rfl

/-- From the first state the program ends with the value in the second one, and leaves the flag
alone. -/
def Yields (handle : σ → (op : Op) → Option op.Answer × σ) (s : σ) (p : Prog α) (a : α)
    (t : σ) : Prop :=
  ∀ held, p.runFrom handle held s = (some (a, held), t)

theorem yields_pure (a : α) (s : σ) : (pure a : Prog α).Yields handle s a s :=
  fun _ => rfl

/-- After a part that yields a value the rest is run. -/
theorem Yields.runFrom_bind {p : Prog α} {a : α} (h : p.Yields handle s a t) (f : α → Prog β) :
    (p >>= f).runFrom handle held s = (f a).runFrom handle held t := by
  rw [Prog.runFrom_bind, h held]

theorem Yields.bind {p : Prog α} {f : α → Prog β} {a : α} {b : β} {u : σ}
    (h : p.Yields handle s a t) (h' : (f a).Yields handle t b u) :
    (p >>= f).Yields handle s b u :=
  fun held => (h.runFrom_bind f).trans (h' held)

/-- An operation that leaves the flag alone yields its answer. -/
theorem yields_perform {op : Op} {x : op.Answer} (h : handle s op = (some x, t))
    (hflag : ∀ held, op.holds x held = held) : (perform op).Yields handle s x t := by
  intro held
  rw [perform, runFrom_step h, hflag]
  rfl

theorem Yields.runIn_eq {p : Prog α} {a : α} (h : p.Yields handle s a t) :
    p.runIn handle s = (some a, t) := by
  rw [Prog.runIn_eq, h false]
  rfl

/-- If every operation leads to a related state, a run does. -/
theorem runFrom_related {R : σ → σ → Prop} (hrefl : ∀ s, R s s)
    (htrans : ∀ s t u, R s t → R t u → R s u) (hstep : ∀ s op, R s (handle s op).2) (held : Bool)
    (p : Prog α) (s : σ) : R s (p.runFrom handle held s).2 := by
  have habandon (held : Bool) (s : σ) :
      R s ((Prog.abandon : Prog α).runFrom handle held s).2 := by
    rw [runFrom_abandon]
    cases held
    · exact hrefl s
    · exact hstep s .release
  induction p generalizing held s with
  | done a => exact hrefl s
  | step op next ih =>
    have hop := hstep s op
    rcases hq : handle s op with ⟨_ | x, t⟩
    · rw [runFrom_step_none hq]
      rw [hq] at hop
      exact htrans _ _ _ hop (habandon held t)
    · rw [runFrom_step hq]
      rw [hq] at hop
      exact htrans _ _ _ hop (ih x _ t)
  | abandon => exact habandon held s

end AccessGroups.Prog
