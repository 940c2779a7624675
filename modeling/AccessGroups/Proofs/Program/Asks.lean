import AccessGroups.Proofs.Program.Stateful

/-!
# What a program can ask for

Whatever the answers are, a program asks only for operations of some sort, and if it ends with a
value, that has some property. Nothing is said about who answers, so that this can be used wherever
a program runs: it runs alike with handlers that agree on what it asks for.

## Main definitions

* `Prog.Asks`: a program asks for some operations only.
* `Op.IsWork`: calls and lines of the log.
* `Op.KeepsFlag`: everything but taking the flag and giving it back.

## Main results

* `Prog.Asks.bind`: a program asks what its parts ask.
* `Prog.Asks.value`: the value of a run.
* `Prog.Asks.keeps`: what a run keeps.
* `Prog.Asks.runFrom_congr`: handlers that agree on what the program asks for.
-/

namespace AccessGroups

/-- The operation is a call or a line of the log. -/
def Op.IsWork : Op → Prop
  | .call _ | .log _ => True
  | _ => False

/-- The operation neither takes the flag nor gives it back. -/
def Op.KeepsFlag : Op → Prop
  | .claim | .release => False
  | _ => True

theorem Op.IsWork.keepsFlag {op : Op} (h : op.IsWork) : op.KeepsFlag := by
  cases op with
  | call | log => trivial
  | record | poll | claim | release => cases h

namespace Prog

variable {σ α β : Type} {may may' : Op → Prop} {Q R : α → Prop}

/-- Whatever the answers are, the program asks only for operations that it may ask for, and if it
ends with a value, that satisfies `Q`. -/
def Asks (may : Op → Prop) (Q : α → Prop) : Prog α → Prop
  | .done a => Q a
  | .step op next => may op ∧ ∀ x, (next x).Asks may Q
  | .abandon => True

theorem asks_pure {a : α} (h : Q a) : (pure a : Prog α).Asks may Q :=
  h

theorem Asks.mono {p : Prog α} (h : p.Asks may Q) (hmay : ∀ op, may op → may' op)
    (hQ : ∀ a, Q a → R a) : p.Asks may' R := by
  induction p with
  | done a => exact hQ a h
  | step op next ih => exact ⟨hmay op h.1, fun x => ih x (h.2 x)⟩
  | abandon => trivial

/-- A program asks what its parts ask. -/
theorem Asks.bind {p : Prog α} {f : α → Prog β} {Q : β → Prop} (h : p.Asks may R)
    (hf : ∀ a, R a → (f a).Asks may Q) : (p >>= f).Asks may Q := by
  induction p with
  | done a => exact hf a h
  | step op next ih => exact ⟨h.1, fun x => ih x (h.2 x)⟩
  | abandon => trivial

theorem asks_perform {op : Op} {f : op.Answer → Prog α} (hop : may op)
    (h : ∀ x, (f x).Asks may Q) : (perform op >>= f).Asks may Q :=
  ⟨hop, h⟩

theorem asks_store {c : StoreCall} {f : c.Answer → Prog α} (h : ∀ x, (f x).Asks Op.IsWork Q) :
    (store c >>= f).Asks Op.IsWork Q :=
  asks_perform trivial h

theorem asks_registry {c : RegistryCall} {f : c.Answer → Prog α}
    (h : ∀ x, (f x).Asks Op.IsWork Q) : (registry c >>= f).Asks Op.IsWork Q :=
  asks_perform trivial h

theorem asks_log {e : Event} {f : Unit → Prog α} (h : (f ()).Asks Op.IsWork Q) :
    (log e >>= f).Asks Op.IsWork Q :=
  asks_perform trivial fun _ => h

/-! ### Runs -/

variable {handle handle' : σ → (op : Op) → Option op.Answer × σ} {held held' : Bool} {s t : σ}
  {p : Prog α} {a : α}

/-- The value of a run is one that the program can have. -/
theorem Asks.value (h : p.Asks may Q) (hrun : p.runFrom handle held s = (some (a, held'), t)) :
    Q a := by
  induction p generalizing held s with
  | done b =>
    cases hrun
    exact h
  | step op next ih =>
    rcases hq : handle s op with ⟨_ | x, u⟩
    · rw [runFrom_step_none hq, runFrom_abandon] at hrun
      cases hrun
    · rw [runFrom_step hq] at hrun
      exact ih x (h.2 x) hrun
  | abandon =>
    rw [runFrom_abandon] at hrun
    cases hrun

/-- What every operation that the program may ask for keeps, a run keeps. -/
theorem Asks.keeps {P : σ → Prop} (h : p.Asks may Q)
    (hkeep : ∀ s op, may op ∨ op = .release → P s → P (handle s op).2) (held : Bool) (hs : P s) :
    P (p.runFrom handle held s).2 := by
  have habandon (held : Bool) {s : σ} (hs : P s) :
      P ((Prog.abandon : Prog α).runFrom handle held s).2 := by
    rw [runFrom_abandon]
    cases held
    · exact hs
    · exact hkeep s .release (.inr rfl) hs
  induction p generalizing held s with
  | done b => exact hs
  | step op next ih =>
    have hop := hkeep s op (.inl h.1) hs
    rcases hq : handle s op with ⟨_ | x, u⟩ <;> rw [hq] at hop
    · rw [runFrom_step_none hq]
      exact habandon held hop
    · rw [runFrom_step hq]
      exact ih x (h.2 x) _ hop
  | abandon => exact habandon held hs

/-- A program runs alike with handlers that agree on what it asks for. -/
theorem Asks.runFrom_congr (h : p.Asks may Q)
    (hsame : ∀ s op, may op ∨ op = .release → handle s op = handle' s op) (held : Bool) (s : σ) :
    p.runFrom handle held s = p.runFrom handle' held s := by
  have habandon (held : Bool) (s : σ) : (Prog.abandon : Prog α).runFrom handle held s =
      (Prog.abandon : Prog α).runFrom handle' held s := by
    rw [runFrom_abandon, runFrom_abandon, hsame s .release (.inr rfl)]
  induction p generalizing held s with
  | done b => rfl
  | step op next ih =>
    have hop := hsame s op (.inl h.1)
    rcases hq : handle s op with ⟨_ | x, u⟩
    · rw [runFrom_step_none hq, runFrom_step_none (hop ▸ hq), habandon]
    · rw [runFrom_step hq, runFrom_step (hop ▸ hq), ih x (h.2 x)]
  | abandon => exact habandon held s

end Prog

end AccessGroups
