import AccessGroups.Proofs.Program.Asks
import AccessGroups.Proofs.Program.Watched

/-!
# Runs that can be cut short

A program runs in a world, and every call is recorded with what is stored after it, also a call that
has no answer. Which calls fail is fixed in advance, by what was called so far. The request for
cancellation comes when a given number of calls has been made, or never.

## Main definitions

* `Faults`: which calls fail.
* `Trail`: a world with the calls that were made and what was stored after each, with
  `Trail.handle`.
* `World.trace`: a run that leaves a trail.
* `Trail.Ends`: a program ends with a value.

## Main results

* `Trail.grows_runFrom`: nothing is taken back from the trail, and it ends with what is stored.
* `Trail.runFrom_cut`: the request for cancellation does not matter to a program that only works.
-/

namespace AccessGroups

/-- How a call fails, given the calls up to it. -/
abbrev Faults : Type :=
  List Call → Option StoreError

/-- A world with the calls that were made, each with what was stored after it. -/
structure Trail where
  world : World
  history : List (Call × Backend) := []

namespace Trail

/-- The calls that were made. -/
def calls (t : Trail) : List Call :=
  t.history.map Prod.fst

/-- Add an event to the log. -/
def say (t : Trail) (e : Event) : Trail :=
  { t with world := t.world.say e }

/-- Note a call and what is stored after it. -/
def note (t : Trail) (c : Call) : Trail :=
  { t with history := t.history ++ [(c, t.world.backend)] }

/-- Make a call, which fails without an effect if it is to fail. -/
def answer (faults : Faults) (t : Trail) (c : Call) : Option c.Answer × Trail :=
  match (faults (t.calls ++ [c])).bind (Watch.refusal? c) with
  | some answer => (some answer, t.note c)
  | none => ((t.world.answer c).1, { t with world := (t.world.answer c).2 }.note c)

/-- What a call to the store gives, if it does not fail. -/
def gives? (faults : Faults) (t : Trail) (c : StoreCall) : Option c.Value :=
  match (t.answer faults (.store c)).1 with
  | some (.ok v) => some v
  | _ => none

/-- Answer an operation. Cancellation is requested when as many calls have been made as `cut` says,
and never if it says nothing. -/
def handle (faults : Faults) (cut : Option Nat) (t : Trail) (op : Op) : Option op.Answer × Trail :=
  match op with
  | .call c => t.answer faults c
  | .poll => (some (cut.any fun n => n ≤ t.history.length), t)
  | op => ((t.world.handle op).1, { t with world := (t.world.handle op).2 })

end Trail

/-- Go on with a part of a program that holds the flag, without a request for cancellation. -/
def Trail.proceed {α : Type} (faults : Faults) (t : Trail) (p : Prog α) :
    Option (α × Bool) × Trail :=
  p.runFrom (Trail.handle faults none) true t

/-- Run a program that leaves a trail. -/
def World.trace {α : Type} (w : World) (faults : Faults) (cut : Option Nat) (p : Prog α) :
    Option α × Trail :=
  p.runIn (Trail.handle faults cut) { world := w }

namespace Trail

variable {α : Type} {faults : Faults} {cut cut' : Option Nat} {held : Bool} {s t u : Trail}

/-! ### What is recorded -/

/-- What is stored is what was stored after the last call, and this if there was none. -/
def Current (b : Backend) (t : Trail) : Prop :=
  t.world.backend = (t.history.getLast?.map Prod.snd).getD b

theorem current_note (b : Backend) (t : Trail) (c : Call) : (t.note c).Current b := by
  simp [Current, note]

/-- Nothing is taken back from the trail, and it stays up to date. -/
structure Grows (s t : Trail) : Prop where
  history : s.history <+: t.history
  current : ∀ b, s.Current b → t.Current b

theorem Grows.refl (t : Trail) : t.Grows t :=
  ⟨List.prefix_refl _, fun _ => id⟩

theorem Grows.trans (h : s.Grows t) (h' : t.Grows u) : s.Grows u :=
  ⟨h.history.trans h'.history, fun b => h'.current b ∘ h.current b⟩

/-- A call is recorded, whether it has an answer or not. -/
theorem history_answer (faults : Faults) (t : Trail) (c : Call) :
    ∃ b, (t.answer faults c).2.history = t.history ++ [(c, b)] := by
  rw [answer]
  cases (faults (t.calls ++ [c])).bind (Watch.refusal? c) with
  | some x => exact ⟨_, rfl⟩
  | none => exact ⟨_, rfl⟩

theorem calls_answer (faults : Faults) (t : Trail) (c : Call) :
    (t.answer faults c).2.calls = t.calls ++ [c] := by
  obtain ⟨b, hhistory⟩ := history_answer faults t c
  rw [calls, calls, hhistory, List.map_append]
  rfl

/-- A call that the world answers has an answer, be it a failure. -/
theorem exists_answer {c : Call} (faults : Faults) (h : ∃ x, (t.world.answer c).1 = some x) :
    ∃ x u, t.answer faults c = (some x, u) ∧ u.calls = t.calls ++ [c] := by
  have hcalls := calls_answer faults t c
  rcases hanswer : t.answer faults c with ⟨_ | x, u⟩
  · obtain ⟨x, hx⟩ := h
    rw [answer] at hanswer
    cases hrefused : (faults (t.calls ++ [c])).bind (Watch.refusal? c) with
    | some y =>
      rw [hrefused] at hanswer
      cases hanswer
    | none =>
      rw [hrefused] at hanswer
      cases hx.symm.trans (Prod.mk.inj hanswer).1
  · rw [hanswer] at hcalls
    exact ⟨x, u, rfl, hcalls⟩

theorem grows_handle (faults : Faults) (cut : Option Nat) (t : Trail) (op : Op) :
    t.Grows (t.handle faults cut op).2 := by
  cases op with
  | call c =>
    refine ⟨?_, fun b _ => ?_⟩
    · obtain ⟨b, hhistory⟩ := history_answer faults t c
      exact hhistory ▸ List.prefix_append _ _
    · rw [handle, answer]
      cases (faults (t.calls ++ [c])).bind (Watch.refusal? c) with
      | some x => exact current_note b t c
      | none => exact current_note b _ c
  | log | record | poll | claim | release => exact ⟨List.prefix_refl _, fun _ => id⟩

theorem grows_runFrom (faults : Faults) (cut : Option Nat) (held : Bool) (p : Prog α) (t : Trail) :
    t.Grows (p.runFrom (handle faults cut) held t).2 :=
  Prog.runFrom_related Grows.refl (fun _ _ _ => Grows.trans) (grows_handle faults cut) held p t

/-- A program that begins with a call makes it. -/
theorem exists_call_prefix (faults : Faults) (cut : Option Nat) (held : Bool) {c : Call}
    (next : c.Answer → Prog α) (t : Trail) : ∃ b, t.history ++ [(c, b)] <+:
      ((Prog.step (.call c) next).runFrom (handle faults cut) held t).2.history := by
  obtain ⟨b, hhistory⟩ := history_answer faults t c
  refine ⟨b, ?_⟩
  rw [← hhistory]
  rcases hanswer : t.answer faults c with ⟨_ | x, u⟩
  · rw [Prog.runFrom_step_none hanswer]
    exact (grows_runFrom faults cut held (.abandon : Prog α) u).history
  · rw [Prog.runFrom_step hanswer]
    exact (grows_runFrom faults cut _ _ u).history

/-! ### Programs that end -/

/-- The program ends with a value, and does not touch the flag. -/
def Ends (faults : Faults) (cut : Option Nat) (held : Bool) (p : Prog α) (Q : α → Trail → Prop)
    (t : Trail) : Prop :=
  ∃ a u, p.runFrom (handle faults cut) held t = (some (a, held), u) ∧ Q a u

variable {β : Type} {Q : β → Trail → Prop}

theorem ends_pure {a : β} (h : Q a t) : Ends faults cut held (pure a) Q t :=
  ⟨a, t, rfl, h⟩

theorem Ends.bind {p : Prog α} {f : α → Prog β} {R : α → Trail → Prop}
    (h : Ends faults cut held p R t) (hf : ∀ a u, R a u → Ends faults cut held (f a) Q u) :
    Ends faults cut held (p >>= f) Q t := by
  obtain ⟨a, u, hrun, hR⟩ := h
  obtain ⟨b, v, hrest, hQ⟩ := hf a u hR
  exact ⟨b, v, by rw [Prog.runFrom_bind, hrun]; exact hrest, hQ⟩

theorem ends_log {e : Event} {f : Unit → Prog β} (h : Ends faults cut held (f ()) Q (t.say e)) :
    Ends faults cut held (Prog.log e >>= f) Q t := by
  obtain ⟨b, u, hrun, hQ⟩ := h
  exact ⟨b, u, (Prog.runFrom_step rfl).trans hrun, hQ⟩

/-- A call that the world answers ends, be it with a failure. -/
theorem ends_call {c : Call} {f : c.Answer → Prog β} (h : ∃ x, (t.world.answer c).1 = some x)
    (hf : ∀ x u, u.calls = t.calls ++ [c] → Ends faults cut held (f x) Q u) :
    Ends faults cut held (Prog.perform (.call c) >>= f) Q t := by
  obtain ⟨x, u, hanswer, hcalls⟩ := t.exists_answer faults h
  obtain ⟨b, v, hrun, hQ⟩ := hf x u hcalls
  exact ⟨b, v, (Prog.runFrom_step hanswer).trans hrun, hQ⟩

/-! ### Cancellation -/

/-- The request for cancellation does not matter to a program that only works. -/
theorem runFrom_cut {p : Prog α} {Q : α → Prop} (h : p.Asks Op.IsWork Q) (cut cut' : Option Nat)
    (held : Bool) (t : Trail) :
    p.runFrom (handle faults cut) held t = p.runFrom (handle faults cut') held t := by
  refine h.runFrom_congr (fun t op hop => ?_) held t
  cases op with
  | poll => exact (hop.elim id nofun).elim
  | call | log | record | claim | release => rfl

end Trail

end AccessGroups
