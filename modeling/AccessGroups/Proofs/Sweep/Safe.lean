import AccessGroups.Proofs.Program.Among
import AccessGroups.Sweep.Run

/-!
# Sweeps among others

Rules for the safety of the parts that all phases of a sweep share: what happens between items, and
the items of a phase one after another. They hold for all others, and for everything that the calls
of a sweep can do.

## Main results

* `Sweep.safe_checkpoint`: a sweep goes on at a checkpoint, cancelled or not.
* `Sweep.safe_forItems`: a phase is safe when the handling of every item is.
* `Sweep.allocateFresh_succ`: what the search for a fresh group comes to.
-/

namespace AccessGroups.Sweep

/-- A fresh group is the one that the store hands out, unless it is referenced. -/
theorem allocateFresh_succ (referenced : List GroupId) (limit : Nat) :
    allocateFresh referenced (limit + 1) = Prog.store .allocateGroup >>= fun
      | .error e => return .error (.store e)
      | .ok group =>
        if group ∉ referenced then return .ok group
        else
          Prog.log (.allocationReferenced group) >>= fun _ => allocateFresh referenced limit := by
  refine congrArg (Prog.step _) (funext fun x => ?_)
  cases x <;> rfl

open Prog

variable {σ β ι : Type} {step : σ → (op : Op) → op.Answer → σ → Prop} {rely : σ → σ → Prop}
  {may : σ → Op → Prop} [IsPreorder σ rely] (hcalls : CallsOnly step may) {s : σ} {r : Summary}

include hcalls

theorem safe_fail {phase : Phase} {target error : String} {Q : Summary → σ → Prop}
    (hQ : ∀ r, Stable rely (Q r)) (h : ∀ r, Q r s) :
    (fail r phase target error).Safe step rely may Q s :=
  safe_log hcalls (safe_pure (hQ _) (h _))

/-- At a checkpoint a sweep goes on, cancelled or not. -/
theorem safe_checkpoint {f : Summary → Prog β} {Q : β → σ → Prop}
    (h : ∀ r, (f r).Safe step rely may Q s) : (checkpoint r >>= f).Safe step rely may Q s := by
  rw [checkpoint, bind_assoc]
  refine safe_quiet hcalls (fun _ => nofun) ?_
  rintro (_ | _)
  · exact h _
  · simp only [if_true]
    cases r.cancelled with
    | false => exact safe_log hcalls (h _)
    | true => exact h _

/-- A phase is safe when the handling of every item is, with what is known of the items that are
left. -/
theorem safe_forItems {handle : ι → Summary → Prog Summary} {I : List ι → σ → Prop} {items : List ι}
    (hI : ∀ rest, Stable rely (I rest))
    (hitem : ∀ item rest r s, I (item :: rest) s →
      (handle item r).Safe step rely may (fun _ => I rest) s)
    (h : I items s) :
    (forItems handle items r).Safe step rely may (fun _ s => ∃ rest, I rest s) s := by
  have hstop {rest : List ι} {r : Summary} {s : σ} (h : I rest s) :
      (pure r : Prog Summary).Safe step rely may (fun _ s => ∃ rest, I rest s) s :=
    safe_pure (fun _ _ ⟨rest, h⟩ hst => ⟨rest, hI rest h hst⟩) ⟨rest, h⟩
  induction items generalizing r s with
  | nil => exact hstop h
  | cons item rest ih =>
    refine safe_checkpoint hcalls fun r => ?_
    split
    · exact hstop h
    · exact (hitem item rest r s h).bind fun r s h => ih h

theorem safe_reportUnrepairable {ids : List EntryId} {f : Unit → Prog β} {Q : β → σ → Prop}
    (h : (f ()).Safe step rely may Q s) :
    (reportUnrepairable ids >>= f).Safe step rely may Q s := by
  rw [reportUnrepairable]
  split
  · exact safe_log hcalls h
  · exact h

end AccessGroups.Sweep
