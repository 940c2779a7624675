import AccessGroups.Proofs.Sweep.Moves

/-!
# What the phases of a sweep have in common

Every phase handles its items one after another. Its effect on the ledger is made of moves, and its
effect on the summary is such that a sweep that nothing disturbs changes the ledger only if it
counts a repair.

## Main definitions

* `Sweep.Effect`: what part of a sweep does to the summary and the account.

## Main results

* `Sweep.Effect.trans`: one part after another.
* `Sweep.forItems_meets`: a phase with an invariant on the ledger and the items that are left.
-/

namespace AccessGroups.Sweep

variable {operator : UserId} {view : View} {k : Conditions} {r r' r'' : Summary}
  {a b c : Account}

/-- What part of a sweep does to the summary and the account. If nothing is disturbed it has no
failures, and it changes the ledger only if it counts a repair. -/
structure Effect (operator : UserId) (view : View) (k : Conditions) (r : Summary) (a : Account)
    (r' : Summary) (b : Account) : Prop where
  moves : Moves operator view a.ledger b.ledger
  running : b.running = a.running
  repairs : r.repairs ≤ r'.repairs
  failures : k.Calm → r'.failures = r.failures
  cancelled : k.Calm → r'.cancelled = r.cancelled
  unchanged : k.Calm → r'.repairs = r.repairs →
    b.ledger.rows = a.ledger.rows ∧ b.ledger.refs = a.ledger.refs

namespace Effect

theorem refl (r : Summary) (a : Account) : Effect operator view k r a r a where
  moves := .refl
  running := rfl
  repairs := Nat.le_refl _
  failures _ := rfl
  cancelled _ := rfl
  unchanged _ _ := ⟨rfl, rfl⟩

theorem trans (h : Effect operator view k r a r' b)
    (h' : Effect operator view k r' b r'' c) : Effect operator view k r a r'' c where
  moves := h.moves.trans h'.moves
  running := h'.running.trans h.running
  repairs := Nat.le_trans h.repairs h'.repairs
  failures hk := (h'.failures hk).trans (h.failures hk)
  cancelled hk := (h'.cancelled hk).trans (h.cancelled hk)
  unchanged hk heq := by
    have h₁ := h.repairs
    have h₂ := h'.repairs
    obtain ⟨hrows, hrefs⟩ := h.unchanged hk (by omega)
    obtain ⟨hrows', hrefs'⟩ := h'.unchanged hk (by omega)
    exact ⟨hrows'.trans hrows, hrefs'.trans hrefs⟩

/-- What is done before a failure or a cancellation, which does not happen if nothing is
disturbed. -/
theorem disturbed (hk : ¬ k.Calm) (hmoves : Moves operator view a.ledger b.ledger)
    (hrunning : b.running = a.running) (hrepairs : r.repairs ≤ r'.repairs) :
    Effect operator view k r a r' b :=
  ⟨hmoves, hrunning, hrepairs, fun h => (hk h).elim, fun h => (hk h).elim, fun h => (hk h).elim⟩

/-- A repair that is counted. -/
theorem counted (hmoves : Moves operator view a.ledger b.ledger)
    (hrunning : b.running = a.running) (hrepairs : r.repairs < r'.repairs)
    (hfailures : r'.failures = r.failures) (hcancelled : r'.cancelled = r.cancelled) :
    Effect operator view k r a r' b where
  moves := hmoves
  running := hrunning
  repairs := Nat.le_of_lt hrepairs
  failures _ := hfailures
  cancelled _ := hcancelled
  unchanged _ heq := by omega

/-- What is done after a call that left the ledger alone. -/
theorem of_after {x : Call} (h : Effect operator view k r (a.after x a.ledger) r' b) :
    Effect operator view k r a r' b :=
  ⟨h.moves, h.running, h.repairs, h.failures, h.cancelled, h.unchanged⟩

end Effect

theorem not_calm_of_mayFail {x : Call} (h : k.mayFail x) : ¬ k.Calm :=
  fun hk => hk.1 x h

/-- Noting a failure. -/
theorem fail_meets {Q : Summary → Account → Prop} {phase : Phase} {target error : String}
    (h : Q (r.fail ⟨phase, target, error⟩) a) :
    (fail r phase target error).Meets (Account.Step k) Q a :=
  Account.meets_log h

/-- At a checkpoint a sweep goes on, or it is cancelled. -/
theorem checkpoint_meets {β : Type} {f : Summary → Prog β} {Q : β → Account → Prop}
    (hgo : (f r).Meets (Account.Step k) Q a)
    (hcancel : k.mayCancel → (f { r with cancelled := true }).Meets (Account.Step k) Q a) :
    (checkpoint r >>= f).Meets (Account.Step k) Q a := by
  rw [checkpoint, bind_assoc]
  refine Account.meets_poll (fun hmay => ?_) hgo
  simp only [if_true]
  cases hc : r.cancelled with
  | false => exact Account.meets_log (hcancel hmay)
  | true => exact hcancel hmay

/-- A phase keeps an invariant on the ledger and the items that are left. If nothing disturbs it no
item is left at the end. -/
theorem forItems_meets (operator : UserId) (view : View) {ι : Type}
    {handle : ι → Summary → Prog Summary} {I : List ι → Ledger → Prop}
    (hitem : ∀ item rest r a, I (item :: rest) a.ledger → (handle item r).Meets (Account.Step k)
      (fun r' b => Effect operator view k r a r' b ∧ I rest b.ledger) a)
    (items : List ι) (r : Summary) (a : Account) (h : I items a.ledger) :
    (forItems handle items r).Meets (Account.Step k) (fun r' b =>
      Effect operator view k r a r' b ∧
        ∃ rest, I rest b.ledger ∧ (k.Calm → r.cancelled = false → rest = [])) a := by
  induction items generalizing r a with
  | nil => exact ⟨.refl r a, [], h, fun _ _ => rfl⟩
  | cons item rest ih =>
    refine checkpoint_meets ?_ fun hmay => ?_
    · split
      · next hc =>
        exact ⟨.refl r a, _, h, fun _ hnot => Bool.noConfusion (hc.symm.trans hnot)⟩
      · refine (hitem item rest r a h).bind ?_
        rintro r₁ b ⟨heffect, hI⟩
        refine (ih r₁ b hI).mono ?_
        rintro r₂ c ⟨heffect', left, hleft, hdone⟩
        refine ⟨heffect.trans heffect', left, hleft, fun hk hnot => hdone hk ?_⟩
        rw [heffect.cancelled hk, hnot]
    · refine ⟨.disturbed (fun hk => hk.2 hmay) .refl rfl (Nat.le_refl _), _, h, fun hk => ?_⟩
      exact (hk.2 hmay).elim

end AccessGroups.Sweep
