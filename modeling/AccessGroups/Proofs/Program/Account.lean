import AccessGroups.Proofs.Program.Meets
import AccessGroups.Proofs.Store.Ledger

/-!
# Programs on a ledger

An account is what a program can tell of the outside: the ledger of the store and its resources, the
calls made so far, and whether the sweep flag is held. A successful call does to the ledger what the
ledger says, a failing one leaves it alone. Conditions say which calls may fail and whether the
program may be cancelled.

## Main definitions

* `Account`: a ledger, the calls made, and the sweep flag.
* `Conditions`: what may disturb a program, with `Conditions.Calm`.
* `Account.Step`: the answers to an operation, and the account that each leaves.
* `Account.Looked`: nothing but reading calls lies between two accounts.

## Main results

* `Account.meets_store`, `Account.meets_registry`: how a program goes on after a call.
-/

namespace AccessGroups

/-- The call can change what is stored. -/
def Call.isWrite : Call → Bool
  | .store c => c.isWrite
  | .registry c => c.isWrite
  | .principal _ => false

/-- A ledger with the calls made so far, and whether the sweep flag is held. -/
structure Account where
  ledger : Ledger
  made : List Call
  running : Bool

/-- Which calls may fail, and whether a program may be cancelled. -/
structure Conditions where
  mayFail : Call → Prop
  mayCancel : Prop

/-- Nothing fails, and nothing is cancelled. -/
def Conditions.Calm (k : Conditions) : Prop :=
  (∀ c, ¬ k.mayFail c) ∧ ¬ k.mayCancel

/-- The conditions under which nothing disturbs a program. -/
def Conditions.quiet : Conditions :=
  ⟨fun _ => False, False⟩

theorem Conditions.calm_quiet : quiet.Calm :=
  ⟨fun _ => id, id⟩

namespace Account

variable {α : Type} {k : Conditions} {Q : α → Account → Prop} {a : Account}

/-- The account after a call that left this ledger. -/
def after (a : Account) (c : Call) (t : Ledger) : Account :=
  { a with ledger := t, made := a.made ++ [c] }

@[simp] theorem ledger_after (c : Call) (t : Ledger) : (a.after c t).ledger = t := rfl

@[simp] theorem made_after (c : Call) (t : Ledger) : (a.after c t).made = a.made ++ [c] := rfl

@[simp] theorem running_after (c : Call) (t : Ledger) : (a.after c t).running = a.running := rfl

/-- The operation can have this answer and leave this account. -/
def Step (k : Conditions) (a : Account) : (op : Op) → op.Answer → Account → Prop
  | .call (.store c), .ok v, b => ∃ t, a.ledger.Gives c v t ∧ b = a.after (.store c) t
  | .call (.store c), .error _, b => k.mayFail (.store c) ∧ b = a.after (.store c) a.ledger
  | .call (.registry c), .ok v, b =>
    ∃ t, a.ledger.GivesRegistry c v t ∧ b = a.after (.registry c) t
  | .call (.registry c), .error _, b =>
    k.mayFail (.registry c) ∧ b = a.after (.registry c) a.ledger
  | .call (.principal c), _, b => b = a.after (.principal c) a.ledger
  | .poll, cancelled, b => (cancelled = true → k.mayCancel) ∧ b = a
  | .claim, taken, b => taken = !a.running ∧ b = { a with running := true }
  | .release, _, b => b = { a with running := false }
  | .log _, _, b => b = a
  | .record _, _, b => b = a

/-! ### Operations of a program -/

/-- After a call to the store a program goes on from the ledger that the call left, or from the same
one with a failure. -/
theorem meets_store {c : StoreCall} {f : c.Answer → Prog α}
    (hok : ∀ v t, a.ledger.Gives c v t → (f (.ok v)).Meets (Step k) Q (a.after (.store c) t))
    (herror : k.mayFail (.store c) →
      ∀ e, (f (.error e)).Meets (Step k) Q (a.after (.store c) a.ledger)) :
    (Prog.store c >>= f).Meets (Step k) Q a := by
  rintro (e | v) b hstep
  · obtain ⟨hfail, rfl⟩ := hstep
    exact herror hfail e
  · obtain ⟨t, hgives, rfl⟩ := hstep
    exact hok v t hgives

/-- After a call to the resources a program goes on from the ledger that the call left, or from the
same one with a failure. -/
theorem meets_registry {c : RegistryCall} {f : c.Answer → Prog α}
    (hok : ∀ v t, a.ledger.GivesRegistry c v t →
      (f (.ok v)).Meets (Step k) Q (a.after (.registry c) t))
    (herror : k.mayFail (.registry c) →
      ∀ e, (f (.error e)).Meets (Step k) Q (a.after (.registry c) a.ledger)) :
    (Prog.registry c >>= f).Meets (Step k) Q a := by
  rintro (e | v) b hstep
  · obtain ⟨hfail, rfl⟩ := hstep
    exact herror hfail e
  · obtain ⟨t, hgives, rfl⟩ := hstep
    exact hok v t hgives

theorem meets_log {e : Event} {f : Unit → Prog α} (h : (f ()).Meets (Step k) Q a) :
    (Prog.log e >>= f).Meets (Step k) Q a := by
  rintro x b rfl
  exact h

theorem meets_record {e : SweepEnd} {f : Unit → Prog α} (h : (f ()).Meets (Step k) Q a) :
    (Prog.perform (.record e) >>= f).Meets (Step k) Q a := by
  rintro x b rfl
  exact h

theorem meets_poll {f : Bool → Prog α} (hcancel : k.mayCancel → (f true).Meets (Step k) Q a)
    (hgo : (f false).Meets (Step k) Q a) : (Prog.perform .poll >>= f).Meets (Step k) Q a := by
  rintro (_ | _) b ⟨hmay, rfl⟩
  · exact hgo
  · exact hcancel (hmay rfl)

theorem meets_claim {f : Bool → Prog α}
    (h : (f !a.running).Meets (Step k) Q { a with running := true }) :
    (Prog.perform .claim >>= f).Meets (Step k) Q a := by
  rintro x b ⟨rfl, rfl⟩
  exact h

theorem meets_release {f : Unit → Prog α}
    (h : (f ()).Meets (Step k) Q { a with running := false }) :
    (Prog.perform .release >>= f).Meets (Step k) Q a := by
  rintro x b rfl
  exact h

/-! ### Reading -/

/-- Between the accounts nothing was done but to read. -/
structure Looked (a b : Account) : Prop where
  ledger : b.ledger = a.ledger
  running : b.running = a.running
  made : ∀ c ∈ b.made, c ∈ a.made ∨ c.isWrite = false

theorem Looked.refl (a : Account) : a.Looked a :=
  ⟨rfl, rfl, fun _ => .inl⟩

theorem Looked.trans {b c : Account} (h : a.Looked b) (h' : b.Looked c) : a.Looked c where
  ledger := h'.ledger.trans h.ledger
  running := h'.running.trans h.running
  made x hx := (h'.made x hx).elim (h.made x) .inr

/-- A reading call that leaves the ledger alone. -/
theorem looked_after {c : Call} (h : c.isWrite = false) : a.Looked (a.after c a.ledger) where
  ledger := rfl
  running := rfl
  made x hx := (List.mem_append.1 hx).imp_right fun hx => by rwa [List.mem_singleton.1 hx]

end Account

end AccessGroups
