import AccessGroups.Program.World
import AccessGroups.Proofs.Store.Backend

/-!
# The answers of a world that keeps a ledger

A world whose store keeps a ledger answers a call as the ledger says, or it fails and leaves the
store alone. The messages of a database about the call are left in the log.

## Main results

* `World.answer_store`, `World.answer_registry`: the answer to a call, and the world that it leaves.
* `World.run_store_of_ok`, `World.run_registry_of_ok`: how a program came to a value that no failure
  leads to.
-/

namespace AccessGroups.World

variable {α : Type} {w v : World} {l : Ledger}

/-- The messages of a database about a call go to the log. -/
theorem foldl_say_eq (events : List Event) (w : World) :
    ∃ log, events.foldl say w = { w with log } := by
  induction events generalizing w with
  | nil => exact ⟨w.log, rfl⟩
  | cons e rest ih =>
    obtain ⟨log, h⟩ := ih (w.say e)
    exact ⟨log, h⟩

/-- A call to the store is answered as the ledger says as long as no counter is exhausted, or it
fails and changes nothing. -/
theorem answer_store (h : w.backend.Shows l) (c : StoreCall)
    (hroom : w.backend.idCounters.exhaustedBy (.store c) = false) :
    (∃ v b t, w.answer (.store c) = (some (.ok v), { w with backend := b }) ∧ l.Gives c v t ∧
      b.Shows t) ∨ ∃ e, w.answer (.store c) = (some (.error e), w) := by
  rcases Backend.performStore_shows h c hroom with ⟨v, b, t, hperform, hgives, hshows⟩ |
    ⟨e, hperform⟩
  · exact .inl ⟨v, b, t, by rw [answer, hperform], hgives, hshows⟩
  · exact .inr ⟨e, by rw [answer, hperform]⟩

/-- A call to the resources is answered as the ledger says, or it fails and leaves the store
alone. -/
theorem answer_registry (h : w.backend.Shows l) (c : RegistryCall) :
    (∃ v b log t, w.answer (.registry c) = (some (.ok v), { w with backend := b, log }) ∧
      l.GivesRegistry c v t ∧ b.Shows t) ∨
        ∃ e log, w.answer (.registry c) = (some (.error e), { w with log }) := by
  obtain ⟨log, hlog⟩ := foldl_say_eq
    (w.backend.remarks c (w.backend.performRegistry c).1)
    { w with backend := (w.backend.performRegistry c).2 }
  have hanswer : w.answer (.registry c) = (some (w.backend.performRegistry c).1,
      { w with backend := (w.backend.performRegistry c).2, log }) := by
    simp only [answer]
    rw [hlog]
  rcases Backend.performRegistry_shows h c with ⟨v, b, t, hperform, hgives, hshows⟩ |
    ⟨e, hperform⟩
  · exact .inl ⟨v, b, log, t, by rw [hanswer, hperform], hgives, hshows⟩
  · exact .inr ⟨e, log, by rw [hanswer, hperform]⟩

/-- A program ends with a value only if its call to the store did not fail, unless a failure leads
to the value as well. -/
theorem run_store_of_ok {c : StoreCall} {f : c.Answer → Prog α} {y : α} (h : w.backend.Shows l)
    (hroom : w.backend.idCounters.exhaustedBy (.store c) = false)
    (hy : (w.run (Prog.store c >>= f)).1 = some y)
    (herror : ∀ (v : World) e, (v.run (f (.error e))).1 ≠ some y) :
    ∃ x t, ∃ v : World, l.Gives c x t ∧ v.backend.Shows t ∧
      w.run (Prog.store c >>= f) = v.run (f (.ok x)) := by
  rcases answer_store h c hroom with ⟨x, b, t, hanswer, hgives, hb⟩ | ⟨e, hanswer⟩
  · exact ⟨x, t, _, hgives, hb, run_call _ hanswer⟩
  · have hrun : w.run (Prog.store c >>= f) = w.run (f (.error e)) := run_call _ hanswer
    rw [hrun] at hy
    exact (herror w e hy).elim

/-- A program ends with a value only if its call to the resources did not fail, unless a failure
leads to the value as well. -/
theorem run_registry_of_ok {c : RegistryCall} {f : c.Answer → Prog α} {y : α}
    (h : w.backend.Shows l) (hy : (w.run (Prog.registry c >>= f)).1 = some y)
    (herror : ∀ (v : World) e, (v.run (f (.error e))).1 ≠ some y) :
    ∃ x t, ∃ v : World, l.GivesRegistry c x t ∧ v.backend.Shows t ∧
      w.run (Prog.registry c >>= f) = v.run (f (.ok x)) := by
  rcases answer_registry h c with ⟨x, b, log, t, hanswer, hgives, hb⟩ | ⟨e, log, hanswer⟩
  · exact ⟨x, t, _, hgives, hb, run_call _ hanswer⟩
  · have hrun : w.run (Prog.registry c >>= f) = ({ w with log } : World).run (f (.error e)) :=
      run_call _ hanswer
    rw [hrun] at hy
    exact (herror _ e hy).elim

/-- A program that ends with a value whatever its first part comes to has no other value. -/
theorem eq_of_run_bind_done {β : Type} {p : Prog β} {x y : α}
    (h : (w.run (p >>= fun _ => .done x)).1 = some y) : y = x := by
  rw [run, Prog.exec, Prog.execFrom_bind, bind_assoc, StateT.run_bind] at h
  rcases hr : (p.execFrom (m := StateM World) (fun op w => w.handle op) false).run w with ⟨_ | a, v⟩
  · rw [hr] at h
    cases h
  · rw [hr] at h
    cases h
    rfl

end AccessGroups.World
