import AccessGroups.Proofs.Sweep.Access
import AccessGroups.Proofs.Sweep.Placed

/-!
# Interrupted sweeps are finished by the next one

A sweep may fail at any call or be cancelled at any time. As long as every kind of resource has a
table of its own, which the sweep could list, the next sweep that nothing disturbs brings the store
where one undisturbed sweep would have brought it in the first place. The rows may have other
identifiers, and the groups that were handed out on the way other names.

## Main definitions

* `Exchange.isFailedListing`: listing the resources of a kind failed.

## Main results

* `Sweep.runOnce_recovers`: an interrupted sweep with the next one, against a single sweep.
-/

namespace AccessGroups

/-- The call should list the resources of a kind, and failed. -/
def Exchange.isFailedListing : Exchange → Bool
  | ⟨.registry (.listRefs _), .error _⟩ => true
  | _ => false

theorem Exchange.isFailedListingOf_eq_false {x : Exchange} (h : x.isFailedListing = false)
    (kind : ResourceKind) : x.isFailedListingOf kind = false := by
  rcases x with ⟨c | c | c, answer⟩
  · rfl
  · cases c with
    | listRefs k =>
      cases answer with
      | error e => cases h
      | ok refs => rfl
    | _ => rfl
  · rfl

namespace Sweep

variable (operator : UserId) {w : World} {l : Ledger}

/-- A watched sweep that could list the resources of every kind makes its moves in full knowledge of
the references. -/
theorem watch_listing (d : Disturbance) (hshows : w.backend.Shows l) (hsep : l.Separate)
    (hfree : w.running = false) (hgo : w.cancelled = false)
    (hroom : (w.watch d (runOnce operator)).2.spent = false)
    (hlisted : (w.watch d (runOnce operator)).2.exchanges.any Exchange.isFailedListing = false) :
    ∃ b, (w.watch d (runOnce operator)).2.Follows l.issued b ∧ Moves operator .whole l b.ledger ∧
      (w.watch d (runOnce operator)).2.world.running = false ∧
        (w.watch d (runOnce operator)).2.world.cancelled = false := by
  obtain ⟨x, b, -, hfollows, hswept, hcancelled⟩ :=
    watch_listed operator d (fun _ => True) hshows hroom fun kind _ x hx =>
      Exchange.isFailedListingOf_eq_false (Bool.eq_false_iff.2 (List.any_eq_false.1 hlisted x hx)) _
  obtain ⟨view, hfits, hmoves⟩ := hswept.moves
  have hmoves := hmoves.mono .whole
    (fun _ => hfits.complete (fun kind h => h kind trivial rfl) hsep) fun _ => False.elim
  have hrunning := hfollows.running.symm.trans (hswept.running.trans hfree)
  exact ⟨b, hfollows, hmoves, hrunning, hcancelled.trans hgo⟩

/-- **An interrupted sweep is finished by the next one.** Let every kind of resource have a table of
its own. The first sweep may be disturbed in any way but that listing resources fails; the second
one follows it and is not disturbed. They leave the same rows and references as a single sweep that
is not disturbed, but for the group identifiers that the sweeps took and the identifiers of the
rows. The same resources keep the groups that they had. -/
theorem runOnce_recovers {d : Disturbance} {first second single : Watch}
    (hfirst : (w.watch d (runOnce operator)).2 = first)
    (hsecond : (first.world.watch {} (runOnce operator)).2 = second)
    (hsingle : (w.watch {} (runOnce operator)).2 = single)
    (hsound : w.backend.Sound) (hseparate : w.backend.Separate) (hfree : w.running = false)
    (hgo : w.cancelled = false) (hlisted : first.exchanges.any Exchange.isFailedListing = false)
    (hroom : first.spent = false) (hcalm : second.Undisturbed) (hcalm' : single.Undisturbed) :
    ∃ rename, SameUpTo rename single.world.backend.entries second.world.backend.entries
        single.world.backend.refs second.world.backend.refs ∧
      (∀ g, g ∉ single.issued → rename g = g) ∧
      (∀ kind, ∀ a ∈ single.world.backend.refs kind, rename a.group = a.group ∨
        (a.group ∈ single.issued ∧ rename a.group ∈ first.issued ++ second.issued)) ∧
      ∀ kind r g, ⟨r, g⟩ ∈ w.backend.refs kind →
        (⟨r, g⟩ ∈ single.world.backend.refs kind ↔ ⟨r, g⟩ ∈ second.world.backend.refs kind) := by
  subst hfirst hsecond hsingle
  obtain ⟨l, hshows, hnone⟩ := hsound.exists_shows
  have hsep := hshows.separate hseparate
  obtain ⟨b, hb, hmoves, hfree', hgo'⟩ :=
    watch_listing operator d hshows hsep hfree hgo hroom hlisted
  obtain ⟨r, c, -, hc, hrestored, -⟩ :=
    watch_runOnce operator hb.shows (hmoves.separate hsep) hfree' hgo' hcalm
  obtain ⟨r', s, -, hs, hrestored', -⟩ := watch_runOnce operator hshows hsep hfree hgo hcalm'
  have hissued := hc.issued
  rw [hb.issued, hnone, List.nil_append] at hissued
  have hissued' := hs.issued
  rw [hnone, List.nil_append] at hissued'
  rw [hs.shows.entries_eq, hc.shows.entries_eq, funext hs.shows.refs_eq, funext hc.shows.refs_eq,
    funext hshows.refs_eq, ← hissued, ← hissued']
  exact sameUpTo_of_moves hrestored'.moves (hmoves.trans hrestored.moves) trivial
    hrestored'.consistent hrestored.consistent

theorem runOnce_recovers_disordered : ∃ rename,
    SameUpTo rename (disordered.watch {} (runOnce ⟨7⟩)).2.world.backend.entries
      ((disordered.watch interruption (runOnce ⟨7⟩)).2.world.watch {}
        (runOnce ⟨7⟩)).2.world.backend.entries
      (disordered.watch {} (runOnce ⟨7⟩)).2.world.backend.refs
      ((disordered.watch interruption (runOnce ⟨7⟩)).2.world.watch {}
        (runOnce ⟨7⟩)).2.world.backend.refs := by
  obtain ⟨rename, hsame, -⟩ := runOnce_recovers ⟨7⟩ (d := interruption) rfl rfl rfl sound_disordered
    trivial rfl rfl (by decide +kernel) (by decide +kernel) ⟨by decide +kernel, by decide +kernel⟩
    undisturbed_disordered
  exact ⟨rename, hsame⟩

end Sweep

end AccessGroups
