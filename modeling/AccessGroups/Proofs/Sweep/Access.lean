import AccessGroups.Proofs.Service.Access
import AccessGroups.Proofs.Sweep.Consistency
import AccessGroups.Proofs.Sweep.Outcome

/-!
# Sweeps keep access

A sweep changes no decision on a resource whose group has rows, however it is disturbed. The
decision depends on the rights that the rows of the group give, and the moves keep these.

## Main definitions

* `Right.Admits`: a right lets a user with some units in.
* `Sweep.interruption`: a disturbance between the two calls that split a row.

## Main results

* `Sweep.decision_runOnce`: the decisions before and after a sweep.
-/

namespace AccessGroups

variable {w v : World} {l t : Ledger} {user : UserId} {units : List UnitId} {g f : GroupId}
  {mask : Privileges}

/-- The right covers the mask, and names the user or one of the units. -/
def Right.Admits (x : Right) (user : UserId) (units : List UnitId) (mask : Privileges) : Prop :=
  x.privileges.covers mask = true ∧ (x.user = some user ∨ ∃ unit ∈ units, x.unit = some unit)

/-- A grant lets somebody in if one of its rights does, also if it has two principals. -/
theorem Grant.admits_iff {g : Grant} :
    g.Admits user units mask ↔ ∃ x ∈ g.rights, x.Admits user units mask := by
  cases hmixed : g.isMixed with
  | false =>
    rw [Grant.rights_of_unmixed hmixed]
    simp [Admits, Right.Admits, right]
  | true =>
    rw [Grant.rights_of_mixed hmixed]
    simp only [List.mem_cons, List.not_mem_nil, or_false, exists_eq_or_imp, exists_eq_left]
    simp [Admits, Right.Admits, right, userHalf, unitHalf, and_or_left]

/-- The check decides by the rights that the rows of the group give. -/
theorem World.decision_eq_true_iff (h : w.backend.Shows l) (user : UserId) (units : List UnitId)
    (g : GroupId) (mask : Privileges) :
    ∃ admitted, w.decision user units g mask = some (.ok admitted) ∧
      (admitted = true ↔ ∃ x, l.Holds g x ∧ x.Admits user units mask) := by
  refine (World.decision_iff h).imp fun admitted hadmitted =>
    hadmitted.imp_right fun hiff => hiff.trans ?_
  constructor
  · rintro ⟨e, he, hg, hadmits⟩
    obtain ⟨x, hx, hadmits⟩ := Grant.admits_iff.1 hadmits
    exact ⟨x, ⟨e, he, hg, hx⟩, hadmits⟩
  · rintro ⟨x, ⟨e, he, hg, hx⟩, hadmits⟩
    exact ⟨e, he, hg, Grant.admits_iff.2 ⟨x, hx, hadmits⟩⟩

/-- Groups that give the same rights have the same decisions. -/
theorem World.decision_congr (hw : w.backend.Shows l) (hv : v.backend.Shows t)
    (h : ∀ x, t.Holds f x ↔ l.Holds g x) : ∃ admitted,
      w.decision user units g mask = some (.ok admitted) ∧
        v.decision user units f mask = some (.ok admitted) := by
  obtain ⟨a, hdecision, ha⟩ := World.decision_eq_true_iff hw user units g mask
  obtain ⟨b, hdecision', hb⟩ := World.decision_eq_true_iff hv user units f mask
  simp only [h] at hb
  obtain rfl : b = a := Bool.eq_iff_iff.2 (hb.trans ha.symm)
  exact ⟨b, hdecision, hdecision'⟩

namespace Sweep

variable (operator : UserId) (d : Disturbance) {kind : ResourceKind} {r : ResourceId}

/-- **A sweep keeps access.** However it is disturbed, as long as no counter of identifiers is
exhausted, a sweep ends, and every resource whose group was valid and had rows has a group on which
the check decides as it did on the group before. -/
theorem decision_runOnce (hsound : w.backend.Sound)
    (hroom : (w.watch d (runOnce operator)).2.spent = false) (hg : ⟨r, g⟩ ∈ w.backend.refs kind)
    (hvalid : g.IsValid) (hrows : ∃ e ∈ w.backend.entries, e.group = g) :
    (∃ x, (w.watch d (runOnce operator)).1 = some x) ∧
      (∃ f, ⟨r, f⟩ ∈ (w.watch d (runOnce operator)).2.world.backend.refs kind) ∧
      ∀ f, ⟨r, f⟩ ∈ (w.watch d (runOnce operator)).2.world.backend.refs kind →
        ∀ user units mask, ∃ admitted, w.decision user units g mask = some (.ok admitted) ∧
          (w.watch d (runOnce operator)).2.world.decision user units f mask =
            some (.ok admitted) := by
  obtain ⟨l, hshows, -⟩ := hsound.exists_shows
  obtain ⟨x, b, hresult, hfollows, hswept, -⟩ := World.watch_meets
    (runOnce_meets operator ⟨fun _ => True, True⟩ ⟨l, [], w.running⟩) hshows rfl rfl
    (fun _ _ => trivial) hroom fun _ _ _ => trivial
  obtain ⟨view, -, hmoves⟩ := hswept.moves
  rw [hshows.refs_eq] at hg
  rw [hshows.entries_eq] at hrows
  obtain ⟨f, hf, houtcome, hlive⟩ := hmoves.outcome hg (.inr ⟨hvalid, hrows⟩)
  obtain ⟨hvalid', hrows'⟩ := hlive ⟨hvalid, hrows⟩
  rw [hfollows.shows.refs_eq]
  refine ⟨⟨x, hresult⟩, ⟨f, hf⟩, fun f' hf' user units mask => ?_⟩
  obtain rfl : f' = f := (GroupRef.mk.inj (b.ledger.eq_of_resource_eq hf' hf rfl)).2
  refine World.decision_congr hshows hfollows.shows fun y => ?_
  rw [← Ledger.outcome_of_populated hvalid' hrows', houtcome y,
    Ledger.outcome_of_populated hvalid hrows]

/-- The second call that splits a row fails, and later the sweep is cancelled. -/
def interruption : Disturbance where
  fault n := if n = 11 then some .notFound else none
  cancelled n := n = 6

theorem decision_runOnce_disordered :
    (disordered.watch interruption (runOnce ⟨7⟩)).2.failed = true ∧
      ∃ f, ⟨⟨2⟩, f⟩ ∈ (disordered.watch interruption (runOnce ⟨7⟩)).2.world.backend.refs .page ∧
        ∀ user units mask, ∃ admitted,
          disordered.decision user units ⟨5⟩ mask = some (.ok admitted) ∧
            (disordered.watch interruption (runOnce ⟨7⟩)).2.world.decision user units f mask =
              some (.ok admitted) := by
  have hg : (⟨⟨2⟩, ⟨5⟩⟩ : GroupRef) ∈ disordered.backend.refs .page := by decide +kernel
  obtain ⟨-, ⟨f, hf⟩, hdecision⟩ := decision_runOnce ⟨7⟩ interruption sound_disordered
    (by decide +kernel) hg (by decide +kernel) (by decide +kernel)
  exact ⟨by decide +kernel, f, hf, hdecision f hf⟩

end Sweep

end AccessGroups
