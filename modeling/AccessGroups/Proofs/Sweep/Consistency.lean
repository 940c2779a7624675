import AccessGroups.Proofs.Program.Watched
import AccessGroups.Proofs.Sweep.Run

/-!
# Sweeps restore consistency

A sweep that nothing disturbs is completed without failures, whatever was stored before, and leaves
a store in which every resource has a group of its own with rows, every group with rows is referred
to, and no row repeats another or has two principals. The stores that it leaves alone are those that
were so before. For all this every kind of resource must have a table of its own: the resources of
kinds that share one are moved once for each kind, and the groups in between are left behind.

Nothing disturbs a sweep if no other one runs, no cancellation is requested, no call fails, and no
counter of identifiers is exhausted.

## Main definitions

* `Conditions.listing`: everything may fail but listing the resources of some kinds.
* `Sweep.Restored`: what a sweep that nothing disturbs does to a ledger.
* `Sweep.disordered`: a world in which every phase has something to repair.

## Main results

* `Sweep.watch_runOnce`, `Sweep.watch_listed`: sweeps that nothing disturbs, and others.
* `Sweep.consistent_runOnce`: a sweep leaves a consistent store.
* `Sweep.repairs_eq_zero_iff`: a sweep repairs nothing exactly in consistent stores.
-/

namespace AccessGroups

/-- A grant that has not two principals and lets somebody in has one principal and a privilege. -/
theorem Grant.isSome_principal? {g : Grant} (hunmixed : g.isMixed = false)
    (hactive : g.isInert = false) : g.principal?.isSome = true ∧ g.privileges.isEmpty = false := by
  obtain ⟨hnamed, hgives⟩ := Bool.or_eq_false_iff.1 hactive
  refine ⟨?_, hgives⟩
  rcases g with ⟨group, _ | user, _ | unit, privileges⟩
  · cases hnamed
  · rfl
  · rfl
  · cases hunmixed

/-- The call should list the resources of the kind, and failed. -/
def Exchange.isFailedListingOf (kind : ResourceKind) : Exchange → Bool
  | ⟨.registry (.listRefs k), .error _⟩ => k = kind
  | _ => false

/-- Anything may fail but listing the resources of these kinds, and a program may be cancelled. -/
def Conditions.listing (listed : ResourceKind → Prop) : Conditions :=
  ⟨fun c => ∀ kind, listed kind → c ≠ .registry (.listRefs kind), True⟩

namespace Sweep

variable (operator : UserId) {w : World} {l : Ledger}

/-- The sweep had no failures, has changed the ledger only if it counts a repair, and has left a
consistent one. The groups that came to be referred to had no rows. -/
structure Restored (operator : UserId) (l : Ledger) (r : Summary) (t : Ledger) : Prop where
  moves : Moves operator .whole l t
  fresh : ∀ g, g.IsValid → t.Refers g → l.Refers g ∨ ¬ l.Populated g
  failures : r.failures = []
  consistent : Consistent t.rows t.refs
  unchanged : r.repairs = 0 → t.rows = l.rows ∧ t.refs = l.refs

theorem Swept.restored {l : Ledger} {x : Except ServiceError SweepOutcome} {b : Account}
    (h : Swept operator .quiet ⟨l, [], false⟩ x b) (hsep : l.Separate) :
    ∃ r, x = .ok (.completed r) ∧ Restored operator l r b.ledger := by
  obtain ⟨view, hfits, hmoves⟩ := h.moves
  have hmoves := hmoves.mono .whole (fun _ => hfits.complete (fun _ => id) hsep)
    fun _ => False.elim
  obtain ⟨r, rfl, hfailures, -, hconsistent, hunchanged⟩ := h.calm Conditions.calm_quiet rfl
  exact ⟨r, rfl, hmoves, h.fresh fun _ => id, hfailures, hconsistent hsep, hunchanged⟩

/-- A watched sweep that nothing disturbs. -/
theorem watch_runOnce (hshows : w.backend.Shows l) (hsep : l.Separate) (hfree : w.running = false)
    (hgo : w.cancelled = false) (h : (w.watch {} (runOnce operator)).2.Undisturbed) :
    ∃ r b, (w.watch {} (runOnce operator)).1 = some (.ok (.completed r)) ∧
      (w.watch {} (runOnce operator)).2.Follows l.issued b ∧ Restored operator l r b.ledger ∧
        (w.watch {} (runOnce operator)).2.world.running = false ∧
          (w.watch {} (runOnce operator)).2.world.cancelled = false := by
  obtain ⟨x, b, hx, hfollows, hswept, hcancelled⟩ := World.watch_undisturbed
    (runOnce_meets operator .quiet ⟨l, [], false⟩) hshows rfl hfree.symm hgo h
  obtain ⟨r, rfl, hrestored⟩ := hswept.restored operator hsep
  exact ⟨r, b, hx, hfollows, hrestored, hfollows.running.symm.trans hswept.running,
    hcancelled.trans hgo⟩

/-- A watched sweep that nothing disturbs in a consistent store. -/
theorem watch_runOnce_idle (hshows : w.backend.Shows l) (hfree : w.running = false)
    (hgo : w.cancelled = false) (h : (w.watch {} (runOnce operator)).2.Undisturbed)
    (hc : Consistent l.rows l.refs) :
    ∃ r, (w.watch {} (runOnce operator)).1 = some (.ok (.completed r)) ∧ r.repairs = 0 ∧
      (w.watch {} (runOnce operator)).2.world.backend.Shows l ∧
        (w.watch {} (runOnce operator)).2.issued = [] ∧
          ∀ x ∈ (w.watch {} (runOnce operator)).2.exchanges, x.call.isWrite = false := by
  obtain ⟨x, b, hx, hfollows, ⟨hledger, hmade, r, rfl, hzero⟩, -⟩ := World.watch_undisturbed
    (runOnce_idle operator Conditions.calm_quiet ⟨l, [], false⟩ rfl hc) hshows rfl hfree.symm hgo h
  have hl : b.ledger = l := hledger
  refine ⟨r, hx, hzero, hl ▸ hfollows.shows, ?_, fun x hx => ?_⟩
  · have hissued := hfollows.issued
    rw [hl] at hissued
    exact List.self_eq_append_right.1 hissued
  · have hmem : x.call ∈ b.made := hfollows.made ▸ List.mem_map_of_mem hx
    exact (hmade _ hmem).resolve_left List.not_mem_nil

/-- A watched sweep that could list the resources of these kinds, however else it was disturbed. -/
theorem watch_listed (d : Disturbance) (listed : ResourceKind → Prop) (hshows : w.backend.Shows l)
    (hroom : (w.watch d (runOnce operator)).2.spent = false)
    (hlisted : ∀ kind, listed kind →
      ∀ x ∈ (w.watch d (runOnce operator)).2.exchanges, x.isFailedListingOf kind = false) :
    ∃ x b, (w.watch d (runOnce operator)).1 = some x ∧
      (w.watch d (runOnce operator)).2.Follows l.issued b ∧
        Swept operator (.listing listed) ⟨l, [], w.running⟩ x b ∧
          (w.watch d (runOnce operator)).2.world.cancelled = w.cancelled := by
  refine World.watch_meets (runOnce_meets operator (.listing listed) ⟨l, [], w.running⟩) hshows rfl
    rfl (fun _ _ => trivial) hroom ?_
  rintro ⟨c, answer⟩ hx hfailed kind hkind rfl
  cases answer with
  | error e => simpa [Exchange.isFailedListingOf] using hlisted kind hkind _ hx
  | ok refs => cases hfailed

/-! ### Every store -/

/-- **A sweep leaves a consistent store.** If nothing disturbs it, a sweep in a sound store is
completed without failures, and the store is consistent afterwards if every kind of resource has a
table of its own. Unless some row let nobody in before, every row has one principal and some
privilege. -/
theorem consistent_runOnce (hsound : w.backend.Sound) (hseparate : w.backend.Separate)
    (hfree : w.running = false) (hgo : w.cancelled = false)
    (h : (w.watch {} (runOnce operator)).2.Undisturbed) :
    ∃ r, (w.run (runOnce operator)).1 = some (.ok (.completed r)) ∧ r.failures = [] ∧
      Consistent (w.run (runOnce operator)).2.backend.entries
        (w.run (runOnce operator)).2.backend.refs ∧
      ((∀ e ∈ w.backend.entries, e.isInert = false) →
        ∀ e ∈ (w.run (runOnce operator)).2.backend.entries,
          e.principal?.isSome = true ∧ e.privileges.isEmpty = false) := by
  obtain ⟨l, hshows, -⟩ := hsound.exists_shows
  obtain ⟨r, b, hresult, hfollows, hrestored, -⟩ :=
    watch_runOnce operator hshows (hshows.separate hseparate) hfree hgo h
  rw [World.watch_calm]
  refine ⟨r, hresult, hrestored.failures, hfollows.shows.consistent_iff.2 hrestored.consistent,
    fun hactive e he => ?_⟩
  rw [hshows.entries_eq] at hactive
  rw [hfollows.shows.entries_eq] at he
  exact Grant.isSome_principal? (hrestored.consistent.unmixed e he)
    (hrestored.moves.active hactive e he)

/-- A world in which some resources share a group, one refers to a group without rows, one group is
not referred to, and rows of a group repeat one another or have two principals. -/
def disordered : World where
  backend := .memory
    { entries := .ofRows [
        ⟨⟨⟨5⟩, some ⟨1⟩, some ⟨2⟩, .full⟩, ⟨1⟩⟩,
        ⟨⟨⟨5⟩, some ⟨1⟩, none, Privilege.read.mask⟩, ⟨2⟩⟩,
        ⟨⟨⟨5⟩, some ⟨1⟩, none, Privilege.read.mask⟩, ⟨3⟩⟩,
        ⟨⟨⟨9⟩, none, some ⟨4⟩, .full⟩, ⟨4⟩⟩]
      nextEntry := 5 }
    { refs := fun
        | .page => .ofRows [⟨⟨1⟩, ⟨5⟩⟩, ⟨⟨2⟩, ⟨5⟩⟩]
        | .form => .ofRows [⟨⟨1⟩, ⟨8⟩⟩]
        | _ => .empty }

theorem undisturbed_disordered : (disordered.watch {} (runOnce ⟨7⟩)).2.Undisturbed :=
  ⟨by decide +kernel, by decide +kernel⟩

theorem sound_disordered : disordered.backend.Sound :=
  ⟨by decide +kernel, by decide +kernel⟩

theorem consistent_runOnce_disordered :
    Consistent (disordered.run (runOnce ⟨7⟩)).2.backend.entries
        (disordered.run (runOnce ⟨7⟩)).2.backend.refs ∧
      ∀ e ∈ (disordered.run (runOnce ⟨7⟩)).2.backend.entries,
        e.principal?.isSome = true ∧ e.privileges.isEmpty = false := by
  obtain ⟨r, -, -, hconsistent, hactive⟩ :=
    consistent_runOnce ⟨7⟩ sound_disordered trivial rfl rfl undisturbed_disordered
  exact ⟨hconsistent, hactive (by decide +kernel)⟩

/-! ### Consistent stores -/

/-- **Sweeps leave alone what is consistent, and nothing else.** Let every kind of resource have a
table of its own. If nothing disturbs it, a sweep counts no repair exactly if the store was
consistent, and exactly if rows and references are what they were. It makes no call then that could
change them, and takes no group identifier. Another sweep after it that nothing disturbs repairs
nothing. -/
theorem repairs_eq_zero_iff (hsound : w.backend.Sound) (hseparate : w.backend.Separate)
    (hfree : w.running = false) (hgo : w.cancelled = false)
    (h : (w.watch {} (runOnce operator)).2.Undisturbed) :
    ∃ r, (w.run (runOnce operator)).1 = some (.ok (.completed r)) ∧
      (r.repairs = 0 ↔ Consistent w.backend.entries w.backend.refs) ∧
      (r.repairs = 0 ↔ (w.run (runOnce operator)).2.backend.entries = w.backend.entries ∧
        (w.run (runOnce operator)).2.backend.refs = w.backend.refs) ∧
      (r.repairs = 0 → (w.watch {} (runOnce operator)).2.issued = [] ∧
        ∀ x ∈ (w.watch {} (runOnce operator)).2.exchanges, x.call.isWrite = false) ∧
      (((w.run (runOnce operator)).2.watch {} (runOnce operator)).2.Undisturbed →
        ∃ r', ((w.run (runOnce operator)).2.run (runOnce operator)).1 =
            some (.ok (.completed r')) ∧ r'.repairs = 0 ∧
          ((w.run (runOnce operator)).2.run (runOnce operator)).2.backend.entries =
            (w.run (runOnce operator)).2.backend.entries ∧
          ((w.run (runOnce operator)).2.run (runOnce operator)).2.backend.refs =
            (w.run (runOnce operator)).2.backend.refs) := by
  obtain ⟨l, hshows, -⟩ := hsound.exists_shows
  obtain ⟨r, b, hresult, hfollows, hrestored, hfree', hgo'⟩ :=
    watch_runOnce operator hshows (hshows.separate hseparate) hfree hgo h
  simp only [World.watch_calm]
  have hunchanged : ((w.watch {} (runOnce operator)).2.world.backend.entries = w.backend.entries ∧
      (w.watch {} (runOnce operator)).2.world.backend.refs = w.backend.refs) ↔
        b.ledger.rows = l.rows ∧ b.ledger.refs = l.refs := by
    rw [hfollows.shows.entries_eq, hshows.entries_eq, funext hfollows.shows.refs_eq,
      funext hshows.refs_eq]
  have hzero : Consistent l.rows l.refs → r.repairs = 0 := fun hc => by
    obtain ⟨r', hresult', hzero, -⟩ := watch_runOnce_idle operator hshows hfree hgo h hc
    cases hresult.symm.trans hresult'
    exact hzero
  have hconsistent : b.ledger.rows = l.rows ∧ b.ledger.refs = l.refs →
      Consistent l.rows l.refs := by
    rintro ⟨hrows, hrefs⟩
    rw [← hrows, ← hrefs]
    exact hrestored.consistent
  refine ⟨r, hresult, ?_, ?_, fun hr => ?_, fun h' => ?_⟩
  · rw [hshows.consistent_iff]
    exact ⟨hconsistent ∘ hrestored.unchanged, hzero⟩
  · rw [hunchanged]
    exact ⟨hrestored.unchanged, hzero ∘ hconsistent⟩
  · have hc := hconsistent (hrestored.unchanged hr)
    obtain ⟨-, -, -, -, hissued, hreads⟩ := watch_runOnce_idle operator hshows hfree hgo h hc
    exact ⟨hissued, hreads⟩
  · obtain ⟨r', hresult', hzero', hshows', -⟩ :=
      watch_runOnce_idle operator hfollows.shows hfree' hgo' h' hrestored.consistent
    refine ⟨r', hresult', hzero', ?_, ?_⟩
    · rw [hshows'.entries_eq, hfollows.shows.entries_eq]
    · rw [funext hshows'.refs_eq, funext hfollows.shows.refs_eq]

theorem repairs_eq_zero_iff_disordered :
    ∃ r, (disordered.run (runOnce ⟨7⟩)).1 = some (.ok (.completed r)) ∧ r.repairs ≠ 0 ∧
      ∃ r', ((disordered.run (runOnce ⟨7⟩)).2.run (runOnce ⟨7⟩)).1 = some (.ok (.completed r')) ∧
        r'.repairs = 0 := by
  obtain ⟨r, hresult, hiff, -, -, hagain⟩ :=
    repairs_eq_zero_iff ⟨7⟩ sound_disordered trivial rfl rfl undisturbed_disordered
  refine ⟨r, hresult, fun hzero => ?_, ?_⟩
  · have hunmixed := (hiff.1 hzero).unmixed
    revert hunmixed
    decide +kernel
  · obtain ⟨r', hresult', hzero, -⟩ := hagain ⟨by decide +kernel, by decide +kernel⟩
    exact ⟨r', hresult', hzero⟩

end Sweep

end AccessGroups
