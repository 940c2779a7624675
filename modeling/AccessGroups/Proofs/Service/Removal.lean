import AccessGroups.Proofs.Program.Answer
import AccessGroups.Proofs.Sweep.Access
import AccessGroups.Service.Removal

/-!
# Removal of one resource among others

A resource is removed together with the rows of its group. The resources that remain keep their
groups, and the groups that remain keep their rows. So a removal disturbs nobody unless another
resource has the same group. Resources of different kinds may have one group together without a
sweep taking offence; removing one of them takes the rows from the others.

## Main definitions

* `Backend.SameTable`: two kinds of resources are kept in one table.
* `Ledger.Removed`: what a removal leaves.
* `Removal.paired`: a world in which resources of two kinds have one group together.
* `Removal.parted`: a world in which they have groups of their own.

## Main results

* `Removal.run_deleteResource`: a removal that succeeds does what it should.
* `Removal.consistent_deleteResource`: a removal leaves a consistent store, and the other resources
  as they were, if the group was that of the resource alone.
-/

namespace AccessGroups

/-- The two kinds of resources are kept in one table. -/
def Backend.SameTable : Backend → ResourceKind → ResourceKind → Prop
  | .memory _ _, k, k' => k = k'
  | .database tables _, k, k' =>
    Text.lower (tables.table k).table = Text.lower (tables.table k').table

theorem Backend.Shows.sameTable_iff {b : Backend} {l : Ledger} (h : b.Shows l)
    (k k' : ResourceKind) : b.SameTable k k' ↔ l.table k = l.table k' := by
  cases b with
  | memory s r => exact ⟨fun heq => heq ▸ rfl, MemoryStore.Shows.separate h k k'⟩
  | database tables d => rw [SameTable, h.2.table, h.2.table]

/-- The resource and the rows of its group are gone, if the group was valid, and nothing else has
changed. -/
structure Ledger.Removed (l : Ledger) (kind : ResourceKind) (r : ResourceId) (g : GroupId)
    (t : Ledger) : Prop where
  refs : t.refs = (l.remove kind r).refs
  rows : ∀ e, e ∈ t.rows ↔ e ∈ l.rows ∧ ¬ (g.IsValid ∧ e.group = g)

namespace Ledger

variable {l t : Ledger} {kind k : ResourceKind} {r : ResourceId} {g f : GroupId} {a : GroupRef}

theorem mem_remove : a ∈ (l.remove kind r).refs k ↔
    a ∈ l.refs k ∧ ¬ (l.table k = l.table kind ∧ a.resource = r) := by
  by_cases htable : l.table k = l.table kind
  · simp [remove, htable]
  · simp [remove, htable]

namespace Removed

variable (h : l.Removed kind r g t)

include h

theorem mem_refs : a ∈ t.refs k ↔
    a ∈ l.refs k ∧ ¬ (l.table k = l.table kind ∧ a.resource = r) := by
  rw [h.refs, mem_remove]

/-- A group that stays gives what it gave. -/
theorem holds_iff (hne : f ≠ g) {x : Right} : t.Holds f x ↔ l.Holds f x := by
  refine exists_congr fun e => ?_
  rw [h.rows]
  constructor
  · rintro ⟨⟨he, -⟩, hf, hx⟩
    exact ⟨he, hf, hx⟩
  · rintro ⟨he, rfl, hx⟩
    exact ⟨⟨he, fun hgone => hne hgone.2⟩, rfl, hx⟩

/-- If no other resource had the group, what is left is consistent if all was. -/
theorem consistent (hc : Consistent l.rows l.refs) (hg : ⟨r, g⟩ ∈ l.refs kind)
    (hown : ∀ k, ∀ a ∈ t.refs k, a.group ≠ g) : Consistent t.rows t.refs where
  valid k a ha := hc.valid k a (h.mem_refs.1 ha).1
  populated k a ha := by
    obtain ⟨e, he, heq⟩ := hc.populated k a (h.mem_refs.1 ha).1
    refine ⟨e, (h.rows e).2 ⟨he, fun hgone => ?_⟩, heq⟩
    exact hown k a ha (heq.symm.trans hgone.2)
  referenced e he := by
    obtain ⟨he, hstays⟩ := (h.rows e).1 he
    obtain ⟨k, a, ha, heq⟩ := hc.referenced e he
    refine ⟨k, a, h.mem_refs.2 ⟨ha, fun hgone => hstays ⟨hc.valid kind _ hg, ?_⟩⟩, heq⟩
    -- the only reference that is gone is that of the resource itself
    have hmem : (⟨r, g⟩ : GroupRef) ∈ l.refs k := l.together k kind hgone.1 ▸ hg
    rw [← heq, l.eq_of_resource_eq ha hmem hgone.2]
  separate k a ha b hb := hc.separate k a (h.mem_refs.1 ha).1 b (h.mem_refs.1 hb).1
  single a ha b hb := hc.single a ((h.rows a).1 ha).1 b ((h.rows b).1 hb).1
  unmixed e he := hc.unmixed e ((h.rows e).1 he).1

end Removed

end Ledger

namespace Removal

variable {w : World} {l : Ledger} {kind : ResourceKind} {r : ResourceId} {g : GroupId}
  {snapshot : List Grant}

/-- If both deletions succeed the resource is gone, and so are the rows of its group unless there
were none to delete. -/
theorem run_deleteBoth (hshows : w.backend.Shows l)
    (hok : (w.run (deleteBoth kind r g snapshot)).1 = some (.ok ())) :
    ∃ t, (w.run (deleteBoth kind r g snapshot)).2.backend.Shows t ∧
      t.refs = (l.remove kind r).refs ∧
      t.rows = if snapshot.isEmpty then l.rows else l.rows.filter fun e => e.group ≠ g := by
  cases hempty : snapshot.isEmpty with
  | true =>
    simp only [deleteBoth, hempty, Bool.not_true, Bool.false_eq_true, if_false] at hok ⊢
    obtain ⟨⟨⟩, t, v, ⟨-, rfl⟩, hv, hrun⟩ := World.run_registry_of_ok hshows hok
      fun v e h => by cases World.eq_of_run_bind_done h
    rw [hrun]
    exact ⟨l.remove kind r, hv, rfl, rfl⟩
  | false =>
    simp only [deleteBoth, hempty, Bool.not_false, if_true] at hok ⊢
    obtain ⟨n, t, v, ⟨-, hrows, rfl⟩, hv, hrun⟩ := World.run_store_of_ok hshows rfl hok
      fun v e h => by cases h
    rw [hrun] at hok ⊢
    obtain ⟨⟨⟩, t, u, ⟨-, rfl⟩, hu, hrun⟩ := World.run_registry_of_ok hv hok
      fun v e h => by cases World.eq_of_run_bind_done h
    rw [hrun]
    exact ⟨_, hu, rfl, rfl⟩

/-- A removal that succeeds leaves the resource and the rows of its group gone, and all else as it
was. -/
theorem run_deleteResource (hshows : w.backend.Shows l) (hg : ⟨r, g⟩ ∈ l.refs kind)
    (hok : (w.run (deleteResource kind r)).1 = some (.ok ())) :
    ∃ t, (w.run (deleteResource kind r)).2.backend.Shows t ∧ l.Removed kind r g t := by
  rw [deleteResource] at hok ⊢
  obtain ⟨f, t, v, ⟨hf, ht⟩, hv, hrun⟩ := World.run_registry_of_ok hshows hok
    fun v e h => by cases h
  rw [ht] at hv
  obtain rfl : g = f := (GroupRef.mk.inj (l.eq_of_resource_eq hg hf rfl)).2
  rw [hrun] at hok ⊢
  dsimp only at hok ⊢
  split at hok
  · next hvalid =>
    rw [if_pos hvalid]
    obtain ⟨rows, t, u, ⟨rfl, ht⟩, hu, hrun⟩ := World.run_store_of_ok hv rfl hok
      fun v e h => by cases h
    rw [ht] at hu
    rw [hrun] at hok ⊢
    obtain ⟨t, ht, hrefs, hrows⟩ := run_deleteBoth hu hok
    refine ⟨t, ht, hrefs, fun e => ?_⟩
    rw [hrows]
    split
    · next hempty =>
      have hnone : ¬ l.Populated g := Ledger.rowsOf_eq_nil_iff.1 (by simpa using hempty)
      exact (and_iff_left_of_imp fun he hgone => hnone ⟨e, he, hgone.2⟩).symm
    · simp [hvalid]
  · next hinvalid =>
    rw [if_neg hinvalid]
    obtain ⟨t, ht, hrefs, hrows⟩ := run_deleteBoth hv hok
    refine ⟨t, ht, hrefs, fun e => ?_⟩
    rw [hrows]
    simp [hinvalid]

/-- **Removing a resource disturbs no other.** If a removal from a consistent store succeeds, and no
other resource had the group of the resource, the store is consistent afterwards, every other
resource has the group that it had, and all decisions on it are as before. -/
theorem consistent_deleteResource (hsound : w.backend.Sound)
    (hc : Consistent w.backend.entries w.backend.refs) (hg : ⟨r, g⟩ ∈ w.backend.refs kind)
    (hown : ∀ k, ¬ w.backend.SameTable k kind → ∀ a ∈ w.backend.refs k, a.group ≠ g)
    (hok : (w.run (deleteResource kind r)).1 = some (.ok ())) :
    Consistent (w.run (deleteResource kind r)).2.backend.entries
        (w.run (deleteResource kind r)).2.backend.refs ∧
      ∀ k r' f, ⟨r', f⟩ ∈ w.backend.refs k → ¬ (w.backend.SameTable k kind ∧ r' = r) →
        ⟨r', f⟩ ∈ (w.run (deleteResource kind r)).2.backend.refs k ∧
          ∀ user units mask, ∃ admitted, w.decision user units f mask = some (.ok admitted) ∧
            (w.run (deleteResource kind r)).2.decision user units f mask =
              some (.ok admitted) := by
  obtain ⟨l, hshows, -⟩ := hsound.exists_shows
  simp only [hshows.refs_eq, hshows.sameTable_iff] at hg hown ⊢
  rw [hshows.consistent_iff] at hc
  obtain ⟨t, ht, hremoved⟩ := run_deleteResource hshows hg hok
  have hfree : ∀ k, ∀ a ∈ t.refs k, a.group ≠ g := by
    intro k a ha heq
    obtain ⟨ha, hstays⟩ := hremoved.mem_refs.1 ha
    by_cases htable : l.table k = l.table kind
    · -- within a table the references are pairwise different
      rw [l.together k kind htable] at ha
      have hsame := hc.separate kind a ha _ hg heq
      exact hstays ⟨htable, congrArg GroupRef.resource hsame⟩
    · exact hown k htable a ha heq
  refine ⟨(ht.consistent_iff).2 (hremoved.consistent hc hg hfree), fun k r' f hf hother => ?_⟩
  have hf' : ⟨r', f⟩ ∈ t.refs k := hremoved.mem_refs.2 ⟨hf, hother⟩
  rw [ht.refs_eq]
  exact ⟨hf', fun user units mask => World.decision_congr hshows ht fun x =>
    hremoved.holds_iff (hfree k _ hf')⟩

/-- Resources of two kinds have one group together. -/
def paired : World where
  backend := .memory
    { entries := .ofRows [⟨⟨⟨5⟩, some ⟨1⟩, none, Privilege.read.mask⟩, ⟨1⟩⟩], nextEntry := 2 }
    { refs := fun
        | .page => .ofRows [⟨⟨1⟩, ⟨5⟩⟩]
        | .form => .ofRows [⟨⟨1⟩, ⟨5⟩⟩]
        | _ => .empty }

/-- Resources of two kinds have groups of their own. -/
def parted : World where
  backend := .memory
    { entries := .ofRows [
        ⟨⟨⟨5⟩, some ⟨1⟩, none, Privilege.read.mask⟩, ⟨1⟩⟩,
        ⟨⟨⟨6⟩, some ⟨1⟩, none, Privilege.read.mask⟩, ⟨2⟩⟩]
      nextEntry := 3 }
    { refs := fun
        | .page => .ofRows [⟨⟨1⟩, ⟨5⟩⟩]
        | .form => .ofRows [⟨⟨1⟩, ⟨6⟩⟩]
        | _ => .empty }

theorem consistent_deleteResource_parted :
    Consistent (parted.run (deleteResource .page ⟨1⟩)).2.backend.entries
        (parted.run (deleteResource .page ⟨1⟩)).2.backend.refs ∧
      (parted.run (deleteResource .page ⟨1⟩)).2.decision ⟨1⟩ [] ⟨6⟩ Privilege.read.mask =
        some (.ok true) := by
  have hsound : parted.backend.Sound := ⟨by decide +kernel, by decide +kernel⟩
  have hg : ⟨⟨1⟩, ⟨5⟩⟩ ∈ parted.backend.refs .page := by decide +kernel
  have hown : ∀ k, k ≠ .page → ∀ a ∈ parted.backend.refs k, a.group ≠ ⟨5⟩ := by decide +kernel
  obtain ⟨hconsistent, hothers⟩ :=
    consistent_deleteResource hsound (by decide +kernel) hg hown rfl
  obtain ⟨-, hdecisions⟩ :=
    hothers .form ⟨1⟩ ⟨6⟩ (by decide +kernel) fun h => ResourceKind.noConfusion h.1
  obtain ⟨admitted, hbefore, hafter⟩ := hdecisions ⟨1⟩ [] Privilege.read.mask
  have htrue : parted.decision ⟨1⟩ [] ⟨6⟩ Privilege.read.mask = some (.ok true) := rfl
  cases htrue.symm.trans hbefore
  exact ⟨hconsistent, hafter⟩

/-- If a resource of another kind has the group as well, it loses its rows. -/
theorem not_consistent_deleteResource_paired :
    paired.backend.Sound ∧ Consistent paired.backend.entries paired.backend.refs ∧
      (paired.run (deleteResource .page ⟨1⟩)).1 = some (.ok ()) ∧
      ¬ Consistent (paired.run (deleteResource .page ⟨1⟩)).2.backend.entries
        (paired.run (deleteResource .page ⟨1⟩)).2.backend.refs ∧
      ⟨⟨1⟩, ⟨5⟩⟩ ∈ (paired.run (deleteResource .page ⟨1⟩)).2.backend.refs .form ∧
      paired.decision ⟨1⟩ [] ⟨5⟩ Privilege.read.mask = some (.ok true) ∧
      (paired.run (deleteResource .page ⟨1⟩)).2.decision ⟨1⟩ [] ⟨5⟩ Privilege.read.mask =
        some (.ok false) :=
  ⟨⟨by decide +kernel, by decide +kernel⟩, by decide +kernel, rfl, by decide +kernel,
    by decide +kernel, rfl, rfl⟩

end Removal

end AccessGroups
