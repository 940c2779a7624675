import AccessGroups.Proofs.Sweep.Consistency
import AccessGroups.Proofs.Sweep.Placed

/-!
# How sharing is resolved

Of the resources of a kind that share a group, the first one in the order of the listing keeps it.
Each of the others gets a group of its own, and so does a resource whose group is not valid. Copies
are made in the middle of a sweep, from rows that an earlier phase has split and of which a later
one deletes some. Nevertheless the rows of the groups agree in the end, as no change of a sweep
affects what a resource comes to give.

## Main definitions

* `Sweep.rightsIn`: what the rows of a group are, but for the group and their identifiers.
* `Sweep.FreshFor`: a group that is new and belongs to one resource.
* `Sweep.Unshared`: sharing has been resolved.
* `Sweep.crowded`: a world in which groups are shared within kinds and across them.

## Main results

* `Sweep.Restored.unshared`: a sweep that nothing disturbs resolves sharing in a ledger.
* `Sweep.unshared_runOnce`: it does so in a store.
-/

namespace AccessGroups.Sweep

/-- What the rows of a group are, but for the group and their identifiers, in their order. -/
def rightsIn (rows : List Entry) (g : GroupId) : List Right :=
  (rows.filter fun e => e.group = g).map fun e => e.right

/-- The resource has a valid group that it does not share with any resource of any kind. Before,
the group had no row, and nothing referred to it. -/
structure FreshFor (rows : List Entry) (refs refs' : ResourceKind → List GroupRef)
    (kind : ResourceKind) (r : ResourceId) (f : GroupId) : Prop where
  valid : f.IsValid
  given : ⟨r, f⟩ ∈ refs' kind
  alone : ∀ k, ∀ a ∈ refs' k, a.group = f → k = kind ∧ a.resource = r
  vacant : ∀ e ∈ rows, e.group ≠ f
  unreferred : ∀ k, ∀ a ∈ refs k, a.group ≠ f

/-- Of the resources of a kind with a valid group the first has kept it, and each of the others has
a fresh one with the same rows. If there were no rows, there is the one made up for the operator, as
in the fresh group of a resource whose group was not valid. -/
structure Unshared (operator : UserId) (rows rows' : List Entry)
    (refs refs' : ResourceKind → List GroupRef) : Prop where
  resources : ∀ k, (refs' k).map GroupRef.resource = (refs k).map GroupRef.resource
  separate : ∀ k, ((refs' k).map GroupRef.group).Nodup
  shared : ∀ k g first rest, g.IsValid →
    ((refs k).filter fun a => a.group = g) = first :: rest →
      first ∈ refs' k ∧ ∀ a ∈ rest, ∃ f, FreshFor rows refs refs' k a.resource f ∧ f ≠ g ∧
        (rightsIn rows' f).Perm (rightsIn rows' g)
  missing : ∀ k, ∀ a ∈ refs k, a.group.IsValid → (∀ e ∈ rows, e.group ≠ a.group) →
    ∃ f, ⟨a.resource, f⟩ ∈ refs' k ∧ rightsIn rows' f = [⟨some operator, none, .full⟩]
  unassigned : ∀ k, ∀ a ∈ refs k, ¬ a.group.IsValid →
    ∃ f, FreshFor rows refs refs' k a.resource f ∧
      rightsIn rows' f = [⟨some operator, none, .full⟩]

variable {operator : UserId} {l t : Ledger} {k : ResourceKind} {r : ResourceId} {f g : GroupId}
  {x : Right} {s : Summary}

theorem mem_rightsIn {rows : List Entry} :
    x ∈ rightsIn rows g ↔ ∃ e ∈ rows, e.group = g ∧ e.right = x := by
  simp [rightsIn, and_assoc]

/-- In a consistent ledger a group does not give a right twice. -/
theorem nodup_rightsIn (h : Consistent t.rows t.refs) (g : GroupId) :
    (rightsIn t.rows g).Nodup := by
  refine List.pairwise_map.2 ((t.ascending.filter _).imp_of_mem fun {a b} ha hb hlt heq => ?_)
  obtain ⟨ha, hga⟩ := List.mem_filter.1 ha
  obtain ⟨hb, hgb⟩ := List.mem_filter.1 hb
  have hgroup : a.group = b.group := (of_decide_eq_true hga).trans (of_decide_eq_true hgb).symm
  obtain rfl := h.single a ha b hb (Grant.eq_of_right_eq hgroup heq)
  exact Identifier.lt_irrefl _ hlt

/-- The resources are the same, in the same order. -/
theorem Placed.resources_eq (h : Placed l t) (k : ResourceKind) :
    (t.refs k).map GroupRef.resource = (l.refs k).map GroupRef.resource := by
  refine Identifier.eq_of_ascending_of_mem_iff (List.pairwise_map.2 (t.ordered k))
    (List.pairwise_map.2 (l.ordered k)) fun r => ⟨fun hr => ?_, fun hr => ?_⟩
  · obtain ⟨⟨r, f⟩, hf, rfl⟩ := List.mem_map.1 hr
    obtain ⟨g, hg⟩ := h.resources k r f hf
    exact List.mem_map.2 ⟨_, hg, rfl⟩
  · obtain ⟨⟨r, g⟩, hg, rfl⟩ := List.mem_map.1 hr
    obtain ⟨f, hf, -⟩ := h.placed k r g hg
    exact List.mem_map.2 ⟨_, hf, rfl⟩

/-! ### A sweep that nothing disturbs -/

namespace Restored

/-- A resource gives at the end what it was to come to give. -/
theorem mem_rightsIn (h : Restored operator l s t) (hg : ⟨r, g⟩ ∈ l.refs k)
    (hf : ⟨r, f⟩ ∈ t.refs k) : x ∈ rightsIn t.rows f ↔ l.Outcome operator g x := by
  obtain ⟨f', hf', houtcome, -⟩ := h.moves.outcome hg (.inl trivial)
  obtain rfl : f' = f := (GroupRef.mk.inj (t.eq_of_resource_eq hf' hf rfl)).2
  rw [Sweep.mem_rightsIn, ← outcome_of_consistent h.consistent hf, houtcome]

/-- A resource whose group is not valid or has no rows ends with the row made up for the
operator. -/
theorem rightsIn_eq (h : Restored operator l s t) (hg : ⟨r, g⟩ ∈ l.refs k)
    (hf : ⟨r, f⟩ ∈ t.refs k) (hlost : ¬ (g.IsValid ∧ l.Populated g)) :
    rightsIn t.rows f = [⟨some operator, none, .full⟩] := by
  refine List.perm_singleton.1 ((List.perm_ext_iff_of_nodup (nodup_rightsIn h.consistent f)
    (List.pairwise_singleton _ _)).2 fun x => ?_)
  rw [h.mem_rightsIn hg hf, Ledger.outcome_of_lost hlost, List.mem_singleton]

/-- A loose resource ends with a fresh group. -/
theorem freshFor (h : Restored operator l s t) (hloose : l.Loose k r) :
    ∃ f, FreshFor l.rows l.refs t.refs k r f := by
  have hplaced := h.moves.placed trivial
  obtain ⟨g, hg, -⟩ := id hloose
  obtain ⟨f, hf, rfl | ⟨-, hvalid, -, howns, hnew⟩⟩ := hplaced.placed k r g hg
  · exact ((hplaced.settled_iff h.consistent hg).1 hf hloose).elim
  · have hvacant : ¬ l.Populated f := (h.fresh f hvalid ⟨k, _, hf, rfl⟩).resolve_left hnew
    refine ⟨f, hvalid, hf, ?_, fun e he heq => hvacant ⟨e, he, heq⟩,
      fun k' a ha heq => hnew ⟨k', a, ha, heq⟩⟩
    rintro k' ⟨r', _⟩ ha rfl
    exact howns k' r' ha

/-- The resources of a kind with a valid group: the first one keeps it, the others end with fresh
groups that have the same rows. -/
theorem of_filter_eq {first : GroupRef} {rest : List GroupRef} (h : Restored operator l s t)
    (hvalid : g.IsValid) (hsplit : ((l.refs k).filter fun a => a.group = g) = first :: rest) :
    first ∈ t.refs k ∧ ∀ a ∈ rest, ∃ f, FreshFor l.rows l.refs t.refs k a.resource f ∧ f ≠ g ∧
      (rightsIn t.rows f).Perm (rightsIn t.rows g) := by
  have hplaced := h.moves.placed trivial
  have hmem : ∀ a, a ∈ first :: rest ↔ a ∈ l.refs k ∧ a.group = g := by
    intro a
    rw [← hsplit, List.mem_filter, decide_eq_true_iff]
  have hordered : (first :: rest).Pairwise fun a b => a.resource < b.resource :=
    hsplit ▸ (l.ordered k).filter _
  have hbefore := (List.pairwise_cons.1 hordered).1
  obtain ⟨hfirst, rfl⟩ := (hmem first).1 List.mem_cons_self
  have hkept : first ∈ t.refs k := by
    refine hplaced.mem_of_not_loose hfirst fun hloose => ?_
    rcases hloose.group_of_mem hfirst with hinvalid | ⟨b, hb, hlt, hgroup⟩
    · exact hinvalid hvalid
    · rcases List.mem_cons.1 ((hmem b).2 ⟨hb, hgroup⟩) with rfl | hb
      · exact Identifier.lt_irrefl _ hlt
      · exact Identifier.lt_irrefl _ (Identifier.lt_trans hlt (hbefore b hb))
  refine ⟨hkept, fun a ha => ?_⟩
  obtain ⟨ha', hgroup⟩ := (hmem a).1 (List.mem_cons_of_mem _ ha)
  obtain ⟨f, hf⟩ := h.freshFor ⟨a.group, ha', .inr ⟨first, hfirst, hbefore a ha, hgroup.symm⟩⟩
  refine ⟨f, hf, (hf.unreferred k first hfirst).symm, (List.perm_ext_iff_of_nodup
    (nodup_rightsIn h.consistent f) (nodup_rightsIn h.consistent first.group)).2 fun x => ?_⟩
  rw [h.mem_rightsIn ha' hf.given, h.mem_rightsIn hfirst hkept, hgroup]

/-- A sweep that nothing disturbs resolves sharing in a ledger. -/
theorem unshared (h : Restored operator l s t) :
    Unshared operator l.rows t.rows l.refs t.refs := by
  have hplaced := h.moves.placed trivial
  refine ⟨hplaced.resources_eq, fun k => ?_, fun k g first rest => h.of_filter_eq,
    fun k a ha _ hrows => ?_, fun k a ha hinvalid => ?_⟩
  · refine List.pairwise_map.2 ((t.ordered k).imp_of_mem fun {a b} ha hb hlt heq => ?_)
    obtain rfl := h.consistent.separate k a ha b hb heq
    exact Identifier.lt_irrefl _ hlt
  · obtain ⟨f, hf, -⟩ := hplaced.placed k a.resource a.group ha
    refine ⟨f, hf, h.rightsIn_eq ha hf ?_⟩
    rintro ⟨-, e, he, hgroup⟩
    exact hrows e he hgroup
  · obtain ⟨f, hf⟩ := h.freshFor ⟨a.group, ha, .inl hinvalid⟩
    exact ⟨f, hf, h.rightsIn_eq ha hf.given fun hlive => hinvalid hlive.1⟩

end Restored

/-! ### Every store -/

/-- **Sharing is resolved exactly.** Let every kind of resource have a table of its own. If nothing
disturbs it, a sweep in a sound store is completed, and of the resources of a kind with a valid
group the first in the listing has kept it, while each of the others has a fresh group with the same
rows. The groups without rows have the one made up for the operator, and so have the fresh groups of
resources without a valid one. -/
theorem unshared_runOnce (operator : UserId) {w : World} (hsound : w.backend.Sound)
    (hseparate : w.backend.Separate) (hfree : w.running = false) (hgo : w.cancelled = false)
    (h : (w.watch {} (runOnce operator)).2.Undisturbed) :
    ∃ r, (w.run (runOnce operator)).1 = some (.ok (.completed r)) ∧
      Unshared operator w.backend.entries (w.run (runOnce operator)).2.backend.entries
        w.backend.refs (w.run (runOnce operator)).2.backend.refs := by
  obtain ⟨l, hshows, -⟩ := hsound.exists_shows
  obtain ⟨r, b, hresult, hfollows, hrestored, -⟩ :=
    watch_runOnce operator hshows (hshows.separate hseparate) hfree hgo h
  rw [World.watch_calm]
  refine ⟨r, hresult, ?_⟩
  rw [hshows.entries_eq, funext hshows.refs_eq, hfollows.shows.entries_eq,
    funext hfollows.shows.refs_eq]
  exact hrestored.unshared

/-- A world in which three pages and two files have the group 5, whose rows repeat one another or
have two principals, two forms have the group 8 without rows, and one page has no valid group. -/
def crowded : World where
  backend := .memory
    { entries := .ofRows [
        ⟨⟨⟨5⟩, some ⟨1⟩, some ⟨2⟩, .full⟩, ⟨1⟩⟩,
        ⟨⟨⟨5⟩, some ⟨1⟩, none, Privilege.read.mask⟩, ⟨2⟩⟩,
        ⟨⟨⟨5⟩, some ⟨1⟩, none, Privilege.read.mask⟩, ⟨3⟩⟩]
      nextEntry := 4 }
    { refs := fun
        | .page => .ofRows [⟨⟨1⟩, ⟨5⟩⟩, ⟨⟨2⟩, ⟨5⟩⟩, ⟨⟨3⟩, ⟨5⟩⟩, ⟨⟨4⟩, ⟨0⟩⟩]
        | .form => .ofRows [⟨⟨1⟩, ⟨8⟩⟩, ⟨⟨2⟩, ⟨8⟩⟩]
        | .file => .ofRows [⟨⟨1⟩, ⟨5⟩⟩, ⟨⟨2⟩, ⟨5⟩⟩]
        | _ => .empty }

theorem unshared_runOnce_crowded :
    Unshared ⟨7⟩ crowded.backend.entries (crowded.run (runOnce ⟨7⟩)).2.backend.entries
      crowded.backend.refs (crowded.run (runOnce ⟨7⟩)).2.backend.refs := by
  have hsound : crowded.backend.Sound := ⟨by decide +kernel, by decide +kernel⟩
  obtain ⟨r, -, hunshared⟩ := unshared_runOnce ⟨7⟩ hsound trivial rfl rfl
    ⟨by decide +kernel, by decide +kernel⟩
  exact hunshared

end AccessGroups.Sweep
