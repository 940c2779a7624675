import AccessGroups.Proofs.Sweep.Split

/-!
# A sweep under way

While a sweep moves resources and makes up rows, the groups that its scan saw keep their rows, and
the groups that are new cannot be taken for those that the scan saw. If the view of the references
is complete, that is if the scan could list every kind and every kind has a table of its own, the
groups also keep their references. If in addition nothing disturbs the sweep every group is
accounted for: it is right, or some phase will see to it.

## Main definitions

* `Sweep.Underway`: what the scan saw is still there.
* `Sweep.Tended`: every group is right or will be seen to.

## Main results

* `Scan.Reads.mem_referenced_iff`, `Scan.Reads.mem_orphans_iff`: what a complete scan found.
* `Scan.Reads.underway`, `Scan.Reads.tended`: the ledger after the scan.
* `Ledger.loose_assign`, `Ledger.refers_assign`: a loose resource with a fresh group.
-/

namespace AccessGroups

namespace Ledger

variable {l : Ledger} {k k' : ResourceKind} {r r' : ResourceId} {f g : GroupId}

/-- The group of a loose resource is not valid, or some other resource of the kind keeps it. -/
theorem Loose.group_of_mem (h : l.Loose k r) (hg : ⟨r, g⟩ ∈ l.refs k) :
    ¬ g.IsValid ∨ ∃ b ∈ l.refs k, b.resource < r ∧ b.group = g := by
  obtain ⟨g', hg', hloose⟩ := h
  have heq := l.eq_of_resource_eq hg hg' rfl
  cases heq
  exact hloose

/-- When a loose resource gets another group, every valid group is referred to that was before, if
every kind has a table of its own. -/
theorem refers_assign (hsep : l.Separate) (hloose : l.Loose k r) (hvalid : g.IsValid)
    (h : l.Refers g) : (l.assign k ⟨r, f⟩).Refers g := by
  obtain ⟨k', a, ha, rfl⟩ := h
  by_cases hmoved : k' = k ∧ a.resource = r
  · obtain ⟨rfl, rfl⟩ := hmoved
    rcases hloose.group_of_mem ha with hinvalid | ⟨b, hb, hlt, hbg⟩
    · exact (hinvalid hvalid).elim
    · refine ⟨k', b, mem_assign_of_ne hb fun _ heq => ?_, hbg⟩
      exact Identifier.lt_irrefl _ (heq ▸ hlt)
  · exact ⟨k', a, mem_assign_of_ne ha fun hk hr => hmoved ⟨hsep _ _ hk, hr⟩, rfl⟩

theorem refers_of_assign (h : (l.assign k ⟨r, f⟩).Refers g) : g = f ∨ l.Refers g := by
  obtain ⟨k', a, ha, rfl⟩ := h
  rcases mem_assign.1 ha with ⟨ha, -⟩ | ⟨-, rfl, -⟩
  · exact .inr ⟨k', a, ha, rfl⟩
  · exact .inl rfl

/-- When a loose resource gets a fresh group it is not loose any more, and the others are loose that
were before, if every kind has a table of its own. -/
theorem loose_assign (hsep : l.Separate) (hloose : l.Loose k r) (hvalid : f.IsValid)
    (hfresh : ¬ l.Refers f) :
    (l.assign k ⟨r, f⟩).Loose k' r' ↔ l.Loose k' r' ∧ ¬ (k' = k ∧ r' = r) := by
  constructor
  · rintro ⟨g, hg, hrest⟩
    rcases (mem_assign_of_separate hsep).1 hg with ⟨hg, hne⟩ | ⟨rfl, heq, -⟩
    · refine ⟨⟨g, hg, hrest.imp_right ?_⟩, hne⟩
      rintro ⟨b, hb, hlt, hbg⟩
      rcases (mem_assign_of_separate hsep).1 hb with ⟨hb, -⟩ | ⟨-, rfl, -⟩
      · exact ⟨b, hb, hlt, hbg⟩
      · exact (hfresh ⟨k', _, hg, hbg.symm⟩).elim
    · obtain ⟨rfl, rfl⟩ := GroupRef.mk.inj heq
      rcases hrest with hinvalid | ⟨b, hb, hlt, hbg⟩
      · exact (hinvalid hvalid).elim
      · rcases (mem_assign_of_separate hsep).1 hb with ⟨hb, -⟩ | ⟨-, rfl, -⟩
        · exact (hfresh ⟨_, b, hb, hbg⟩).elim
        · exact (Identifier.lt_irrefl _ hlt).elim
  · rintro ⟨⟨g, hg, hrest⟩, hne⟩
    refine ⟨g, mem_assign_of_ne hg fun hk hr => hne ⟨hsep _ _ hk, hr⟩, ?_⟩
    rcases hrest with hinvalid | ⟨b, hb, hlt, hbg⟩
    · exact .inl hinvalid
    · by_cases hmoved : k' = k ∧ b.resource = r
      · -- the earlier resource moves, but then its group is invalid or has a still earlier one
        obtain ⟨rfl, rfl⟩ := hmoved
        rcases hloose.group_of_mem hb with hinvalid | ⟨c, hc, hclt, hcg⟩
        · exact .inl (hbg ▸ hinvalid)
        · refine .inr ⟨c, mem_assign_of_ne hc fun _ heq => ?_, Identifier.lt_trans hclt hlt,
            hcg.trans hbg⟩
          exact Identifier.lt_irrefl _ (heq ▸ hclt)
      · exact .inr ⟨b, mem_assign_of_ne hb fun hk hr => hmoved ⟨hsep _ _ hk, hr⟩, hlt, hbg⟩

end Ledger

namespace Sweep

variable {view : View} {s : Scan} {l t : Ledger}

/-- The groups that the scan saw keep their rows, and their references if the sweep has a complete
view. A group that is referred to was seen by the scan, unless it is new and had no rows. -/
structure Underway (view : View) (s : Scan) (l : Ledger) : Prop where
  seen : ∀ g, view.seen g → g ∈ s.referenced
  valid : ∀ g ∈ s.referenced, g.IsValid
  stored : ∀ g ∈ s.stored, l.Populated g
  kept : view.complete → ∀ g ∈ s.referenced, l.Refers g
  origin : s.listingFailed = false → ∀ g, g.IsValid → l.Refers g →
    g ∈ s.referenced ∨ (g.val.toInt < l.nextGroup ∧ g ∉ s.stored)

/-- Every valid group that is referred to has rows or is among the missing ones, and every group
with rows is valid and referred to or is among the orphans. -/
structure Tended (missing orphans : List GroupId) (l : Ledger) : Prop where
  covered : ∀ g, g.IsValid → l.Refers g → l.Populated g ∨ g ∈ missing
  accounted : ∀ g, l.Populated g → g ∈ orphans ∨ (g.IsValid ∧ l.Refers g)

/-- With the same references, no fewer groups with rows and no fewer group identifiers handed out,
the sweep is still under way. -/
theorem Underway.of_refs_eq (h : Underway view s l) (hrefs : t.refs = l.refs)
    (hnext : l.nextGroup ≤ t.nextGroup) (hrows : ∀ g, l.Populated g → t.Populated g) :
    Underway view s t := by
  have hiff : ∀ g, t.Refers g ↔ l.Refers g := fun g => by simp only [Ledger.Refers, hrefs]
  refine ⟨h.seen, h.valid, fun g hg => hrows g (h.stored g hg),
    fun hc g hg => (hiff g).2 (h.kept hc g hg), fun hc g hv hg => ?_⟩
  refine (h.origin hc g hv ((hiff g).1 hg)).imp_right fun hnew => ⟨?_, hnew.2⟩
  have := hnew.1
  omega

theorem Tended.of_sameGroups {missing orphans : List GroupId} (h : Tended missing orphans l)
    (hsame : l.SameGroups t) : Tended missing orphans t := by
  have hiff : ∀ g, t.Refers g ↔ l.Refers g := fun g => by simp only [Ledger.Refers, hsame.refs]
  refine ⟨fun g hv hg => ?_, fun g hg => ?_⟩
  · rw [hsame.populated g]
    exact h.covered g hv ((hiff g).1 hg)
  · rw [hiff g]
    exact h.accounted g ((hsame.populated g).1 hg)

end Sweep

namespace Scan.Reads

variable {s : Scan} {l : Ledger}

theorem mem_referenced_iff (h : s.Reads l []) (hc : s.listingFailed = false) (g : GroupId) :
    g ∈ s.referenced ↔ g.IsValid ∧ l.Refers g :=
  ⟨fun hg => ⟨h.valid g hg, h.refers g hg⟩, fun ⟨hv, k, a, ha, heq⟩ =>
    heq ▸ h.referenced hc k List.not_mem_nil a ha (heq ▸ hv)⟩

/-- The orphans are the groups with rows that are not valid or not referred to. -/
theorem mem_orphans_iff (h : s.Reads l []) (hc : s.listingFailed = false) (g : GroupId) :
    g ∈ s.orphans ↔ l.Populated g ∧ ¬ (g.IsValid ∧ l.Refers g) := by
  rw [orphans, hc, ← h.stored g, ← h.mem_referenced_iff hc g]
  simp

theorem underway {view : Sweep.View} (h : s.Reads l [])
    (hseen : ∀ g, view.seen g → g ∈ s.referenced) : Sweep.Underway view s l where
  seen := hseen
  valid := h.valid
  stored g hg := (h.stored g).1 hg
  kept _ := h.refers
  origin hc g hv hg := .inl ((h.mem_referenced_iff hc g).2 ⟨hv, hg⟩)

theorem tended (h : s.Reads l []) (hc : s.listingFailed = false) :
    Sweep.Tended s.missing s.orphans l where
  covered g hv hg := by
    have hmem := (h.mem_referenced_iff hc g).2 ⟨hv, hg⟩
    by_cases hstored : g ∈ s.stored
    · exact .inl ((h.stored g).1 hstored)
    · exact .inr ((h.missing g).2 ⟨hmem, hstored⟩)
  accounted g hg := by
    by_cases hright : g.IsValid ∧ l.Refers g
    · exact .inr hright
    · exact .inl ((h.mem_orphans_iff hc g).2 ⟨hg, hright⟩)

end Scan.Reads

end AccessGroups
