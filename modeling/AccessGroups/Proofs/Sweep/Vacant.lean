import AccessGroups.Proofs.Sweep.Access

/-!
# Sweeps let nobody into resources without rows

A resource whose group has no rows lets nobody in. A sweep makes up rows for it, or moves it to a
group with such rows, and these let in the operator only. This fails only if the group is handed out
as a fresh one to the sweep, which then fills it with the rows of another resource. So it does not
fail if the scan saw the group: the sweep passes over identifiers that it saw.

## Main definitions

* `Sweep.Shut`: a group that lets in the operator at most, and stays so.
* `Sweep.dangling`: a world in which a resource has a group without rows, whose identifier is the
  next to be handed out.

## Main results

* `Sweep.Moves.shut`: the moves of a sweep keep a resource shut.
* `Sweep.decision_runOnce_vacant`: the decisions before and after a sweep.
-/

namespace AccessGroups

namespace Sweep

variable {operator : UserId} {view : View} {l t : Ledger} {k : ResourceKind} {r : ResourceId}
  {e : Entry} {f g : GroupId} {issued : List GroupId}

/-- The rows of the group are those that a sweep makes up. If it has none it is not filled with
others, as the sweep saw it or does not get it among these identifiers. -/
structure Shut (operator : UserId) (view : View) (issued : List GroupId) (l : Ledger)
    (g : GroupId) : Prop where
  valid : g.IsValid
  rows : ∀ e ∈ l.rows, e.group = g → e.toGrant = fallback operator g
  kept : l.Populated g ∨ view.seen g ∨ g ∉ issued

/-- A row that a sweep makes up has one principal. -/
theorem Shut.unmixed (h : Shut operator view issued l g) (he : e ∈ l.rows) (hg : e.group = g) :
    e.isMixed = false := by
  rw [h.rows e he hg]
  rfl

/-- Rows of a shut group stay so when rows are taken away, if one is left or there was none. -/
theorem Shut.of_subset (h : Shut operator view issued l g)
    (hrows : ∀ e ∈ t.rows, e.group = g → e ∈ l.rows) (hkept : l.Populated g → t.Populated g) :
    Shut operator view issued t g :=
  ⟨h.valid, fun e he hg => h.rows e (hrows e he hg) hg, h.kept.imp_left hkept⟩

/-- New rows in other groups leave a group shut, and so do rows that the sweep makes up. -/
theorem Shut.append {v : List Entry} {hrows} (h : Shut operator view issued l g)
    (hv : ∀ e ∈ v, e.group = g → e.toGrant = fallback operator g) :
    Shut operator view issued (l.withRows (l.rows ++ v) hrows) g := by
  refine ⟨h.valid, fun e he hg => ?_, h.kept.imp_left ?_⟩
  · rcases List.mem_append.1 he with he | he
    · exact h.rows e he hg
    · exact hv e he hg
  · rintro ⟨e, he, hg⟩
    exact ⟨e, List.mem_append_left _ he, hg⟩

/-- A group that the rows of a shut one were copied to is shut. -/
theorem Shut.copied (h : Shut operator view issued l g) (hvalid : f.IsValid)
    (hcopy : (l.rowsOf f).map Entry.toGrant = copies operator (sourceRows l g) f) :
    Shut operator view issued l f := by
  have hcopies : ∀ x ∈ copies operator (sourceRows l g) f, x = fallback operator f := by
    intro x hx
    rw [copies, sourceRows, if_pos h.valid] at hx
    split at hx
    · exact List.mem_singleton.1 hx
    · obtain ⟨e, he, rfl⟩ := List.mem_map.1 hx
      obtain ⟨he, hg⟩ := Ledger.mem_rowsOf.1 he
      rw [h.rows e he hg]
      rfl
  refine ⟨hvalid, fun e he hf => hcopies _ ?_, .inl ?_⟩
  · rw [← hcopy]
    exact List.mem_map_of_mem (Ledger.mem_rowsOf.2 ⟨he, hf⟩)
  · by_contra hnone
    rw [Ledger.rowsOf_eq_nil_iff.2 hnone] at hcopy
    exact copies_ne_nil hcopy.symm

/-- A group identifier that was handed out stays so. -/
theorem Move.issued_subset (h : Move operator view l t) : l.issued ⊆ t.issued := by
  cases h with
  | issue => exact List.subset_append_left _ _
  | _ => exact List.Subset.refl _

/-- A move leaves a resource with a shut group, if no more identifiers are handed out than those
that the group is known not to be among. -/
theorem Move.shut (h : Move operator view l t) (hissued : t.issued ⊆ issued)
    (hg : ⟨r, g⟩ ∈ l.refs k) (hshut : Shut operator view issued l g) :
    ∃ f, ⟨r, f⟩ ∈ t.refs k ∧ Shut operator view issued t f := by
  cases h with
  | @lend e v _ he hmixed hv =>
    refine ⟨g, hg, hshut.append fun x hx hxg => ?_⟩
    obtain rfl := List.mem_singleton.1 hx
    rw [hv] at hxg
    rw [hshut.unmixed he hxg] at hmixed
    cases hmixed
  | @clear e v _ he hmixed hv hhalf =>
    have hother : e.group ≠ g := by
      intro heq
      rw [hshut.unmixed he heq] at hmixed
      cases hmixed
    refine ⟨g, hg, hshut.of_subset (fun x hx hxg => ?_) ?_⟩
    · rcases Ledger.mem_updated.1 hx with ⟨hx, -⟩ | ⟨rfl, -⟩
      · exact hx
      · exact (hother hxg).elim
    · rintro ⟨x, hx, hxg⟩
      refine ⟨x, Ledger.mem_updated.2 (.inl ⟨hx, fun heq => ?_⟩), hxg⟩
      rw [l.eq_of_id_eq hx he heq] at hxg
      exact hother hxg
  | issue => exact ⟨g, hg, hshut.of_subset (fun x hx _ => hx) id⟩
  | @fill f v _ hvalid hgiven hrows hseen hrefs hv =>
    have hne : g ≠ f := by
      rintro rfl
      rcases hshut.kept with hlive | hsaw | hnot
      · exact hrows hlive
      · exact hseen hsaw
      · exact hnot (hissued hgiven)
    refine ⟨g, hg, hshut.append fun x hx hxg => ?_⟩
    exact (hne (hxg.symm.trans (hv x hx).1)).elim
  | @point k' r' g' f hg' hvalid hgiven hrefs hcopy =>
    by_cases hmoved : l.table k = l.table k' ∧ r = r'
    · obtain ⟨htable, rfl⟩ := hmoved
      rw [← l.together k k' htable] at hg'
      obtain rfl : g = g' := (GroupRef.mk.inj (l.eq_of_resource_eq hg hg' rfl)).2
      have hf := hshut.copied hvalid hcopy
      exact ⟨f, Ledger.mem_assign.2 (.inr ⟨htable, rfl, _, hg, rfl⟩),
        hf.of_subset (fun x hx _ => hx) id⟩
    · exact ⟨g, Ledger.mem_assign_of_ne hg fun hk hr => hmoved ⟨hk, hr⟩,
        hshut.of_subset (fun x hx _ => hx) id⟩
  | @create g' v _ hvalid hrows hv =>
    refine ⟨g, hg, hshut.append fun x hx hxg => ?_⟩
    obtain rfl := List.mem_singleton.1 hx
    rw [hv] at hxg ⊢
    rw [← hxg]
    rfl
  | @drop g' _ hdrop =>
    have hne : g ≠ g' := by
      rintro rfl
      exact hdrop ⟨hshut.valid, k, _, hg, rfl⟩
    refine ⟨g, hg, hshut.of_subset (fun x hx _ => (List.mem_filter.1 hx).1) ?_⟩
    rintro ⟨x, hx, rfl⟩
    exact ⟨x, List.mem_filter.2 ⟨hx, by simpa using hne⟩, rfl⟩
  | @erase e v _ he hv hne hsame =>
    refine ⟨g, hg, hshut.of_subset (fun x hx _ => (List.mem_filter.1 hx).1) ?_⟩
    rintro ⟨x, hx, rfl⟩
    by_cases hxe : x.id = e.id
    · refine ⟨v, List.mem_filter.2 ⟨hv, by simpa using hne⟩, ?_⟩
      rw [hsame, l.eq_of_id_eq hx he hxe]
    · exact ⟨x, List.mem_filter.2 ⟨hx, by simpa using hxe⟩, rfl⟩

/-- The moves of a sweep leave a resource with a shut group. -/
theorem Moves.shut (h : Moves operator view l t) (hissued : t.issued ⊆ issued)
    (hg : ⟨r, g⟩ ∈ l.refs k) (hshut : Shut operator view issued l g) :
    ∃ f, ⟨r, f⟩ ∈ t.refs k ∧ Shut operator view issued t f := by
  induction h with
  | refl => exact ⟨g, hg, hshut⟩
  | tail _ hmove ih =>
    obtain ⟨f, hf, hshut'⟩ := ih (List.Subset.trans hmove.issued_subset hissued)
    exact hmove.shut hissued hf hshut'

/-! ### Decisions -/

/-- A shut group lets in nobody but the operator. -/
theorem Shut.decision {w : World} (h : Shut operator view issued l g) (hshows : w.backend.Shows l)
    {user : UserId} (hne : user ≠ operator) (units : List UnitId) (mask : Privileges) :
    w.decision user units g mask = some (.ok false) := by
  obtain ⟨admitted, hdecision, hiff⟩ : ∃ admitted, w.decision user units g mask = _ ∧ _ :=
    World.decision_iff hshows
  rw [hdecision]
  refine congrArg (some ∘ Except.ok) (Bool.eq_false_iff.2 fun htrue => ?_)
  obtain ⟨e, he, hg, -, hnamed⟩ := hiff.1 htrue
  rw [h.rows e he hg] at hnamed
  rcases hnamed with huser | ⟨unit, -, hunit⟩
  · exact hne (Option.some.inj huser).symm
  · cases hunit

variable (operator) (d : Disturbance) {w : World} {kind : ResourceKind}

/-- **A sweep lets nobody into a resource without rows.** Let the group of a resource be valid and
have no rows. However a sweep is disturbed, as long as no counter of identifiers is exhausted, the
check refuses everybody but the operator of the sweep, on the group before as on the group after.
If the store hands the group out to the sweep as a fresh one, the sweep must have been able to list
the resources of a kind that refers to the group. -/
theorem decision_runOnce_vacant (hsound : w.backend.Sound)
    (hroom : (w.watch d (runOnce operator)).2.spent = false) (hg : ⟨r, g⟩ ∈ w.backend.refs kind)
    (hvalid : g.IsValid) (hnone : ∀ e ∈ w.backend.entries, e.group ≠ g)
    (hsaw : g ∈ (w.watch d (runOnce operator)).2.issued →
      ∃ k, (∃ a ∈ w.backend.refs k, a.group = g) ∧
        ∀ x ∈ (w.watch d (runOnce operator)).2.exchanges, x.isFailedListingOf k = false) :
    (∃ x, (w.watch d (runOnce operator)).1 = some x) ∧
      (∃ f, ⟨r, f⟩ ∈ (w.watch d (runOnce operator)).2.world.backend.refs kind) ∧
      ∀ f, ⟨r, f⟩ ∈ (w.watch d (runOnce operator)).2.world.backend.refs kind →
        ∀ user, user ≠ operator → ∀ units mask,
          w.decision user units g mask = some (.ok false) ∧
            (w.watch d (runOnce operator)).2.world.decision user units f mask =
              some (.ok false) := by
  obtain ⟨l, hshows, hissued⟩ := hsound.exists_shows
  let listed (k : ResourceKind) : Prop :=
    ∀ x ∈ (w.watch d (runOnce operator)).2.exchanges, x.isFailedListingOf k = false
  obtain ⟨x, b, hx, hfollows, hswept, -⟩ :=
    watch_listed operator d listed hshows hroom fun _ => id
  obtain ⟨view, hfits, hmoves⟩ := hswept.moves
  simp only [hshows.refs_eq] at hg hsaw
  rw [hshows.entries_eq] at hnone
  have hissued' : b.ledger.issued = (w.watch d (runOnce operator)).2.issued := by
    rw [hfollows.issued, hissued, List.nil_append]
  have hshut : Shut operator view b.ledger.issued l g := by
    refine ⟨hvalid, fun e he heq => (hnone e he heq).elim, .inr ?_⟩
    by_cases hmem : g ∈ b.ledger.issued
    · obtain ⟨k, ⟨a, ha, rfl⟩, hlisted⟩ := hsaw (hissued' ▸ hmem)
      exact .inl (hfits.seen k (fun hmay => hmay k hlisted rfl) a ha hvalid)
    · exact .inr hmem
  obtain ⟨f, hf, hshut'⟩ := hmoves.shut (List.Subset.refl _) hg hshut
  rw [hfollows.shows.refs_eq]
  refine ⟨⟨x, hx⟩, ⟨f, hf⟩, fun f' hf' user hne units mask => ?_⟩
  obtain rfl : f' = f := (GroupRef.mk.inj (b.ledger.eq_of_resource_eq hf' hf rfl)).2
  exact ⟨hshut.decision hshows hne units mask, hshut'.decision hfollows.shows hne units mask⟩

/-- Two pages have a group together, and the group of a form has no rows. Its identifier is the next
to be handed out. -/
def dangling : World where
  backend := .memory
    { entries := .ofRows [⟨⟨⟨5⟩, some ⟨1⟩, none, Privilege.read.mask⟩, ⟨1⟩⟩], nextEntry := 2 }
    { refs := fun
        | .page => .ofRows [⟨⟨1⟩, ⟨5⟩⟩, ⟨⟨2⟩, ⟨5⟩⟩]
        | .form => .ofRows [⟨⟨1⟩, ⟨6⟩⟩]
        | _ => .empty }

/-- The call with this number fails, and no other one is disturbed. -/
def failing (n : Nat) : Disturbance where
  fault m := if m = n then some .conflict else none

theorem sound_dangling : dangling.backend.Sound :=
  ⟨by decide +kernel, by decide +kernel⟩

/-- Listing the components fails. The identifier of the group is handed out to the sweep, which saw
the form that refers to it. -/
theorem decision_runOnce_vacant_dangling :
    ⟨6⟩ ∈ (dangling.watch (failing 1) (runOnce ⟨7⟩)).2.issued ∧
      ∃ f, ⟨⟨1⟩, f⟩ ∈ (dangling.watch (failing 1) (runOnce ⟨7⟩)).2.world.backend.refs .form ∧
        ∀ user, user ≠ ⟨7⟩ → ∀ units mask,
          (dangling.watch (failing 1) (runOnce ⟨7⟩)).2.world.decision user units f mask =
            some (.ok false) := by
  have hg : ⟨⟨1⟩, ⟨6⟩⟩ ∈ dangling.backend.refs .form := by decide +kernel
  obtain ⟨-, ⟨f, hf⟩, hdecision⟩ := decision_runOnce_vacant ⟨7⟩ (failing 1) sound_dangling
    (by decide +kernel) hg (by decide +kernel) (by decide +kernel)
    fun _ => ⟨.form, ⟨⟨⟨1⟩, ⟨6⟩⟩, by decide +kernel, rfl⟩, by decide +kernel⟩
  exact ⟨by decide +kernel, f, hf,
    fun user hne units mask => (hdecision f hf user hne units mask).2⟩

/-- If listing the forms fails instead, the sweep takes the group for one of the pages, and the form
lets in whom that page lets in. -/
theorem decision_runOnce_unlisted :
    dangling.backend.Sound ∧ (dangling.watch (failing 2) (runOnce ⟨7⟩)).2.spent = false ∧
      ⟨⟨1⟩, ⟨6⟩⟩ ∈ dangling.backend.refs .form ∧ (∀ e ∈ dangling.backend.entries, e.group ≠ ⟨6⟩) ∧
      ⟨⟨1⟩, ⟨6⟩⟩ ∈ (dangling.watch (failing 2) (runOnce ⟨7⟩)).2.world.backend.refs .form ∧
      dangling.decision ⟨1⟩ [] ⟨6⟩ Privilege.read.mask = some (.ok false) ∧
      (dangling.watch (failing 2) (runOnce ⟨7⟩)).2.world.decision ⟨1⟩ [] ⟨6⟩ Privilege.read.mask =
        some (.ok true) :=
  ⟨sound_dangling, by decide +kernel, by decide +kernel, by decide +kernel, by decide +kernel,
    by decide +kernel, by decide +kernel⟩

end Sweep

end AccessGroups
