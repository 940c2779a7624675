import AccessGroups.Proofs.Sweep.Collapse
import AccessGroups.Proofs.Sweep.Groups
import AccessGroups.Proofs.Sweep.Reassign
import AccessGroups.Sweep.Run

/-!
# What a run of the sweep comes to

A run changes the ledger by moves only. If nothing disturbs it, it is completed without failures and
the ledger is consistent afterwards. In a consistent ledger every phase finds nothing to do, so that
the run does nothing but read.

## Main definitions

* `Sweep.Swept`: what a run comes to.

## Main results

* `Sweep.consistent_of_phases`: what the phases leave is a consistent ledger.
* `Sweep.runOnce_meets`: every run.
* `Sweep.runOnce_idle`: a run in a consistent ledger.
-/

namespace AccessGroups.Sweep

variable (operator : UserId) {s : Scan} {k : Conditions} {r : Summary} {a : Account} {l : Ledger}

/-- No two rows repeat each other, every resource has a group of its own with rows, and no group
with rows is without a resource. -/
theorem consistent_of_phases (hunmixed : l.Unmixed) (hloose : ∀ kind r, ¬ l.Loose kind r)
    (htended : Tended [] [] l) (hsingle : ∀ g, ¬ l.Repeats g) : Consistent l.rows l.refs := by
  have hvalid : ∀ k, ∀ x ∈ l.refs k, x.group.IsValid := fun k x hx =>
    not_not.1 fun hnot => hloose k x.resource ⟨x.group, hx, .inl hnot⟩
  have hbefore : ∀ k, ∀ x ∈ l.refs k, ∀ y ∈ l.refs k, x.group = y.group →
      ¬ x.resource < y.resource := fun k x hx y hy heq hlt =>
    hloose k y.resource ⟨y.group, hy, .inr ⟨x, hx, hlt, heq⟩⟩
  refine ⟨hvalid, fun k x hx => ?_, fun e he => ?_, fun k x hx y hy heq => ?_,
    fun x hx y hy heq => ?_, hunmixed⟩
  · exact (htended.covered x.group (hvalid k x hx) ⟨k, x, hx, rfl⟩).resolve_right List.not_mem_nil
  · exact ((htended.accounted e.group ⟨e, he, rfl⟩).resolve_left List.not_mem_nil).2
  · refine l.eq_of_resource_eq hx hy (not_not.1 fun hne => ?_)
    exact hbefore k y hy x hx heq.symm
      (Identifier.lt_of_not_lt_of_ne (hbefore k x hx y hy heq) hne)
  · refine l.eq_of_id_eq hx hy (not_not.1 fun hne => ?_)
    by_cases hlt : x.id < y.id
    · exact hsingle x.group ⟨x, hx, y, hy, hlt, heq, rfl⟩
    · exact hsingle y.group ⟨y, hy, x, hx, Identifier.lt_of_not_lt_of_ne hlt hne, heq.symm, rfl⟩

/-! ### Every run -/

/-- The repairs change the ledger by moves only. In complete view of the references they leave it
consistent if nothing disturbs them. The groups that come to be referred to had no rows when the
scan read them. -/
theorem repair_meets (view : View) (r : Summary) (a : Account) (hs : s.Reads a.ledger [])
    (hr : r.cancelled = false)
    (hknown : view.complete → s.listingFailed = false ∧ a.ledger.Separate)
    (hseen : ∀ g, view.seen g → g ∈ s.referenced) :
    (repair operator s r).Meets (Account.Step k) (fun r' b => Effect operator view k r a r' b ∧
      (k.Calm → view.complete → Consistent b.ledger.rows b.ledger.refs) ∧
      (s.listingFailed = false → ∀ g, g.IsValid → b.ledger.Refers g →
        g ∈ s.referenced ∨ g ∉ s.stored)) a := by
  refine (splitMixed_meets operator view r a).bind ?_
  rintro r₁ b₁ ⟨heffect₁, hsame₁, hunmixed⟩
  have hreassigning : Reassigning view k s s.shared b₁.ledger := by
    have hunderway₁ : Underway view s b₁.ledger :=
      (hs.underway hseen).of_refs_eq hsame₁.refs (Int.le_of_eq hsame₁.nextGroup.symm) fun g hg =>
        (hsame₁.populated g).2 hg
    refine ⟨hunderway₁, fun hc => (hknown hc).imp_right heffect₁.moves.separate, hs.nodup,
      fun _ i hi => ?_, fun _ hc kind r hr => ?_,
      fun _ hc => (hs.tended (hknown hc).1).of_sameGroups hsame₁⟩
    · exact (Ledger.loose_congr hsame₁.refs _ _).2 (hs.loose i hi).2
    · exact hs.shared (hknown hc).1 kind List.not_mem_nil r
        ((Ledger.loose_congr hsame₁.refs kind r).1 hr)
  refine (reassignShared_meets operator r₁ b₁ hreassigning).bind ?_
  rintro r₂ b₂ ⟨heffect₂, hunderway₂, hloose⟩
  have hcreating : Creating view k s b₂.ledger s.missing b₂.ledger :=
    ⟨hunderway₂, rfl, fun g hg => ((hs.missing g).1 hg).1, fun hk hc =>
      (hloose hk (heffect₁.cancelled hk ▸ hr) hc).2⟩
  refine (createMissingGroups_meets operator r₂ b₂ hcreating).bind ?_
  rintro r₃ b₃ ⟨heffect₃, hunderway₃, hrefs₃, htended₃⟩
  have heffect := (heffect₁.trans heffect₂).trans heffect₃
  have hdeleting : Deleting view k b₃.ledger s.orphans b₃.ledger := by
    refine ⟨rfl, fun g hg => ?_, fun hk hc => ?_⟩
    · rintro ⟨hvalid, hrefers⟩
      rw [Scan.orphans] at hg
      split at hg
      · exact List.not_mem_nil hg
      · next hfailed =>
        obtain ⟨hstored, hseen⟩ := List.mem_filter.1 hg
        rcases hunderway₃.origin (Bool.eq_false_iff.2 hfailed) g hvalid hrefers with hmem | hnew
        · simp [hmem] at hseen
        · exact hnew.2 hstored
    · exact htended₃ hk ((heffect₁.trans heffect₂).cancelled hk ▸ hr) hc
  refine (deleteOrphans_meets operator r₃ b₃ hdeleting).bind ?_
  rintro r₄ b₄ ⟨heffect₄, hrefs₄, htended₄⟩
  refine (collapseDuplicates_meets operator view r₄ b₄).mono ?_
  rintro r₅ b₅ ⟨heffect₅, hsame₅, hsingle⟩
  refine ⟨(heffect.trans heffect₄).trans heffect₅, fun hk hc => consistent_of_phases ?_ ?_ ?_ ?_,
    fun hlisted g hvalid hrefers => ?_⟩
  · have hmoves := ((heffect₂.trans heffect₃).trans heffect₄).trans heffect₅
    exact hmoves.moves.unmixed (hunmixed hk hr)
  · intro kind resource hresource
    refine (hloose hk (heffect₁.cancelled hk ▸ hr) hc).1 kind resource ?_
    have hrefs : b₅.ledger.refs = b₂.ledger.refs := hsame₅.refs.trans (hrefs₄.trans hrefs₃)
    exact (Ledger.loose_congr hrefs kind resource).1 hresource
  · exact (htended₄ hk (heffect.cancelled hk ▸ hr) hc).of_sameGroups hsame₅
  · exact hsingle hk ((heffect.trans heffect₄).cancelled hk ▸ hr)
  · have hrefs : b₅.ledger.refs = b₃.ledger.refs := hsame₅.refs.trans hrefs₄
    rw [Ledger.Refers, hrefs] at hrefers
    exact (hunderway₃.origin hlisted g hvalid hrefers).imp_right And.right

/-- The view covers every kind whose listing cannot fail, and is complete if none can and every kind
has a table of its own. -/
structure View.Fits (k : Conditions) (l : Ledger) (view : View) : Prop where
  complete : (∀ kind, ¬ k.mayFail (.registry (.listRefs kind))) → l.Separate → view.complete
  seen : ∀ kind, ¬ k.mayFail (.registry (.listRefs kind)) →
    ∀ x ∈ l.refs kind, x.group.IsValid → view.seen x.group

/-- A sweep that changes nothing may have seen everything. -/
theorem View.fits_all (k : Conditions) (l : Ledger) : View.Fits k l ⟨True, fun _ => True⟩ :=
  ⟨fun _ _ => trivial, fun _ _ _ _ _ => trivial⟩

/-- What a run comes to. Its view of the references is as complete as the conditions let it be. If
it can list every kind, the groups that come to be referred to had no rows. If nothing disturbs it,
it is completed without failures, has changed the ledger only if it counts a repair, and leaves a
consistent one if every kind has a table of its own. -/
structure Swept (k : Conditions) (a : Account) (x : Except ServiceError SweepOutcome)
    (b : Account) : Prop where
  moves : ∃ view : View, view.Fits k a.ledger ∧ Moves operator view a.ledger b.ledger
  running : b.running = a.running
  fresh : (∀ kind, ¬ k.mayFail (.registry (.listRefs kind))) →
    ∀ g, g.IsValid → b.ledger.Refers g → a.ledger.Refers g ∨ ¬ a.ledger.Populated g
  calm : k.Calm → a.running = false → ∃ r, x = .ok (.completed r) ∧ r.failures = [] ∧
    r.cancelled = false ∧ (a.ledger.Separate → Consistent b.ledger.rows b.ledger.refs) ∧
      (r.repairs = 0 → b.ledger.rows = a.ledger.rows ∧ b.ledger.refs = a.ledger.refs)

theorem runHolding_meets (a : Account) (ha : a.running = true) :
    (runHolding operator).Meets (Account.Step k) (fun x b => b.running = true ∧
      Swept operator k { a with running := false } x { b with running := false }) a := by
  refine Account.meets_log ((scan_meets k a).bind ?_)
  rintro (e | ⟨s, r⟩) b hscan
  · obtain ⟨hmay, hlooked⟩ := hscan
    refine Account.meets_record ⟨hlooked.running.trans ha, ⟨_, View.fits_all _ _, ?_⟩, rfl,
      fun _ g _ hrefers => .inl ?_, fun hk => (hk.1 _ hmay).elim⟩
    · rw [hlooked.ledger]
    · rwa [← hlooked.ledger]
  · have hreads : s.Reads b.ledger [] := by
      rw [hscan.looked.ledger]
      exact hscan.reads
    have hlisted := hscan.listingFailed_eq_false
    have hknown : s.listingFailed = false ∧ a.ledger.Separate →
        s.listingFailed = false ∧ b.ledger.Separate := by
      rw [hscan.looked.ledger]
      exact id
    let view : View := ⟨s.listingFailed = false ∧ a.ledger.Separate, (· ∈ s.referenced)⟩
    refine (repair_meets operator view r b hreads hscan.cancelled hknown
      fun _ => id).bind ?_
    rintro r' c ⟨heffect, hconsistent, hfresh⟩
    refine Account.meets_record (Account.meets_log ⟨?_, ⟨view, ⟨fun hnone hsep =>
      ⟨hlisted hnone, hsep⟩, hscan.listed⟩, ?_⟩, rfl, fun hnone g hvalid hrefers => ?_,
      fun hk _ => ?_⟩)
    · exact heffect.running.trans (hscan.looked.running.trans ha)
    · have hmoves := heffect.moves
      rwa [hscan.looked.ledger] at hmoves
    · refine (hfresh (hlisted hnone) g hvalid hrefers).imp (hscan.reads.refers g) ?_
      exact fun hstored hrows => hstored ((hscan.reads.stored g).2 hrows)
    · have hlisted := hlisted fun kind => hk.1 _
      refine ⟨r', rfl, (heffect.failures hk).trans (hscan.failures hlisted),
        (heffect.cancelled hk).trans hscan.cancelled, fun hsep => hconsistent hk ⟨hlisted, hsep⟩,
        fun hzero => ?_⟩
      have hrepairs : r.repairs = 0 := hscan.repairs
      rw [← hscan.looked.ledger]
      exact heffect.unchanged hk (hzero.trans hrepairs.symm)

/-- Every run changes the ledger by moves only, and is as it should be if nothing disturbs it. -/
theorem runOnce_meets (k : Conditions) (a : Account) :
    (runOnce operator).Meets (Account.Step k) (Swept operator k a) a := by
  refine Account.meets_claim ?_
  obtain ⟨ledger, made, running⟩ := a
  cases running with
  | false =>
    refine (runHolding_meets operator { ledger, made, running := true } rfl).bind ?_
    rintro x b ⟨-, hswept⟩
    exact Account.meets_release ⟨hswept.moves, rfl, hswept.fresh, hswept.calm⟩
  | true =>
    exact Account.meets_log (Account.meets_record
      ⟨⟨_, View.fits_all _ _, .refl⟩, rfl, fun _ _ _ => .inl, fun _ h => Bool.noConfusion h⟩)

/-! ### A run in a consistent ledger -/

theorem splitMixed_idle (hk : k.Calm) (a : Account) (h : a.ledger.Unmixed) :
    (splitMixed r).Meets (Account.Step k) (fun r' b => a.Looked b ∧ r' = r) a := by
  refine checkpoint_meets ?_ fun hmay => (hk.2 hmay).elim
  split
  · exact ⟨.refl a, rfl⟩
  · refine Account.meets_store (fun mixed t hgives => ?_) fun hmay => (hk.1 _ hmay).elim
    obtain ⟨rfl, rfl⟩ := hgives
    have hnone : (a.ledger.rows.filter fun e => e.isMixed) = [] :=
      List.filter_eq_nil_iff.2 fun e he => by simp [h e he]
    dsimp only
    rw [hnone]
    exact ⟨Account.looked_after rfl, rfl⟩

theorem collapseDuplicates_idle (hk : k.Calm) (a : Account) (h : ∀ g, ¬ a.ledger.Repeats g) :
    (collapseDuplicates r).Meets (Account.Step k) (fun r' b => a.Looked b ∧ r' = r) a := by
  refine checkpoint_meets ?_ fun hmay => (hk.2 hmay).elim
  split
  · exact ⟨.refl a, rfl⟩
  · refine Account.meets_store (fun groups t hgives => ?_) fun hmay => (hk.1 _ hmay).elim
    obtain ⟨-, hgroups, rfl⟩ := hgives
    have hnone : groups = [] := List.eq_nil_iff_forall_not_mem.2 fun g hg => h g ((hgroups g).1 hg)
    subst hnone
    exact ⟨Account.looked_after rfl, rfl⟩

/-- In a consistent ledger the scan finds nothing to repair. -/
theorem nothing_found (h : Consistent l.rows l.refs) (hs : s.Reads l [])
    (hlisted : s.listingFailed = false) : s.shared = [] ∧ s.missing = [] ∧ s.orphans = [] := by
  refine ⟨?_, ?_, ?_⟩ <;> rw [List.eq_nil_iff_forall_not_mem]
  · intro i hi
    obtain ⟨g, hg, hinvalid | ⟨b, hb, hlt, heq⟩⟩ := (hs.loose i hi).2
    · exact hinvalid (h.valid _ _ hg)
    · have := h.separate _ b hb _ hg heq
      subst this
      exact Identifier.lt_irrefl _ hlt
  · intro g hg
    obtain ⟨hmem, hstored⟩ := (hs.missing g).1 hg
    obtain ⟨k, x, hx, rfl⟩ := hs.refers g hmem
    exact hstored ((hs.stored _).2 (h.populated k x hx))
  · intro g hg
    obtain ⟨⟨e, he, rfl⟩, hnot⟩ := (hs.mem_orphans_iff hlisted g).1 hg
    obtain ⟨k, x, hx, heq⟩ := h.referenced e he
    exact hnot ⟨heq ▸ h.valid k x hx, k, x, hx, heq⟩

/-- A run that nothing disturbs in a consistent ledger only reads, and counts no repair. -/
theorem runOnce_idle (hk : k.Calm) (a : Account) (ha : a.running = false)
    (h : Consistent a.ledger.rows a.ledger.refs) :
    (runOnce operator).Meets (Account.Step k) (fun x b => b.ledger = a.ledger ∧
      (∀ c ∈ b.made, c ∈ a.made ∨ c.isWrite = false) ∧
        ∃ r, x = .ok (.completed r) ∧ r.repairs = 0) a := by
  refine Account.meets_claim ?_
  rw [ha]
  have hrun : (runHolding operator).Meets (Account.Step k) (fun x b =>
      b.ledger = a.ledger ∧ (∀ c ∈ b.made, c ∈ a.made ∨ c.isWrite = false) ∧
        ∃ r, x = .ok (.completed r) ∧ r.repairs = 0) { a with running := true } := by
    refine Account.meets_log ((scan_meets k _).bind ?_)
    rintro (e | ⟨s, r⟩) b hscan
    · exact (hk.1 _ hscan.1).elim
    · have hlisted : s.listingFailed = false := hscan.listingFailed_eq_false fun _ => hk.1 _
      have hledger : b.ledger = a.ledger := hscan.looked.ledger
      have hreads : s.Reads a.ledger [] := hscan.reads
      obtain ⟨hshared, hmissing, horphans⟩ := nothing_found h hreads hlisted
      have hsingle : ∀ g, ¬ b.ledger.Repeats g := by
        rintro g ⟨x, hx, y, hy, hlt, heq, -⟩
        rw [hledger] at hx hy
        exact Identifier.lt_irrefl _ (h.single x hx y hy heq ▸ hlt)
      have hrepair : (repair operator s r).Meets (Account.Step k)
          (fun r' c => b.Looked c ∧ r' = r) b := by
        refine (splitMixed_idle hk b (hledger ▸ h.unmixed)).bind ?_
        rintro _ c ⟨hlooked, rfl⟩
        simp only [reassignShared, createMissingGroups, deleteOrphans, hshared, hmissing, horphans,
          forItems, Prog.pure_eq, Prog.done_bind]
        refine (collapseDuplicates_idle hk c (hlooked.ledger ▸ hsingle)).mono ?_
        rintro r' d ⟨hlooked', rfl⟩
        exact ⟨hlooked.trans hlooked', rfl⟩
      refine hrepair.bind ?_
      rintro _ c ⟨hlooked, rfl⟩
      have hall := hscan.looked.trans hlooked
      exact Account.meets_record (Account.meets_log
        ⟨hall.ledger, hall.made, _, rfl, hscan.repairs⟩)
  refine hrun.bind ?_
  rintro x b hspec
  exact Account.meets_release hspec

end AccessGroups.Sweep
