import AccessGroups.Proofs.Sweep.Effect
import AccessGroups.Proofs.Sweep.Underway

/-!
# Moving resources to groups of their own

A loose resource gets a fresh group, in which the rows of its present one are copied. Group
identifiers that the scan saw are handed back, of which there are finitely many, so that the search
for a fresh one ends.

## Main definitions

* `Sweep.Prepares`: what is done before a resource is moved.
* `Sweep.Fresh`: a group that can be given to a resource.

## Main results

* `Sweep.allocateFresh_meets`, `Sweep.allocateUnreferenced_meets`: the search for a fresh group
  ends.
* `Sweep.reassign_meets`: what moving one resource can come to.
* `Sweep.reassignShared_meets`: the phase, after which no resource is loose if nothing disturbed it.
-/

namespace AccessGroups.Sweep

variable (operator : UserId) {view : View} {s : Scan} {k : Conditions} {r : Summary}
  {a : Account} {l t u : Ledger} {f g : GroupId} {kind : ResourceKind} {resource : ResourceId}

/-- Before a resource is moved group identifiers are handed out and new groups get rows. -/
structure Prepares (view : View) (l t : Ledger) : Prop where
  moves : Moves operator view l t
  refs : t.refs = l.refs
  nextGroup : l.nextGroup ≤ t.nextGroup
  rows : ∀ g, l.Populated g → t.Populated g

variable {operator} in
theorem Prepares.refl (l : Ledger) : Prepares operator view l l :=
  ⟨.refl, rfl, Int.le_refl _, fun _ => id⟩

variable {operator} in
theorem Prepares.trans (h : Prepares operator view l t) (h' : Prepares operator view t u) :
    Prepares operator view l u :=
  ⟨h.moves.trans h'.moves, h'.refs.trans h.refs, Int.le_trans h.nextGroup h'.nextGroup,
    fun g hg => h'.rows g (h.rows g hg)⟩

theorem Prepares.underway {operator : UserId} (h : Prepares operator view l t)
    (hl : Underway view s l) : Underway view s t :=
  hl.of_refs_eq h.refs h.nextGroup h.rows

/-- The group was handed out in the sweep, has no rows, and the scan did not see it. -/
structure Fresh (s : Scan) (l : Ledger) (f : GroupId) : Prop where
  valid : f.IsValid
  issued : f ∈ l.issued
  below : f.val.toInt < l.nextGroup
  rows : ¬ l.Populated f
  seen : f ∉ s.referenced

/-! ### A fresh group -/

/-- Handing out an identifier that was seen leaves fewer of those to be handed out. -/
theorem length_filter_lt {ids : List GroupId} {n : Int} (hg : g ∈ ids) (hn : n ≤ g.val.toInt) :
    (ids.filter fun x => g.val.toInt + 1 ≤ x.val.toInt).length <
      (ids.filter fun x => n ≤ x.val.toInt).length := by
  have hsub : (ids.filter fun x => g.val.toInt + 1 ≤ x.val.toInt) =
      (ids.filter fun x => n ≤ x.val.toInt).filter fun x => g.val.toInt + 1 ≤ x.val.toInt := by
    rw [List.filter_filter]
    refine List.filter_congr fun x _ => ?_
    rw [Bool.eq_iff_iff, Bool.and_eq_true, decide_eq_true_iff, decide_eq_true_iff]
    omega
  rw [hsub]
  refine List.length_filter_lt_length_iff_exists.2
    ⟨g, List.mem_filter.2 ⟨hg, by simpa using hn⟩, ?_⟩
  simp only [decide_eq_true_eq]
  omega

theorem isValid_iff {family : IdFamily} {x : Identifier family} : x.IsValid ↔ 0 < x.val.toInt := by
  rw [Identifier.IsValid, Int64.lt_iff_toInt_lt]
  rfl

/-- What the search for a fresh group comes to: identifiers were handed out, and the one that was
found is fresh. -/
structure Allocated (view : View) (s : Scan) (k : Conditions) (a : Account)
    (x : Except ServiceError GroupId) (b : Account) : Prop where
  running : b.running = a.running
  rows : b.ledger.rows = a.ledger.rows
  prepares : Prepares operator view a.ledger b.ledger
  found : match x with
    | .ok f => Fresh s b.ledger f ∧ a.ledger.nextGroup ≤ f.val.toInt
    | .error _ => ¬ k.Calm

variable (view) in
/-- The search ends, however many identifiers the scan saw. -/
theorem allocateFresh_meets (limit : Nat) (a : Account)
    (hlimit : (s.referenced.filter fun g => a.ledger.nextGroup ≤ g.val.toInt).length < limit) :
    (allocateFresh s.referenced limit).Meets (Account.Step k)
      (Allocated operator view s k a) a := by
  induction limit generalizing a with
  | zero => omega
  | succ limit ih =>
    rintro (e | g) b hstep
    · obtain ⟨hmay, rfl⟩ := hstep
      exact ⟨rfl, rfl, .refl _, not_calm_of_mayFail hmay⟩
    obtain ⟨t, ⟨⟨hnext, habove⟩, -, hissue, rfl⟩, rfl⟩ := hstep
    have hprepares : Prepares operator view a.ledger (a.ledger.issue g hissue) := by
      refine ⟨.single .issue, rfl, ?_, fun g hg => hg⟩
      rw [Ledger.nextGroup_issue]
      omega
    change (if g ∉ s.referenced then Prog.done (.ok g) else
      Prog.log (.allocationReferenced g) >>= fun _ =>
        allocateFresh s.referenced limit).Meets _ _ _
    split
    · next hseen =>
      have hpos := a.ledger.positive
      refine ⟨rfl, rfl, hprepares, ⟨isValid_iff.2 (by omega), ?_, ?_, ?_, hseen⟩, hnext⟩
      · exact List.mem_append_right _ (List.mem_singleton_self g)
      · change g.val.toInt < g.val.toInt + 1
        omega
      · rintro ⟨e, he, rfl⟩
        have := habove e he
        omega
    · next hseen =>
      have hlt := length_filter_lt (not_not.1 hseen) hnext
      have hrest := ih (a.after (.store .allocateGroup) (a.ledger.issue g hissue)) (by
        change (s.referenced.filter fun x => g.val.toInt + 1 ≤ x.val.toInt).length < limit
        omega)
      refine Account.meets_log (hrest.mono ?_)
      rintro (e | f) b ⟨hrunning, hrows, hprepares', hfound⟩
      · exact ⟨hrunning, hrows, hprepares.trans hprepares', hfound⟩
      · exact ⟨hrunning, hrows, hprepares.trans hprepares', hfound.1,
          Int.le_trans hprepares.nextGroup hfound.2⟩

variable (view) in
/-- As many identifiers may be asked for as the scan saw, and more. -/
theorem allocateUnreferenced_meets (a : Account) :
    (allocateUnreferenced s.referenced).Meets (Account.Step k)
      (Allocated operator view s k a) a := by
  refine allocateFresh_meets operator view _ a ?_
  have hsize : 0 < UInt64.size := by decide
  have := List.length_filter_le (fun g : GroupId => a.ledger.nextGroup ≤ g.val.toInt) s.referenced
  omega

/-! ### One resource -/

theorem rowsOf_append {v : List Entry} {h} (hv : ∀ e ∈ v, e.group = f) (g : GroupId) :
    (l.withRows (l.rows ++ v) h).rowsOf g = if g = f then l.rowsOf g ++ v else l.rowsOf g := by
  have hfilter : v.filter (fun e => e.group = g) = if g = f then v else [] := by
    split
    · next heq => exact List.filter_eq_self.2 fun e he => by simp [heq, hv e he]
    · next hne => exact List.filter_eq_nil_iff.2 fun e he => by simp [hv e he, Ne.symm hne]
  rw [Ledger.rowsOf, Ledger.rows_withRows, List.filter_append, hfilter]
  split
  · rfl
  · exact List.append_nil _

/-- Just before a resource is moved the fresh group has copies of the rows of its present one. -/
structure Ready (view : View) (s : Scan) (l t : Ledger) (kind : ResourceKind)
    (resource : ResourceId) (f : GroupId) : Prop where
  prepares : Prepares operator view l t
  valid : f.IsValid
  issued : f ∈ t.issued
  below : f.val.toInt < t.nextGroup
  unstored : f ∉ s.stored
  unreferred : s.listingFailed = false → ¬ t.Refers f
  populated : ∀ g, t.Populated g ↔ l.Populated g ∨ g = f
  copied : ∀ g, ⟨resource, g⟩ ∈ t.refs kind →
    (t.rowsOf f).map Entry.toGrant = copies operator (sourceRows t g) f

/-- Filling a fresh group with copies makes it ready. -/
theorem ready_of_fill {v : List Entry} {h} (hknown : view.complete → s.listingFailed = false)
    (hl : Underway view s l) (ht : Prepares operator view l t)
    (hrows : t.rows = l.rows) (hfresh : Fresh s t f) (hnext : l.nextGroup ≤ f.val.toInt)
    (hg : ⟨resource, g⟩ ∈ t.refs kind)
    (hv : v.map Entry.toGrant = copies operator (sourceRows t g) f) :
    Ready operator view s l (t.withRows (t.rows ++ v) h) kind resource f := by
  have hmem : ∀ e ∈ v, e.group = f ∧ (e.toGrant = fallback operator f ∨
      ∃ x ∈ t.rows, e.toGrant = x.toGrant.withGroup f) := by
    intro e he
    have hmem : e.toGrant ∈ copies operator (sourceRows t g) f :=
      hv ▸ List.mem_map_of_mem he
    rw [copies] at hmem
    split at hmem
    · have heq := List.mem_singleton.1 hmem
      exact ⟨by rw [heq]; rfl, .inl heq⟩
    · obtain ⟨x, hx, heq⟩ := List.mem_map.1 hmem
      refine ⟨by rw [← heq]; rfl, .inr ⟨x, ?_, heq.symm⟩⟩
      rw [sourceRows] at hx
      split at hx
      · exact (Ledger.mem_rowsOf.1 hx).1
      · exact (List.not_mem_nil hx).elim
  have hgroup : ∀ e ∈ v, e.group = f := fun e he => (hmem e he).1
  have hne : v ≠ [] := by
    rintro rfl
    exact copies_ne_nil hv.symm
  have hunreferred : s.listingFailed = false → ¬ t.Refers f := by
    rintro hc ⟨k, a, ha, heq⟩
    rw [ht.refs] at ha
    rcases hl.origin hc f hfresh.valid ⟨k, a, ha, heq⟩ with hseen | ⟨hlt, -⟩
    · exact hfresh.seen hseen
    · omega
  have hpopulated : ∀ g, (t.withRows (t.rows ++ v) h).Populated g ↔ l.Populated g ∨ g = f := by
    intro g
    simp only [Ledger.Populated, Ledger.rows_withRows, List.mem_append, or_and_right, exists_or,
      hrows]
    refine or_congr_right ⟨?_, ?_⟩
    · rintro ⟨e, he, rfl⟩
      exact hgroup e he
    · rintro rfl
      obtain ⟨e, he⟩ := List.exists_mem_of_ne_nil v hne
      exact ⟨e, he, hgroup e he⟩
  have hnone : t.rowsOf f = [] := Ledger.rowsOf_eq_nil_iff.2 hfresh.rows
  have hfill : Move operator view t (t.withRows (t.rows ++ v) h) :=
    .fill hfresh.valid hfresh.issued hfresh.rows (hfresh.seen ∘ hl.seen f) (hunreferred ∘ hknown)
      hmem
  refine ⟨⟨ht.moves.tail hfill, ht.refs, ht.nextGroup, fun g hg => (hpopulated g).2 (.inl hg)⟩,
    hfresh.valid, hfresh.issued, hfresh.below, ?_, hunreferred, hpopulated, fun g' hg' => ?_⟩
  · exact fun hstored => hfresh.rows (ht.rows f (hl.stored f hstored))
  · have heq : g' = g := (GroupRef.mk.inj (t.eq_of_resource_eq hg' hg rfl)).2
    subst heq
    rw [rowsOf_append hgroup, if_pos rfl, hnone, List.nil_append, hv]
    by_cases hgf : g' = f
    · -- an unlisted resource refers to the fresh group already, which then had no rows to copy
      subst hgf
      have hsource : sourceRows t g' = [] := by rw [sourceRows, hnone, ite_self]
      have hsource' : sourceRows (t.withRows (t.rows ++ v) h) g' = v := by
        rw [sourceRows, if_pos hfresh.valid, rowsOf_append hgroup, if_pos rfl, hnone,
          List.nil_append]
      rw [hsource', ← hv, copies, if_neg (by simpa using hne)]
      refine List.map_congr_left fun e he => ?_
      rw [← hgroup e he]
      rfl
    · have hsource : sourceRows (t.withRows (t.rows ++ v) h) g' = sourceRows t g' := by
        rw [sourceRows, sourceRows, rowsOf_append hgroup, if_neg hgf]
      rw [hsource]

theorem readGroup_meets (g : GroupId) (a : Account) :
    (readGroup g).Meets (Account.Step k) (fun x b => a.Looked b ∧ match x with
      | .ok rows => rows = sourceRows a.ledger g
      | .error _ => ¬ k.Calm) a := by
  rw [readGroup, sourceRows]
  split
  · rintro (e | v) b hstep
    · obtain ⟨hmay, rfl⟩ := hstep
      exact ⟨Account.looked_after rfl, not_calm_of_mayFail hmay⟩
    · obtain ⟨t, ⟨rfl, rfl⟩, rfl⟩ := hstep
      exact ⟨Account.looked_after rfl, rfl⟩
  · exact ⟨.refl a, rfl⟩

/-- A resource is moved, or something failed or the resource is gone and it stays where it is. -/
theorem reassign_meets (a : Account) (hknown : view.complete → s.listingFailed = false)
    (hl : Underway view s a.ledger) :
    (reassign operator s kind resource).Meets (Account.Step k) (fun x b =>
      b.running = a.running ∧ match x with
      | .ok (some _) => ∃ t f, Ready operator view s a.ledger t kind resource f ∧
        (∃ g, ⟨resource, g⟩ ∈ t.refs kind) ∧ b.ledger = t.assign kind ⟨resource, f⟩
      | _ => ¬ k.Calm ∧ Prepares operator view a.ledger b.ledger) a := by
  refine Account.meets_registry (fun g t hgives => ?_) fun hmay e => ?_
  · obtain ⟨hg, rfl⟩ := hgives
    refine (allocateUnreferenced_meets operator view
      (a.after (.registry (.findRef kind resource)) a.ledger)).bind ?_
    rintro (e | f) b ⟨hrunning, hrows, hprepares, hfound⟩
    · exact ⟨hrunning, hfound, hprepares⟩
    obtain ⟨hfresh, hnext⟩ := hfound
    refine (readGroup_meets g b).bind ?_
    rintro x ⟨ledger, made, running⟩ ⟨hlooked, hsource⟩
    obtain rfl : ledger = b.ledger := hlooked.ledger
    rcases x with e | source
    · exact ⟨hlooked.running.trans hrunning, hsource, hprepares⟩
    subst hsource
    refine Account.meets_store (fun v t hgives => ?_) fun hmay e => ?_
    · obtain ⟨hv, -, hrows', rfl⟩ := hgives
      have hready : Ready operator view s a.ledger
          (b.ledger.withRows ((b.ledger.rows.filter fun a => a.group ≠ f) ++ v) hrows')
          kind resource f := by
        simp only [Ledger.filter_group_ne hfresh.rows]
        refine ready_of_fill operator hknown hl hprepares hrows hfresh hnext ?_ hv
        rw [hprepares.refs]
        exact hg
      refine Account.meets_registry (fun _ t hgives => ?_) fun hmay e => ?_
      · obtain ⟨-, rfl⟩ := hgives
        refine ⟨hlooked.running.trans hrunning, _, f, hready, ⟨g, ?_⟩, rfl⟩
        rw [hready.prepares.refs]
        exact hg
      · exact ⟨hlooked.running.trans hrunning, not_calm_of_mayFail hmay, hready.prepares⟩
    · exact ⟨hlooked.running.trans hrunning, not_calm_of_mayFail hmay, hprepares⟩
  · have hcalm := not_calm_of_mayFail hmay
    split
    · exact ⟨rfl, hcalm, .refl _⟩
    · exact ⟨rfl, hcalm, .refl _⟩
    · next heq => cases heq

/-! ### The phase -/

/-- In complete view of the references the resources that are left to be moved are loose, and if
nothing is disturbed they are all that are. -/
structure Reassigning (view : View) (k : Conditions) (s : Scan)
    (rest : List (ResourceKind × ResourceId)) (l : Ledger) : Prop where
  underway : Underway view s l
  known : view.complete → s.listingFailed = false ∧ l.Separate
  nodup : rest.Nodup
  loose : view.complete → ∀ i ∈ rest, l.Loose i.1 i.2
  all : k.Calm → view.complete → ∀ kind r, l.Loose kind r → (kind, r) ∈ rest
  tended : k.Calm → view.complete → Tended s.missing s.orphans l

variable {rest : List (ResourceKind × ResourceId)}

/-- A resource that could not be moved is passed over. -/
theorem Reassigning.skip {operator : UserId}
    (h : Reassigning view k s ((kind, resource) :: rest) l) (hk : ¬ k.Calm)
    (ht : Prepares operator view l t) : Reassigning view k s rest t where
  underway := ht.underway h.underway
  known hc := (h.known hc).imp_right ht.moves.separate
  nodup := (List.nodup_cons.1 h.nodup).2
  loose hc i hi := (Ledger.loose_congr ht.refs _ _).2 (h.loose hc i (List.mem_cons_of_mem _ hi))
  all hc := (hk hc).elim
  tended hc := (hk hc).elim

/-- A resource that was moved is loose no more. -/
theorem Reassigning.point {operator : UserId}
    (h : Reassigning view k s ((kind, resource) :: rest) l)
    (ht : Ready operator view s l t kind resource f) (hg : ⟨resource, g⟩ ∈ t.refs kind) :
    Reassigning view k s rest (t.assign kind ⟨resource, f⟩) := by
  obtain ⟨hnot, hnodup⟩ := List.nodup_cons.1 h.nodup
  have hunderway := ht.prepares.underway h.underway
  have hsep : view.complete → t.Separate := fun hc => ht.prepares.moves.separate (h.known hc).2
  have hloose : view.complete → t.Loose kind resource := fun hc =>
    (Ledger.loose_congr ht.prepares.refs _ _).2 (h.loose hc _ List.mem_cons_self)
  have hafter : view.complete → ∀ k' r', (t.assign kind ⟨resource, f⟩).Loose k' r' ↔
      t.Loose k' r' ∧ ¬ (k' = kind ∧ r' = resource) := fun hc _ _ =>
    Ledger.loose_assign (hsep hc) (hloose hc) ht.valid (ht.unreferred (h.known hc).1)
  have hrefers : ∀ g, t.Refers g ↔ l.Refers g := fun g => by
    simp only [Ledger.Refers, ht.prepares.refs]
  refine ⟨⟨h.underway.seen, h.underway.valid, hunderway.stored, fun hc g hg => ?_,
      fun hc g hvalid hrefers => ?_⟩,
    fun hc => ⟨(h.known hc).1, hsep hc⟩, hnodup, fun hc i hi => ?_, fun hk hc k' r' hr' => ?_,
    fun hk hc => ⟨?_, ?_⟩⟩
  · exact Ledger.refers_assign (hsep hc) (hloose hc) (h.underway.valid g hg)
      (hunderway.kept hc g hg)
  · rcases Ledger.refers_of_assign hrefers with rfl | hrefers
    · exact .inr ⟨ht.below, ht.unstored⟩
    · exact hunderway.origin hc g hvalid hrefers
  · refine (hafter hc i.1 i.2).2 ⟨?_, ?_⟩
    · exact (Ledger.loose_congr ht.prepares.refs _ _).2 (h.loose hc i (List.mem_cons_of_mem _ hi))
    · rintro ⟨hkind, hresource⟩
      exact hnot ((Prod.ext hkind hresource : i = (kind, resource)) ▸ hi)
  · obtain ⟨hr', hne⟩ := (hafter hc k' r').1 hr'
    rcases List.mem_cons.1 (h.all hk hc k' r' ((Ledger.loose_congr ht.prepares.refs _ _).1 hr'))
      with heq | hmem
    · exact (hne (Prod.mk.inj heq)).elim
    · exact hmem
  · intro g hvalid hg
    rcases Ledger.refers_of_assign hg with rfl | hg
    · exact .inl ((ht.populated g).2 (.inr rfl))
    · refine ((h.tended hk hc).covered g hvalid ((hrefers g).1 hg)).imp_left fun hrows => ?_
      exact (ht.populated g).2 (.inl hrows)
  · intro g' hrows
    rcases (ht.populated g').1 hrows with hrows | rfl
    · refine ((h.tended hk hc).accounted g' hrows).imp_right fun hold => ⟨hold.1, ?_⟩
      exact Ledger.refers_assign (hsep hc) (hloose hc) hold.1 ((hrefers g').2 hold.2)
    · refine .inr ⟨ht.valid, kind, ⟨resource, g'⟩, Ledger.mem_assign.2 (.inr ⟨rfl, rfl, ?_⟩), rfl⟩
      exact ⟨_, hg, rfl⟩

theorem reassignItem_meets {i : ResourceKind × ResourceId}
    (h : Reassigning view k s (i :: rest) a.ledger) :
    (reassignItem operator s i r).Meets (Account.Step k) (fun r' b =>
      Effect operator view k r a r' b ∧ Reassigning view k s rest b.ledger) a := by
  refine (reassign_meets operator a (fun hc => (h.known hc).1) h.underway).bind ?_
  rintro (e | _ | ⟨old, new⟩) b ⟨hrunning, hspec⟩
  · obtain ⟨hcalm, hprepares⟩ := hspec
    exact fail_meets ⟨.disturbed hcalm hprepares.moves hrunning (Nat.le_refl _),
      h.skip hcalm hprepares⟩
  · obtain ⟨hcalm, hprepares⟩ := hspec
    exact Account.meets_log ⟨.disturbed hcalm hprepares.moves hrunning (Nat.le_refl _),
      h.skip hcalm hprepares⟩
  · obtain ⟨t, f, hready, ⟨g, hg⟩, hledger⟩ := hspec
    have hcount : r.repairs < { r with
        reassignedResources := r.reassignedResources + 1 }.repairs := by
      simp only [Summary.repairs]
      omega
    have hmoves : Moves operator view a.ledger b.ledger := by
      rw [hledger]
      refine hready.prepares.moves.tail (.point hg hready.valid hready.issued (fun hc =>
        ⟨hready.prepares.moves.separate (h.known hc).2, hready.unreferred (h.known hc).1, ?_⟩)
        (hready.copied g hg))
      exact (Ledger.loose_congr hready.prepares.refs _ _).2 (h.loose hc _ List.mem_cons_self)
    refine Account.meets_log ⟨.counted hmoves hrunning hcount rfl rfl, ?_⟩
    rw [hledger]
    exact h.point hready hg

/-- Moving resources leaves the sweep under way, and no resource loose if nothing disturbs it and
the view of the references is complete. -/
theorem reassignShared_meets (r : Summary) (a : Account)
    (h : Reassigning view k s s.shared a.ledger) :
    (reassignShared operator s r).Meets (Account.Step k) (fun r' b =>
      Effect operator view k r a r' b ∧ Underway view s b.ledger ∧
        (k.Calm → r.cancelled = false → view.complete →
          (∀ kind r, ¬ b.ledger.Loose kind r) ∧ Tended s.missing s.orphans b.ledger)) a := by
  refine (forItems_meets operator _ (I := Reassigning view k s)
    (fun i rest r b hb => reassignItem_meets operator hb) _ r a h).mono ?_
  rintro r' b ⟨heffect, rest, hb, hdone⟩
  refine ⟨heffect, hb.underway, fun hk hnot hc => ⟨fun kind r hr => ?_, hb.tended hk hc⟩⟩
  have hmem := hb.all hk hc kind r hr
  rw [hdone hk hnot] at hmem
  exact List.not_mem_nil hmem

end AccessGroups.Sweep
