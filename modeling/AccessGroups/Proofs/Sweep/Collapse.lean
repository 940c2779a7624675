import AccessGroups.Proofs.Sweep.Split

/-!
# Collapsing rows that repeat one another

Of the rows of a group with the same grant all but the first are deleted. Every row that is deleted
has a twin that stays, so that the same groups have rows as before.

## Main definitions

* `Sweep.Collapses`: rows were deleted that others repeat.
* `Sweep.Collapsing`: the rows of a group between those that were looked at and those that are left.

## Main results

* `Sweep.sortRows_eq`: rows in ascending order are left in place.
* `Sweep.deleteRepeated_meets`, `Sweep.collapseGroup_meets`: one group.
* `Sweep.collapseDuplicates_meets`: the phase, after which no row repeats another if nothing
  disturbed it.
-/

namespace AccessGroups.Sweep

variable (operator : UserId) (view : View) {k : Conditions} {a : Account} {l t u : Ledger}
  {g : GroupId} {e v : Entry} {rest : List Entry} {kept : List Grant}

/-- Rows were deleted that others repeat. -/
structure Collapses (l t : Ledger) : Prop where
  moves : Moves operator view l t
  same : l.SameGroups t
  rows : ∀ e ∈ t.rows, e ∈ l.rows

variable {operator view} in
theorem Collapses.refl (l : Ledger) : Collapses operator view l l :=
  ⟨.refl, .refl l, fun _ => id⟩

variable {operator view} in
theorem Collapses.trans (h : Collapses operator view l t)
    (h' : Collapses operator view t u) : Collapses operator view l u :=
  ⟨h.moves.trans h'.moves, h.same.trans h'.same, fun e he => h.rows e (h'.rows e he)⟩

theorem collapses_erase {h} (he : e ∈ l.rows) (hv : v ∈ l.rows) (hne : v.id ≠ e.id)
    (hsame : v.toGrant = e.toGrant) :
    Collapses operator view l (l.withRows (l.rows.filter fun a => a.id ≠ e.id) h) := by
  refine ⟨.single (.erase he hv hne hsame), ⟨rfl, rfl, fun g => ⟨?_, ?_⟩⟩, fun x hx =>
    (List.mem_filter.1 hx).1⟩
  · rintro ⟨x, hx, hg⟩
    exact ⟨x, (List.mem_filter.1 hx).1, hg⟩
  · rintro ⟨x, hx, rfl⟩
    by_cases hxe : x.id = e.id
    · have heq : x = e := l.eq_of_id_eq hx he hxe
      refine ⟨v, List.mem_filter.2 ⟨hv, by simpa using hne⟩, ?_⟩
      rw [heq, hsame]
    · exact ⟨x, List.mem_filter.2 ⟨hx, by simpa using hxe⟩, rfl⟩

theorem Collapses.repeats {operator : UserId} {view : View}
    (h : Collapses operator view l t) (hg : t.Repeats g) : l.Repeats g := by
  obtain ⟨x, hx, y, hy, hrep⟩ := hg
  exact ⟨x, h.rows x hx, y, h.rows y hy, hrep⟩

/-- Rows in ascending order are left in place. -/
theorem sortRows_eq {rows : List Entry} (h : rows.Pairwise fun a b => a.id < b.id) :
    sortRows rows = rows := by
  induction rows with
  | nil => rfl
  | cons e rest ih =>
    obtain ⟨he, hrest⟩ := List.pairwise_cons.1 h
    have hsorted : sortRows (e :: rest) = insertRow e (sortRows rest) := rfl
    rw [hsorted, ih hrest]
    cases rest with
    | nil => rfl
    | cons x rest =>
      have hle : e.id ≤ x.id := by
        have hlt := he x List.mem_cons_self
        rw [Identifier.lt_iff_toInt] at hlt
        rw [Identifier.le_iff_toInt]
        omega
      exact if_pos hle

/-! ### One group -/

/-- Every grant that was kept has a row before those that are left. If nothing is disturbed the rows
that were looked at have different grants, all of which were kept. -/
structure Collapsing (k : Conditions) (g : GroupId) (kept : List Grant) (rest : List Entry)
    (l : Ledger) : Prop where
  ascending : rest.Pairwise fun a b => a.id < b.id
  rows : ∀ e ∈ rest, e ∈ l.rows ∧ e.group = g
  before : ∀ x ∈ kept, ∃ v ∈ l.rows, v.toGrant = x ∧ ∀ e ∈ rest, v.id < e.id
  covered : k.Calm → ∀ x ∈ l.rows, x.group = g → x ∈ rest ∨ x.toGrant ∈ kept
  single : k.Calm → ∀ x ∈ l.rows, ∀ y ∈ l.rows, x.group = g → x.toGrant = y.toGrant →
    x ∈ rest ∨ y ∈ rest ∨ x = y

theorem Collapsing.keep (h : Collapsing k g kept (e :: rest) l) (hnew : e.toGrant ∉ kept) :
    Collapsing k g (e.toGrant :: kept) rest l := by
  obtain ⟨hlt, hrest⟩ := List.pairwise_cons.1 h.ascending
  refine ⟨hrest, fun x hx => h.rows x (List.mem_cons_of_mem _ hx), ?_, fun hk x hx hxg => ?_,
    fun hk x hx y hy hxg heq => ?_⟩
  · intro x hx
    rcases List.mem_cons.1 hx with rfl | hx
    · exact ⟨e, (h.rows e List.mem_cons_self).1, rfl, hlt⟩
    · obtain ⟨v, hv, hvx, hbefore⟩ := h.before x hx
      exact ⟨v, hv, hvx, fun y hy => hbefore y (List.mem_cons_of_mem _ hy)⟩
  · rcases h.covered hk x hx hxg with hmem | hmem
    · rcases List.mem_cons.1 hmem with rfl | hmem
      · exact .inr List.mem_cons_self
      · exact .inl hmem
    · exact .inr (List.mem_cons_of_mem _ hmem)
  · -- a row looked at before has a grant that was kept, which the grant of `e` is not
    have hbefore : ∀ z ∈ l.rows, z.group = g → z.toGrant = e.toGrant → z ∈ e :: rest := by
      intro z hz hzg hze
      refine (h.covered hk z hz hzg).resolve_right fun hmem => hnew ?_
      rwa [← hze]
    rcases h.single hk x hx y hy hxg heq with hmem | hmem | heq
    · rcases List.mem_cons.1 hmem with rfl | hmem
      · rcases List.mem_cons.1 (hbefore y hy (by rw [← heq]; exact hxg) heq.symm) with hy | hy
        · exact .inr (.inr hy.symm)
        · exact .inr (.inl hy)
      · exact .inl hmem
    · rcases List.mem_cons.1 hmem with rfl | hmem
      · rcases List.mem_cons.1 (hbefore x hx hxg heq) with hx | hx
        · exact .inr (.inr hx)
        · exact .inl hx
      · exact .inr (.inl hmem)
    · exact .inr (.inr heq)

theorem Collapsing.erase (h : Collapsing k g kept (e :: rest) l) {hrows} :
    Collapsing k g kept rest (l.withRows (l.rows.filter fun a => a.id ≠ e.id) hrows) := by
  obtain ⟨hlt, hrest⟩ := List.pairwise_cons.1 h.ascending
  have hstays : ∀ x ∈ l.rows, x.id ≠ e.id → x ∈ l.rows.filter fun a => a.id ≠ e.id := by
    intro x hx hne
    exact List.mem_filter.2 ⟨hx, by simpa using hne⟩
  have hleft : ∀ x ∈ l.rows.filter (fun a => a.id ≠ e.id), x ∈ e :: rest → x ∈ rest := by
    intro x hx hmem
    rcases List.mem_cons.1 hmem with rfl | hmem
    · simp at hx
    · exact hmem
  refine ⟨hrest, fun x hx => ?_, fun x hx => ?_, fun hk x hx hxg => ?_,
    fun hk x hx y hy hxg heq => ?_⟩
  · obtain ⟨hmem, hg⟩ := h.rows x (List.mem_cons_of_mem _ hx)
    refine ⟨hstays x hmem fun heq => ?_, hg⟩
    exact Identifier.lt_irrefl _ (heq ▸ hlt x hx)
  · obtain ⟨v, hv, hvx, hbefore⟩ := h.before x hx
    refine ⟨v, hstays v hv fun heq => ?_, hvx, fun y hy => hbefore y (List.mem_cons_of_mem _ hy)⟩
    exact Identifier.lt_irrefl _ (heq ▸ hbefore e List.mem_cons_self)
  · exact (h.covered hk x (List.mem_filter.1 hx).1 hxg).imp_left (hleft x hx)
  · rcases h.single hk x (List.mem_filter.1 hx).1 y (List.mem_filter.1 hy).1 hxg heq with
      hmem | hmem | heq
    · exact .inl (hleft x hx hmem)
    · exact .inr (.inl (hleft y hy hmem))
    · exact .inr (.inr heq)

/-- A row that could not be deleted is passed over. -/
theorem Collapsing.skip (h : Collapsing k g kept (e :: rest) l) (hk : ¬ k.Calm) :
    Collapsing k g kept rest l := by
  refine ⟨(List.pairwise_cons.1 h.ascending).2, fun x hx => h.rows x (List.mem_cons_of_mem _ hx),
    fun x hx => ?_, fun hc => (hk hc).elim, fun hc => (hk hc).elim⟩
  obtain ⟨v, hv, hvx, hbefore⟩ := h.before x hx
  exact ⟨v, hv, hvx, fun y hy => hbefore y (List.mem_cons_of_mem _ hy)⟩

/-- Deleting the rows that repeat others counts them. If nothing is disturbed no two rows of the
group have the same grant afterwards. -/
theorem deleteRepeated_meets (kept : List Grant) (removed : Nat) (items : List Entry) (a : Account)
    (h : Collapsing k g kept items a.ledger) :
    (deleteRepeated kept removed items).Meets (Account.Step k) (fun x b =>
      b.running = a.running ∧ Collapses operator view a.ledger b.ledger ∧ match x with
      | .ok n => removed ≤ n ∧
        (k.Calm → ¬ b.ledger.Repeats g ∧ (n = removed → b.ledger.rows = a.ledger.rows))
      | .error _ => ¬ k.Calm) a := by
  induction items generalizing kept removed a with
  | nil =>
    refine ⟨rfl, .refl _, Nat.le_refl _, fun hk => ⟨?_, fun _ => rfl⟩⟩
    rintro ⟨x, hx, y, hy, hlt, heq, hg⟩
    rcases h.single hk x hx y hy hg heq with hmem | hmem | rfl
    · exact List.not_mem_nil hmem
    · exact List.not_mem_nil hmem
    · exact Identifier.lt_irrefl _ hlt
  | cons e rest ih =>
    rw [deleteRepeated]
    split
    · next hnew => exact ih _ removed a (h.keep hnew)
    · next hold =>
      obtain ⟨v, hv, hve, hbefore⟩ := h.before _ (not_not.1 hold)
      have hne : v.id ≠ e.id := fun heq =>
        Identifier.lt_irrefl _ (heq ▸ hbefore e List.mem_cons_self)
      refine Account.meets_store (fun _ t hgives => ?_) fun hmay x => ?_
      · obtain ⟨-, hrows, rfl⟩ := hgives
        have herase := collapses_erase operator view (h := hrows)
          (h.rows e List.mem_cons_self).1 hv hne hve
        refine (ih kept (removed + 1) (a.after _ _) h.erase).mono ?_
        rintro (x | n) b ⟨hrunning, hcollapses, hspec⟩
        · exact ⟨hrunning, herase.trans hcollapses, hspec⟩
        · obtain ⟨hle, hcalm⟩ := hspec
          refine ⟨hrunning, herase.trans hcollapses, by omega, fun hk => ⟨(hcalm hk).1, ?_⟩⟩
          intro heq
          omega
      · have hcalm := not_calm_of_mayFail hmay
        split
        · next heq => cases heq
        · exact (ih kept removed (a.after _ a.ledger) (h.skip hcalm)).mono fun _ _ hb => hb
        · exact ⟨rfl, .refl _, hcalm⟩

theorem collapseGroup_meets (g : GroupId) (a : Account) :
    (collapseGroup g).Meets (Account.Step k) (fun x b =>
      b.running = a.running ∧ Collapses operator view a.ledger b.ledger ∧ match x with
      | .ok n => k.Calm → ¬ b.ledger.Repeats g ∧ (n = 0 → b.ledger.rows = a.ledger.rows)
      | .error _ => ¬ k.Calm) a := by
  refine Account.meets_store (fun v t hgives => ?_) fun hmay x =>
    ⟨rfl, .refl _, not_calm_of_mayFail hmay⟩
  obtain ⟨rfl, rfl⟩ := hgives
  have hascending : (a.ledger.rowsOf g).Pairwise fun a b => a.id < b.id :=
    a.ledger.ascending.filter _
  have hstart : Collapsing k g [] (a.ledger.rowsOf g) a.ledger := by
    refine ⟨hascending, fun e he => Ledger.mem_rowsOf.1 he, fun x hx => ?_,
      fun _ x hx hg => .inl (Ledger.mem_rowsOf.2 ⟨hx, hg⟩),
      fun _ x hx y hy hg _ => .inl (Ledger.mem_rowsOf.2 ⟨hx, hg⟩)⟩
    exact (List.not_mem_nil hx).elim
  dsimp only
  rw [sortRows_eq hascending]
  refine (deleteRepeated_meets operator view [] 0 _ (a.after (.store (.findGroup g)) a.ledger)
    hstart).mono ?_
  rintro (x | n) b ⟨hrunning, hcollapses, hspec⟩
  · exact ⟨hrunning, hcollapses, hspec⟩
  · exact ⟨hrunning, hcollapses, hspec.2⟩

/-! ### The phase -/

theorem collapseItem_meets {l₀ : Ledger} {r : Summary} {rest : List GroupId}
    (hsame : l₀.SameGroups a.ledger) (hrest : k.Calm → ∀ g', a.ledger.Repeats g' → g' ∈ g :: rest) :
    (collapseItem g r).Meets (Account.Step k) (fun r' b => Effect operator view k r a r' b ∧
      l₀.SameGroups b.ledger ∧ (k.Calm → ∀ g', b.ledger.Repeats g' → g' ∈ rest)) a := by
  refine (collapseGroup_meets operator view g a).bind ?_
  rintro (x | n) b ⟨hrunning, hcollapses, hspec⟩
  · exact fail_meets ⟨.disturbed hspec hcollapses.moves hrunning (Nat.le_refl _),
      hsame.trans hcollapses.same, fun hk => (hspec hk).elim⟩
  · have heffect : Effect operator view k r a
        { r with deletedDuplicateEntries := r.deletedDuplicateEntries + n } b := by
      refine ⟨hcollapses.moves, hrunning, ?_, fun _ => rfl, fun _ => rfl, fun hk heq =>
        ⟨(hspec hk).2 ?_, hcollapses.same.refs⟩⟩
      · simp only [Summary.repairs]
        omega
      · simp only [Summary.repairs] at heq
        omega
    have hleft : k.Calm → ∀ g', b.ledger.Repeats g' → g' ∈ rest := by
      intro hk g' hrep
      rcases List.mem_cons.1 (hrest hk g' (hcollapses.repeats hrep)) with rfl | hmem
      · exact ((hspec hk).1 hrep).elim
      · exact hmem
    dsimp only
    split
    · exact Account.meets_log ⟨heffect, hsame.trans hcollapses.same, hleft⟩
    · exact ⟨heffect, hsame.trans hcollapses.same, hleft⟩

/-- Collapsing leaves the groups the same, and no row that repeats another if nothing disturbs
it. -/
theorem collapseDuplicates_meets (r : Summary) (a : Account) :
    (collapseDuplicates r).Meets (Account.Step k) (fun r' b =>
      Effect operator view k r a r' b ∧ a.ledger.SameGroups b.ledger ∧
        (k.Calm → r.cancelled = false → ∀ g, ¬ b.ledger.Repeats g)) a := by
  refine checkpoint_meets ?_ fun hmay => ?_
  · split
    · next hc =>
      exact ⟨.refl r a, .refl _, fun _ hnot => Bool.noConfusion (hc.symm.trans hnot)⟩
    · refine Account.meets_store (fun groups t hgives => ?_) fun hmay x => fail_meets ?_
      · obtain ⟨-, hgroups, rfl⟩ := hgives
        refine (forItems_meets operator view (I := fun rest l => a.ledger.SameGroups l ∧
            (k.Calm → ∀ g, l.Repeats g → g ∈ rest))
          (fun g rest r b h => collapseItem_meets operator view h.1 h.2) groups r
          (a.after (.store .findDuplicateGroups) a.ledger)
          ⟨.refl _, fun _ g hg => (hgroups g).2 hg⟩).mono ?_
        rintro r' b ⟨heffect, rest, ⟨hsame, hrest⟩, hdone⟩
        refine ⟨heffect.of_after, hsame, fun hk hnot g hg => ?_⟩
        have hmem := hrest hk g hg
        rw [hdone hk hnot] at hmem
        exact List.not_mem_nil hmem
      · have hcalm := not_calm_of_mayFail hmay
        exact ⟨.disturbed hcalm .refl rfl (Nat.le_refl _), .refl _, fun hk => (hcalm hk).elim⟩
  · have hcalm : ¬ k.Calm := fun hk => hk.2 hmay
    exact ⟨.disturbed hcalm .refl rfl (Nat.le_refl _), .refl _, fun hk => (hcalm hk).elim⟩

end AccessGroups.Sweep
