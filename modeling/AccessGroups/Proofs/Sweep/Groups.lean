import AccessGroups.Proofs.Sweep.Effect
import AccessGroups.Proofs.Sweep.Underway

/-!
# Missing groups and orphans

A group that is referred to but has no rows gets the row made up for the operator, and a group that
nothing refers to loses its rows. A group that the scan saw as missing can have got rows since, as a
copy of it can have been made for a resource; a group that the scan saw as an orphan is one still.

## Main results

* `Sweep.createMissing_meets`: what making up a row for one group can come to.
* `Sweep.createMissingGroups_meets`, `Sweep.deleteOrphans_meets`: the phases, after which exactly
  the groups that are referred to have rows if nothing disturbed them.
-/

namespace AccessGroups.Sweep

variable (operator : UserId) {view : View} {s : Scan} {k : Conditions} {r : Summary}
  {a : Account} {l l₀ t : Ledger} {g : GroupId} {rest : List GroupId}

/-! ### Missing groups -/

/-- The row that a sweep makes up passes the rules for rows. -/
theorem validate_fallback (hg : g.IsValid) : (fallback operator g).validate = .ok () := by
  have hgroup : (fallback operator g).group.IsValid := hg
  rw [Grant.validate, if_neg (not_not.2 hgroup)]
  rfl

/-- A row is made up, or the group has rows already, or a call failed. -/
theorem createMissing_meets (a : Account) (hg : g.IsValid) :
    (createMissing operator g).Meets (Account.Step k) (fun x b =>
      b.running = a.running ∧ match x with
      | .ok true => ¬ a.ledger.Populated g ∧ ∃ v h, v.toGrant = fallback operator g ∧
        b.ledger = a.ledger.withRows (a.ledger.rows ++ [v]) h
      | .ok false => a.ledger.Populated g ∧ b.ledger = a.ledger
      | .error _ => ¬ k.Calm ∧ b.ledger = a.ledger) a := by
  refine Account.meets_store (fun v t hgives => ?_) fun hmay e =>
    ⟨rfl, not_calm_of_mayFail hmay, rfl⟩
  obtain ⟨rfl, rfl⟩ := hgives
  dsimp only
  split
  · next hrows =>
    have hne : a.ledger.rowsOf g ≠ [] := by simpa [List.isEmpty_iff] using hrows
    exact ⟨rfl, not_not.1 (mt Ledger.rowsOf_eq_nil_iff.2 hne), rfl⟩
  · next hrows =>
    have hnil : a.ledger.rowsOf g = [] := by simpa [List.isEmpty_iff] using hrows
    rw [Groups.create, validate_fallback operator hg, bind_assoc]
    refine Account.meets_store (fun v t hgives => ?_) fun hmay e =>
      ⟨rfl, not_calm_of_mayFail hmay, rfl⟩
    obtain ⟨hv, hrows', rfl⟩ := hgives
    exact Account.meets_log ⟨rfl, Ledger.rowsOf_eq_nil_iff.1 hnil, v, hrows', hv, rfl⟩

theorem populated_append {v : Entry} {h} (hv : v.group = g) (g' : GroupId) :
    (l.withRows (l.rows ++ [v]) h).Populated g' ↔ l.Populated g' ∨ g' = g := by
  simp only [Ledger.Populated, Ledger.rows_withRows, List.mem_append, List.mem_singleton,
    or_and_right, exists_or, exists_eq_left, hv]
  rw [eq_comm (a := g)]

/-- The groups that are left were seen as missing, and in complete view of the references they are
all that have no rows if nothing is disturbed. -/
structure Creating (view : View) (k : Conditions) (s : Scan) (l₀ : Ledger)
    (rest : List GroupId) (l : Ledger) : Prop where
  underway : Underway view s l
  refs : l.refs = l₀.refs
  seen : ∀ g ∈ rest, g ∈ s.referenced
  tended : k.Calm → view.complete → Tended rest s.orphans l

theorem createItem_meets (h : Creating view k s l₀ (g :: rest) a.ledger) :
    (createItem operator g r).Meets (Account.Step k) (fun r' b =>
      Effect operator view k r a r' b ∧ Creating view k s l₀ rest b.ledger) a := by
  have hseen : g ∈ s.referenced := h.seen g List.mem_cons_self
  have hvalid : g.IsValid := h.underway.valid g hseen
  have hrest : ∀ g' ∈ rest, g' ∈ s.referenced := fun g' hg' =>
    h.seen g' (List.mem_cons_of_mem _ hg')
  refine (createMissing_meets operator a hvalid).bind ?_
  rintro (e | _ | _) b ⟨hrunning, hspec⟩
  · obtain ⟨hcalm, hsame⟩ := hspec
    refine fail_meets ⟨.disturbed hcalm (hsame ▸ .refl) hrunning (Nat.le_refl _), ?_⟩
    rw [hsame]
    exact ⟨h.underway, h.refs, hrest, fun hk => (hcalm hk).elim⟩
  · obtain ⟨hrows, hsame⟩ := hspec
    refine Account.meets_log ⟨⟨hsame ▸ .refl, hrunning, Nat.le_refl _, fun _ => rfl, fun _ => rfl,
      fun _ _ => hsame ▸ ⟨rfl, rfl⟩⟩, ?_⟩
    rw [hsame]
    refine ⟨h.underway, h.refs, hrest, fun hk hc => ⟨fun g' hv hg' => ?_,
      (h.tended hk hc).accounted⟩⟩
    rcases (h.tended hk hc).covered g' hv hg' with hrows' | hmem
    · exact .inl hrows'
    · rcases List.mem_cons.1 hmem with rfl | hmem
      · exact .inl hrows
      · exact .inr hmem
  · obtain ⟨hrows, v, hrows', hv, hledger⟩ := hspec
    have hcount : r.repairs < { r with createdGroups := r.createdGroups + 1 }.repairs := by
      simp only [Summary.repairs]
      omega
    have hgroup : v.group = g := by rw [hv]; rfl
    refine Account.meets_log ⟨.counted (hledger ▸ .single (.create hvalid hrows hv)) hrunning hcount
      rfl rfl, ?_⟩
    rw [hledger]
    have hunderway := h.underway.of_refs_eq (t := a.ledger.withRows (a.ledger.rows ++ [v]) hrows')
      rfl (Int.le_refl _) fun g' hg' => (populated_append hgroup g').2 (.inl hg')
    refine ⟨hunderway, h.refs, hrest, fun hk hc => ⟨fun g' hv hg' => ?_, fun g' hg' => ?_⟩⟩
    · rcases (h.tended hk hc).covered g' hv hg' with hold | hmem
      · exact .inl ((populated_append hgroup g').2 (.inl hold))
      · rcases List.mem_cons.1 hmem with rfl | hmem
        · exact .inl ((populated_append hgroup g').2 (.inr rfl))
        · exact .inr hmem
    · rcases (populated_append hgroup g').1 hg' with hold | rfl
      · exact (h.tended hk hc).accounted g' hold
      · exact .inr ⟨hvalid, hunderway.kept hc g' hseen⟩

/-- Making up rows leaves the sweep under way and the references alone. In complete view of these it
leaves no valid group that is referred to without rows if nothing disturbs it. -/
theorem createMissingGroups_meets (r : Summary) (a : Account)
    (h : Creating view k s a.ledger s.missing a.ledger) :
    (createMissingGroups operator s r).Meets (Account.Step k) (fun r' b =>
      Effect operator view k r a r' b ∧ Underway view s b.ledger ∧
        b.ledger.refs = a.ledger.refs ∧
          (k.Calm → r.cancelled = false → view.complete → Tended [] s.orphans b.ledger)) a := by
  refine (forItems_meets operator view (I := Creating view k s a.ledger)
    (fun g rest r b hb => createItem_meets operator hb) _ r a h).mono ?_
  rintro r' b ⟨heffect, rest, hb, hdone⟩
  refine ⟨heffect, hb.underway, hb.refs, fun hk hnot hc => ?_⟩
  have htended := hb.tended hk hc
  rwa [hdone hk hnot] at htended

/-! ### Orphans -/

/-- The groups that are left are not valid or nothing refers to them. In complete view of the
references they are all such groups that have rows if nothing is disturbed. -/
structure Deleting (view : View) (k : Conditions) (l₀ : Ledger) (rest : List GroupId)
    (l : Ledger) : Prop where
  refs : l.refs = l₀.refs
  unreferred : ∀ g ∈ rest, ¬ (g.IsValid ∧ l.Refers g)
  tended : k.Calm → view.complete → Tended [] rest l

theorem deleteItem_meets (h : Deleting view k l₀ (g :: rest) a.ledger) :
    (deleteItem g r).Meets (Account.Step k) (fun r' b =>
      Effect operator view k r a r' b ∧ Deleting view k l₀ rest b.ledger) a := by
  have hg := h.unreferred g List.mem_cons_self
  have hrest : ∀ g' ∈ rest, ¬ (g'.IsValid ∧ a.ledger.Refers g') := fun g' hg' =>
    h.unreferred g' (List.mem_cons_of_mem _ hg')
  refine Account.meets_store (fun removed t hgives => ?_) fun hmay e => ?_
  · obtain ⟨hremoved, hrows, rfl⟩ := hgives
    have hmoves : Moves operator view a.ledger
        (a.ledger.withRows (a.ledger.rows.filter fun x => x.group ≠ g) hrows) :=
      .single (.drop hg)
    have hafter : Deleting view k l₀ rest
        (a.ledger.withRows (a.ledger.rows.filter fun x => x.group ≠ g) hrows) := by
      refine ⟨h.refs, hrest, fun hk hc => ⟨fun g' hv hg' => .inl ?_, ?_⟩⟩
      · rcases (h.tended hk hc).covered g' hv hg' with ⟨e, he, rfl⟩ | hmem
        · refine ⟨e, List.mem_filter.2 ⟨he, ?_⟩, rfl⟩
          have hne : e.group ≠ g := fun heq => hg (heq ▸ ⟨hv, hg'⟩)
          simpa using hne
        · exact (List.not_mem_nil hmem).elim
      · rintro g' ⟨e, he, rfl⟩
        obtain ⟨he, hne⟩ := List.mem_filter.1 he
        rcases (h.tended hk hc).accounted e.group ⟨e, he, rfl⟩ with hmem | hright
        · exact .inl ((List.mem_cons.1 hmem).resolve_left (by simpa using hne))
        · exact .inr hright
    dsimp only
    split
    · next hzero =>
      have hnil : a.ledger.rowsOf g = [] := List.length_eq_zero_iff.1 (hremoved ▸ hzero)
      have hkeep := Ledger.filter_group_ne (Ledger.rowsOf_eq_nil_iff.1 hnil)
      exact Account.meets_log ⟨⟨hmoves, rfl, Nat.le_refl _, fun _ => rfl, fun _ => rfl,
        fun _ _ => ⟨hkeep, rfl⟩⟩, hafter⟩
    · have hcount : r.repairs < { r with
          deletedOrphanGroups := r.deletedOrphanGroups + 1 }.repairs := by
        simp only [Summary.repairs]
        omega
      exact Account.meets_log ⟨.counted hmoves rfl hcount rfl rfl, hafter⟩
  · have hcalm := not_calm_of_mayFail hmay
    have heffect (r' : Summary) (hr : r.repairs ≤ r'.repairs) :
        Effect operator view k r a r' (a.after (.store (.deleteGroup g)) a.ledger) :=
      .disturbed hcalm .refl rfl hr
    have hafter : Deleting view k l₀ rest a.ledger := ⟨h.refs, hrest, fun hk => (hcalm hk).elim⟩
    split
    · next heq => cases heq
    · exact Account.meets_log ⟨heffect r (Nat.le_refl _), hafter⟩
    · exact fail_meets ⟨heffect _ (Nat.le_refl _), hafter⟩

/-- Deleting orphans leaves the references alone. In complete view of these exactly the groups that
are valid and referred to have rows afterwards if nothing disturbs it. -/
theorem deleteOrphans_meets (r : Summary) (a : Account)
    (h : Deleting view k a.ledger s.orphans a.ledger) :
    (deleteOrphans s r).Meets (Account.Step k) (fun r' b =>
      Effect operator view k r a r' b ∧ b.ledger.refs = a.ledger.refs ∧
        (k.Calm → r.cancelled = false → view.complete → Tended [] [] b.ledger)) a := by
  refine (forItems_meets operator view (I := Deleting view k a.ledger)
    (fun g rest r b hb => deleteItem_meets operator hb) _ r a h).mono ?_
  rintro r' b ⟨heffect, rest, hb, hdone⟩
  refine ⟨heffect, hb.refs, fun hk hnot hc => ?_⟩
  have htended := hb.tended hk hc
  rwa [hdone hk hnot] at htended

end AccessGroups.Sweep
