import AccessGroups.Proofs.Sweep.Effect

/-!
# Splitting rows with two principals

A row with two principals becomes a row of its user and a row of its unit. If the second step fails
the user has the grant twice over. Which groups have rows does not change.

## Main definitions

* `Ledger.SameGroups`: ledgers with the same references and the same groups with rows.

## Main results

* `Sweep.splitEntry_meets`: what splitting one row can come to.
* `Sweep.splitMixed_meets`: the phase, after which no row has two principals if nothing disturbed
  it.
-/

namespace AccessGroups

/-- The references are the same, the same groups have rows, and no group identifier was handed
out. -/
structure Ledger.SameGroups (l t : Ledger) : Prop where
  refs : t.refs = l.refs
  nextGroup : t.nextGroup = l.nextGroup
  populated : ∀ g, t.Populated g ↔ l.Populated g

namespace Ledger.SameGroups

variable {l t u : Ledger}

theorem refl (l : Ledger) : l.SameGroups l :=
  ⟨rfl, rfl, fun _ => Iff.rfl⟩

theorem trans (h : l.SameGroups t) (h' : t.SameGroups u) : l.SameGroups u where
  refs := h'.refs.trans h.refs
  nextGroup := h'.nextGroup.trans h.nextGroup
  populated g := (h'.populated g).trans (h.populated g)

end Ledger.SameGroups

namespace Sweep

variable (operator : UserId) (view : View) {k : Conditions} {r : Summary} {a : Account}
  {l l₀ t : Ledger} {e v : Entry} {rest : List Entry}

/-- The user of the row has a row of its own. -/
def Lent (e : Entry) (l t : Ledger) : Prop :=
  ∃ v h, v.toGrant = e.userHalf ∧ t = l.withRows (l.rows ++ [v]) h

/-- The row has been split. -/
def Halved (e : Entry) (l t : Ledger) : Prop :=
  ∃ v h h', v.toGrant = e.userHalf ∧
    t = (l.withRows (l.rows ++ [v]) h).withRows
      (Ledger.updated (l.rows ++ [v]) { e with user := none }) h'

/-- Splitting a row with two principals succeeds, or it fails before or between the two steps. -/
theorem splitEntry_meets (hmixed : e.isMixed = true) :
    (splitEntry e).Meets (Account.Step k) (fun x b => b.running = a.running ∧ match x with
      | .ok () => Halved e a.ledger b.ledger
      | .error _ => ¬ k.Calm ∧ (b.ledger = a.ledger ∨ Lent e a.ledger b.ledger)) a := by
  rw [splitEntry]
  split
  · next user unit huser hunit =>
    have hhalf : Grant.forUser e.group user e.privileges = e.userHalf := by
      rw [Grant.userHalf, huser]
      rfl
    refine Account.meets_store (fun v t hgives => ?_) fun hmay x =>
      ⟨rfl, not_calm_of_mayFail hmay, .inl rfl⟩
    obtain ⟨hv, hrows, rfl⟩ := hgives
    rw [hhalf] at hv
    rintro (x | x) b hstep
    · obtain ⟨hmay, rfl⟩ := hstep
      exact ⟨rfl, not_calm_of_mayFail hmay, .inr ⟨v, hrows, hv, rfl⟩⟩
    · obtain ⟨t, ⟨-, hrows', rfl⟩, rfl⟩ := hstep
      exact ⟨rfl, v, hrows, hrows', hv, rfl⟩
  · next hnot =>
    obtain ⟨huser, hunit⟩ := Bool.and_eq_true_iff.1 hmixed
    obtain ⟨user, huser⟩ := Option.isSome_iff_exists.1 huser
    obtain ⟨unit, hunit⟩ := Option.isSome_iff_exists.1 hunit
    exact (hnot user unit huser hunit).elim

/-- New rows in groups that have rows leave the groups the same. -/
theorem sameGroups_append {rows : List Entry} {h} (hgroups : ∀ e ∈ rows, l.Populated e.group) :
    l.SameGroups (l.withRows (l.rows ++ rows) h) := by
  refine ⟨rfl, rfl, fun g => ⟨?_, ?_⟩⟩
  · rintro ⟨e, he, rfl⟩
    rcases List.mem_append.1 he with he | he
    · exact ⟨e, he, rfl⟩
    · exact hgroups e he
  · rintro ⟨e, he, hg⟩
    exact ⟨e, List.mem_append_left _ he, hg⟩

/-- Changing the principals of a row leaves the groups the same. -/
theorem sameGroups_updated {h} (he : e ∈ l.rows) (hid : v.id = e.id) (hgroup : v.group = e.group) :
    l.SameGroups (l.withRows (Ledger.updated l.rows v) h) := by
  refine ⟨rfl, rfl, fun g => ⟨?_, ?_⟩⟩
  · rintro ⟨x, hx, rfl⟩
    rcases Ledger.mem_updated.1 hx with ⟨hx, -⟩ | ⟨rfl, -⟩
    · exact ⟨x, hx, rfl⟩
    · exact ⟨e, he, hgroup.symm⟩
  · rintro ⟨x, hx, rfl⟩
    by_cases hne : x.id = v.id
    · have heq : x = e := l.eq_of_id_eq hx he (hne.trans hid)
      exact ⟨v, Ledger.mem_updated.2 (.inr ⟨rfl, x, hx, hne⟩), heq ▸ hgroup⟩
    · exact ⟨x, Ledger.mem_updated.2 (.inl ⟨hx, hne⟩), rfl⟩

theorem lend_moves (he : e ∈ l.rows) (hmixed : e.isMixed = true) (h : Lent e l t) :
    Moves operator view l t ∧ l.SameGroups t := by
  obtain ⟨v, hrows, hv, rfl⟩ := h
  refine ⟨.single (.lend he hmixed hv), sameGroups_append fun x hx => ?_⟩
  obtain rfl := List.mem_singleton.1 hx
  exact ⟨e, he, by rw [hv]; rfl⟩

theorem halve_moves (he : e ∈ l.rows) (hmixed : e.isMixed = true) (h : Halved e l t) :
    Moves operator view l t ∧ l.SameGroups t := by
  obtain ⟨v, hrows, hrows', hv, rfl⟩ := h
  have he' : e ∈ l.rows ++ [v] := List.mem_append_left _ he
  have hv' : v ∈ l.rows ++ [v] := List.mem_append_right _ (List.mem_singleton_self v)
  obtain ⟨hmoves, hsame⟩ := lend_moves operator view he hmixed
    ⟨v, hrows, hv, rfl⟩
  exact ⟨hmoves.tail (.clear (l := l.withRows (l.rows ++ [v]) hrows) he' hmixed hv' hv),
    hsame.trans (sameGroups_updated (l := l.withRows (l.rows ++ [v]) hrows) he' rfl rfl)⟩

/-! ### The phase -/

/-- The rows that are left to be split have two principals, and if nothing is disturbed they are all
that have. -/
structure Splitting (k : Conditions) (l₀ : Ledger) (rest : List Entry) (l : Ledger) : Prop where
  same : l₀.SameGroups l
  ascending : rest.Pairwise fun a b => a.id < b.id
  rows : ∀ e ∈ rest, e ∈ l.rows ∧ e.isMixed = true
  all : k.Calm → ∀ e ∈ l.rows, e.isMixed = true → e ∈ rest

theorem splitItem_meets (h : Splitting k l₀ (e :: rest) a.ledger) :
    (splitItem e r).Meets (Account.Step k) (fun r' b =>
      Effect operator view k r a r' b ∧ Splitting k l₀ rest b.ledger) a := by
  obtain ⟨he, hmixed⟩ := h.rows e List.mem_cons_self
  obtain ⟨hlt, hrest⟩ := List.pairwise_cons.1 h.ascending
  have hrows : ∀ x ∈ rest, x ∈ a.ledger.rows ∧ x.isMixed = true := fun x hx =>
    h.rows x (List.mem_cons_of_mem _ hx)
  refine (splitEntry_meets hmixed).bind ?_
  rintro (x | ⟨⟩) b ⟨hrunning, hspec⟩
  · obtain ⟨hcalm, hspec⟩ := hspec
    refine fail_meets ?_
    rcases hspec with hsame | hlent
    · refine ⟨.disturbed hcalm (hsame ▸ .refl) hrunning (Nat.le_refl _), ?_⟩
      rw [hsame]
      exact ⟨h.same, hrest, hrows, fun hk => (hcalm hk).elim⟩
    · obtain ⟨hmoves, hsame⟩ := lend_moves operator view he hmixed hlent
      refine ⟨.disturbed hcalm hmoves hrunning (Nat.le_refl _), h.same.trans hsame, hrest,
        fun x hx => ⟨?_, (hrows x hx).2⟩, fun hk => (hcalm hk).elim⟩
      obtain ⟨v, hv, -, hlent⟩ := hlent
      rw [hlent]
      exact List.mem_append_left _ (hrows x hx).1
  · refine Account.meets_log ?_
    obtain ⟨hmoves, hsame⟩ := halve_moves operator view he hmixed hspec
    obtain ⟨v, hv, hv', hhalf, hspec⟩ := hspec
    have hcount : r.repairs < { r with splitEntries := r.splitEntries + 1 }.repairs := by
      simp only [Summary.repairs]
      omega
    refine ⟨.counted hmoves hrunning hcount rfl rfl, h.same.trans hsame, hrest, fun x hx => ?_,
      fun hk x hx hxm => ?_⟩
    · rw [hspec]
      refine ⟨Ledger.mem_updated.2 (.inl ⟨List.mem_append_left _ (hrows x hx).1, fun heq => ?_⟩),
        (hrows x hx).2⟩
      exact Identifier.lt_irrefl _ (heq ▸ hlt x hx)
    · rw [hspec] at hx
      rcases Ledger.mem_updated.1 hx with ⟨hx, hne⟩ | ⟨rfl, -⟩
      · rcases List.mem_append.1 hx with hx | hx
        · rcases List.mem_cons.1 (h.all hk x hx hxm) with rfl | hx
          · exact (hne rfl).elim
          · exact hx
        · obtain rfl := List.mem_singleton.1 hx
          rw [hhalf] at hxm
          simp [Grant.isMixed, Grant.userHalf] at hxm
      · simp [Grant.isMixed] at hxm

/-- Splitting leaves the groups the same, and no row with two principals if nothing disturbs it. -/
theorem splitMixed_meets (r : Summary) (a : Account) :
    (splitMixed r).Meets (Account.Step k) (fun r' b => Effect operator view k r a r' b ∧
      a.ledger.SameGroups b.ledger ∧ (k.Calm → r.cancelled = false → b.ledger.Unmixed)) a := by
  refine checkpoint_meets ?_ fun hmay => ?_
  · split
    · next hc =>
      exact ⟨.refl r a, .refl _, fun _ hnot => Bool.noConfusion (hc.symm.trans hnot)⟩
    · refine Account.meets_store (fun mixed t hgives => ?_) fun hmay x => fail_meets ?_
      · obtain ⟨rfl, rfl⟩ := hgives
        have hstart : Splitting k a.ledger (a.ledger.rows.filter fun e => e.isMixed) a.ledger := by
          refine ⟨.refl _, a.ledger.ascending.filter _, fun e he => ?_, fun _ e he hm => ?_⟩
          · simpa using he
          · simpa using ⟨he, hm⟩
        refine (forItems_meets operator view (I := Splitting k a.ledger)
          (fun e rest r a h => splitItem_meets operator view h) _ r
          (a.after (.store .findMixed) a.ledger) hstart).mono ?_
        rintro r' b ⟨heffect, rest, hsplit, hdone⟩
        refine ⟨heffect.of_after, hsplit.same, fun hk hnot e he => ?_⟩
        refine Bool.eq_false_iff.2 fun hm => ?_
        have hmem := hsplit.all hk e he hm
        rw [hdone hk hnot] at hmem
        exact List.not_mem_nil hmem
      · have hcalm := not_calm_of_mayFail hmay
        exact ⟨.disturbed hcalm .refl rfl (Nat.le_refl _), .refl _, fun hk => (hcalm hk).elim⟩
  · have hcalm : ¬ k.Calm := fun hk => hk.2 hmay
    exact ⟨.disturbed hcalm .refl rfl (Nat.le_refl _), .refl _, fun hk => (hcalm hk).elim⟩

end Sweep

end AccessGroups
