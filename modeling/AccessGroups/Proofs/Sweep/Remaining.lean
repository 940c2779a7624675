import AccessGroups.Proofs.Sweep.Duplicates
import AccessGroups.Proofs.Sweep.Outcome
import AccessGroups.Proofs.Sweep.Run

/-!
# The rows that a sweep leaves

A sweep that nothing disturbs does four things to the rows, one after another. A row with two
principals loses its user, who gets a row of its own above all others. Rows are added to groups that
had none. The rows of the groups are deleted that nothing refers to. Of the rows with the same grant
the one with the lowest identifier is left. So the rows of a group that had some before are known
afterwards but for the identifiers of the new rows, whatever the resources are, and whether or not
some kinds share a table.

## Main definitions

* `Entry.settled`: a row after rows with two principals have been split.
* `Sweep.Divided`, `Sweep.Appends`: the rows after the first phase, and after the next two.
* `Sweep.Remaining`: the rows after a sweep of the groups that had some before.

## Main results

* `Sweep.splitMixed_calm`, `Sweep.reassignShared_calm`, `Sweep.createMissingGroups_calm`,
  `Sweep.deleteOrphans_calm`, `Sweep.collapseDuplicates_calm`: what each phase does to the rows.
* `Sweep.runOnce_calm`: what a sweep leaves, and how many rows it reports.
* `Sweep.Remaining.mem_iff_of_mem`, `Sweep.Remaining.exists_right_iff`: which rows are as before,
  and which rights a group gives.
-/

namespace AccessGroups

namespace Entry

variable {e : Entry}

/-- The row after it has been split: of two principals it has lost the user. -/
def settled (e : Entry) : Entry :=
  if e.isMixed then { e with user := none } else e

theorem settled_of_mixed (h : e.isMixed = true) : e.settled = { e with user := none } :=
  if_pos h

theorem settled_of_unmixed (h : e.isMixed = false) : e.settled = e := by
  rw [settled, h]
  rfl

@[simp] theorem id_settled (e : Entry) : e.settled.id = e.id := by
  rw [settled]
  split <;> rfl

@[simp] theorem group_settled (e : Entry) : e.settled.group = e.group := by
  rw [settled]
  split <;> rfl

@[simp] theorem isMixed_settled (e : Entry) : e.settled.isMixed = false := by
  rw [settled]
  split
  · exact Grant.isMixed_unitHalf e.toGrant
  · next h => exact Bool.eq_false_iff.2 h

/-- A split row gives some of what it gave before. -/
theorem right_settled_mem (e : Entry) : e.settled.right ∈ e.rights := by
  cases h : e.isMixed with
  | false =>
    rw [settled_of_unmixed h, Grant.rights_of_unmixed h]
    exact List.mem_singleton_self _
  | true =>
    rw [settled_of_mixed h, Grant.rights_of_mixed h]
    exact List.mem_cons_of_mem _ (List.mem_singleton_self _)

end Entry

/-- The report of a sweep that goes on with as many rows that let nobody in. -/
structure Summary.Continues (r r' : Summary) : Prop where
  cancelled : r'.cancelled = r.cancelled
  unrepairableEntries : r'.unrepairableEntries = r.unrepairableEntries

namespace Summary.Continues

variable {r r' r'' : Summary}

theorem refl (r : Summary) : r.Continues r :=
  ⟨rfl, rfl⟩

theorem trans (h : r.Continues r') (h' : r'.Continues r'') : r.Continues r'' :=
  ⟨h'.cancelled.trans h.cancelled, h'.unrepairableEntries.trans h.unrepairableEntries⟩

end Summary.Continues

namespace Sweep

open Entry (collapsed)

variable {operator : UserId} {k : Conditions} {s : Scan} {r : Summary} {a : Account}
  {l t u : Ledger} {e : Entry} {g : GroupId}

/-! ### Phases that nothing disturbs -/

/-- A phase that nothing disturbs handles all of its items, if handling the first of those that are
left keeps what is known of them and of the ledger. -/
theorem forItems_calm (hk : k.Calm) {ι : Type} {handle : ι → Summary → Prog Summary}
    {I : List ι → Ledger → Prop}
    (hitem : ∀ item rest r a, I (item :: rest) a.ledger → (handle item r).Meets (Account.Step k)
      (fun r' b => r.Continues r' ∧ I rest b.ledger) a)
    (items : List ι) (r : Summary) (a : Account) (hr : r.cancelled = false)
    (h : I items a.ledger) : (forItems handle items r).Meets (Account.Step k)
      (fun r' b => r.Continues r' ∧ I [] b.ledger) a := by
  induction items generalizing r a with
  | nil => exact ⟨.refl r, h⟩
  | cons item rest ih =>
    refine checkpoint_meets ?_ fun hmay => (hk.2 hmay).elim
    rw [hr]
    refine (hitem item rest r a h).bind ?_
    rintro r₁ b ⟨hr₁, hI⟩
    refine (ih r₁ b (hr₁.cancelled.trans hr) hI).mono ?_
    rintro r₂ c ⟨hr₂, hdone⟩
    exact ⟨hr₁.trans hr₂, hdone⟩

/-! ### Rows with two principals -/

/-- The rows with two principals have been split, but for those that are left. -/
def Divided (l : Ledger) (rest : List Entry) (t : Ledger) : Prop :=
  ∃ done halves : List Entry, l.rows.filter (fun e => e.isMixed) = done ++ rest ∧
    halves.map Entry.toGrant = done.map (fun e => e.userHalf) ∧
    t.rows = (l.rows.map fun e => if e ∈ rest then e else e.settled) ++ halves

theorem divided_start (l : Ledger) : Divided l (l.rows.filter fun e => e.isMixed) l := by
  refine ⟨[], [], rfl, rfl, ?_⟩
  have hsame : ∀ e ∈ l.rows,
      (if e ∈ l.rows.filter (fun e => e.isMixed) then e else e.settled) = e := by
    intro e he
    split
    · rfl
    · next hnot =>
      exact Entry.settled_of_unmixed (Bool.eq_false_iff.2 fun h => hnot (List.mem_filter.2 ⟨he, h⟩))
  rw [List.append_nil, List.map_congr_left hsame, List.map_id']

/-- Splitting the first of the rows that are left. -/
theorem Divided.halve {rest : List Entry} (h : Divided l (e :: rest) t) (hsplit : Halved e t u) :
    Divided l rest u := by
  obtain ⟨done, halves, hitems, hhalves, hrows⟩ := h
  obtain ⟨v, hv, -, hhalf, rfl⟩ := hsplit
  have hmem : e ∈ l.rows.filter fun e => e.isMixed :=
    hitems ▸ List.mem_append_right _ List.mem_cons_self
  obtain ⟨he, hmixed⟩ := List.mem_filter.1 hmem
  have hnot : e ∉ rest := by
    have hnodup := (Identifier.nodup_of_pairwise_lt l.ascending).filter fun e => e.isMixed
    rw [hitems] at hnodup
    exact (List.nodup_cons.1 (List.nodup_append.1 hnodup).2.1).1
  refine ⟨done ++ [e], halves ++ [v], by simpa using hitems, by simp [hhalves, hhalf], ?_⟩
  rw [hrows, List.append_assoc] at hv
  have hnew : ∀ x ∈ halves ++ [v], x.id ≠ e.id := by
    intro x hx heq
    have hlt := (List.pairwise_append.1 hv).2.2 e (List.mem_map.2 ⟨e, he, by simp⟩) x hx
    exact Identifier.lt_irrefl _ (heq ▸ hlt)
  rw [Ledger.rows_withRows, hrows, List.append_assoc, Ledger.updated, List.map_append, List.map_map]
  congr 1
  · refine List.map_congr_left fun x hx => ?_
    by_cases hxe : x = e
    · subst hxe
      simp [hnot, Entry.settled_of_mixed hmixed]
    · have hsame : (if x ∈ e :: rest then x else x.settled) =
          if x ∈ rest then x else x.settled := by simp [hxe]
      have hid : (if x ∈ rest then x else x.settled).id ≠ e.id := by
        rw [apply_ite Entry.id, Entry.id_settled, ite_self]
        exact fun heq => hxe (l.eq_of_id_eq hx he heq)
      rw [Function.comp_apply, hsame]
      exact if_neg hid
  · exact (List.map_congr_left fun x hx => if_neg (hnew x hx)).trans (List.map_id' _)

theorem splitItem_calm (hk : k.Calm) {rest : List Entry} (h : Divided l (e :: rest) a.ledger) :
    (splitItem e r).Meets (Account.Step k)
      (fun r' b => r.Continues r' ∧ Divided l rest b.ledger) a := by
  have hmixed : e.isMixed = true := by
    obtain ⟨done, -, hitems, -⟩ := h
    have hmem : e ∈ l.rows.filter fun e => e.isMixed :=
      hitems ▸ List.mem_append_right _ List.mem_cons_self
    exact (List.mem_filter.1 hmem).2
  refine (splitEntry_meets hmixed).bind ?_
  rintro (x | ⟨⟩) b ⟨-, hspec⟩
  · exact (hspec.1 hk).elim
  · exact Account.meets_log ⟨⟨rfl, rfl⟩, h.halve hspec⟩

theorem splitMixed_calm (hk : k.Calm) (r : Summary) (a : Account) (hr : r.cancelled = false) :
    (splitMixed r).Meets (Account.Step k)
      (fun r' b => r.Continues r' ∧ Divided a.ledger [] b.ledger) a := by
  refine checkpoint_meets ?_ fun hmay => (hk.2 hmay).elim
  rw [hr]
  refine Account.meets_store (fun mixed t hgives => ?_) fun hmay => (hk.1 _ hmay).elim
  obtain ⟨rfl, rfl⟩ := hgives
  exact forItems_calm hk (I := Divided a.ledger) (fun e rest r b hb => splitItem_calm hk hb) _ r
    (a.after _ a.ledger) hr (divided_start a.ledger)

/-! ### Groups that get rows -/

/-- Rows were added to groups that had none. -/
def Appends (l t : Ledger) : Prop :=
  ∃ added : List Entry, t.rows = l.rows ++ added ∧ ∀ e ∈ added, ¬ l.Populated e.group

theorem Appends.of_rows_eq (h : t.rows = l.rows) : Appends l t :=
  ⟨[], by rw [h, List.append_nil], fun _ he => (List.not_mem_nil he).elim⟩

theorem Appends.trans (h : Appends l t) (h' : Appends t u) : Appends l u := by
  obtain ⟨v, hrows, hv⟩ := h
  obtain ⟨v', hrows', hv'⟩ := h'
  refine ⟨v ++ v', by rw [hrows', hrows, List.append_assoc], fun e he => ?_⟩
  rcases List.mem_append.1 he with he | he
  · exact hv e he
  · rintro ⟨x, hx, hg⟩
    exact hv' e he ⟨x, hrows ▸ List.mem_append_left _ hx, hg⟩

/-- A resource gets a group with new rows. -/
theorem reassign_calm (hk : k.Calm) (kind : ResourceKind) (resource : ResourceId) (a : Account) :
    (reassign operator s kind resource).Meets (Account.Step k)
      (fun _ b => Appends a.ledger b.ledger) a := by
  refine Account.meets_registry (fun g t hgives => ?_) fun hmay => (hk.1 _ hmay).elim
  obtain ⟨-, rfl⟩ := hgives
  refine (allocateUnreferenced_meets operator .whole (a.after _ a.ledger)).bind ?_
  rintro (e | f) b ⟨-, hrows, -, hfound⟩
  · exact (hfound hk).elim
  obtain ⟨hfresh, -⟩ := hfound
  refine (readGroup_meets g b).bind ?_
  rintro (e | source) c ⟨hlooked, hsource⟩
  · exact (hsource hk).elim
  refine Account.meets_store (fun v t hgives => ?_) fun hmay => (hk.1 _ hmay).elim
  obtain ⟨hv, -, hfill, rfl⟩ := hgives
  refine Account.meets_registry (fun _ t hgives => ?_) fun hmay => (hk.1 _ hmay).elim
  obtain ⟨-, rfl⟩ := hgives
  have hsame : c.ledger.rows = a.ledger.rows := hlooked.ledger ▸ hrows
  have hnone : ¬ c.ledger.Populated f := hlooked.ledger ▸ hfresh.rows
  refine ⟨v, ?_, fun e he => ?_⟩
  · change (c.ledger.rows.filter fun x => x.group ≠ f) ++ v = _
    rw [Ledger.filter_group_ne hnone, hsame]
  · have hgroup : e.group = f :=
      group_of_mem_copies (hv ▸ List.mem_map_of_mem he : e.toGrant ∈ copies operator source f)
    rw [hgroup, Ledger.Populated, ← hsame]
    exact hnone

theorem reassignShared_calm (hk : k.Calm) (r : Summary) (a : Account) (hr : r.cancelled = false) :
    (reassignShared operator s r).Meets (Account.Step k)
      (fun r' b => r.Continues r' ∧ Appends a.ledger b.ledger) a := by
  refine forItems_calm hk (I := fun _ t => Appends a.ledger t) (fun i rest r b hb => ?_) _ r a hr
    (.of_rows_eq rfl)
  refine (reassign_calm hk i.1 i.2 b).bind ?_
  rintro (e | _ | ⟨old, new⟩) c hc
  · exact fail_meets ⟨⟨rfl, rfl⟩, hb.trans hc⟩
  · exact Account.meets_log ⟨.refl r, hb.trans hc⟩
  · exact Account.meets_log ⟨⟨rfl, rfl⟩, hb.trans hc⟩

theorem createItem_calm (hg : g.IsValid) (r : Summary) (a : Account) :
    (createItem operator g r).Meets (Account.Step k)
      (fun r' b => r.Continues r' ∧ Appends a.ledger b.ledger) a := by
  refine (createMissing_meets operator a hg).bind ?_
  rintro (e | _ | _) b ⟨-, hspec⟩
  · exact fail_meets ⟨⟨rfl, rfl⟩, .of_rows_eq (by rw [hspec.2])⟩
  · exact Account.meets_log ⟨.refl r, .of_rows_eq (by rw [hspec.2])⟩
  · obtain ⟨hnone, v, hrows, hv, hledger⟩ := hspec
    refine Account.meets_log ⟨⟨rfl, rfl⟩, [v], by rw [hledger]; rfl, fun e he => ?_⟩
    obtain rfl := List.mem_singleton.1 he
    rw [hv]
    exact hnone

theorem createMissingGroups_calm (hk : k.Calm) (hvalid : ∀ g ∈ s.missing, g.IsValid) (r : Summary)
    (a : Account) (hr : r.cancelled = false) :
    (createMissingGroups operator s r).Meets (Account.Step k)
      (fun r' b => r.Continues r' ∧ Appends a.ledger b.ledger) a := by
  refine (forItems_calm hk
    (I := fun rest t => (∀ g ∈ rest, g.IsValid) ∧ Appends a.ledger t)
    (fun g rest r b hb => ?_) _ r a hr ⟨hvalid, .of_rows_eq rfl⟩).mono
      fun r' b h => ⟨h.1, h.2.2⟩
  obtain ⟨hg, hrest⟩ := List.forall_mem_cons.1 hb.1
  exact (createItem_calm hg r b).mono fun r' c h => ⟨h.1, hrest, hb.2.trans h.2⟩

/-! ### Groups that go -/

/-- The rows of the orphans are gone. -/
theorem deleteOrphans_calm (hk : k.Calm) (r : Summary) (a : Account) (hr : r.cancelled = false) :
    (deleteOrphans s r).Meets (Account.Step k) (fun r' b => r.Continues r' ∧
      b.ledger.rows = a.ledger.rows.filter fun e => e.group ∉ s.orphans) a := by
  refine (forItems_calm hk (I := fun rest t => (t.rows.filter fun e => e.group ∉ rest) =
    a.ledger.rows.filter fun e => e.group ∉ s.orphans) (fun g rest r b hb => ?_) _ r a hr rfl).mono
      fun r' b h => ⟨h.1, by simpa using h.2⟩
  refine Account.meets_store (fun removed t hgives => ?_) fun hmay => (hk.1 _ hmay).elim
  obtain ⟨-, hrows, rfl⟩ := hgives
  have hafter : ((b.ledger.rows.filter fun e => e.group ≠ g).filter fun e => e.group ∉ rest) =
      a.ledger.rows.filter fun e => e.group ∉ s.orphans := by
    rw [← hb, List.filter_filter]
    refine List.filter_congr fun e _ => ?_
    simp [Bool.and_comm]
  dsimp only
  split
  · exact Account.meets_log ⟨.refl r, hafter⟩
  · exact Account.meets_log ⟨⟨rfl, rfl⟩, hafter⟩

/-! ### Rows that repeat one another -/

/-- The rows are deleted. -/
theorem deleteEach_calm (hk : k.Calm) (removed : Nat) (items : List Entry) (a : Account)
    (hitems : ∀ e ∈ items, e ∈ a.ledger.rows)
    (hascending : items.Pairwise fun a b => a.id < b.id) :
    (deleteEach removed items).Meets (Account.Step k) (fun x b => (∃ n, x = .ok n) ∧
      b.ledger.rows = a.ledger.rows.filter fun e => e ∉ items) a := by
  induction items generalizing removed a with
  | nil => exact ⟨⟨_, rfl⟩, by simp⟩
  | cons e rest ih =>
    obtain ⟨hlt, hrest⟩ := List.pairwise_cons.1 hascending
    obtain ⟨he, hrows⟩ := List.forall_mem_cons.1 hitems
    refine Account.meets_store (fun _ t hgives => ?_) fun hmay => (hk.1 _ hmay).elim
    obtain ⟨-, hrows', rfl⟩ := hgives
    have hthere : ∀ x ∈ rest, x ∈ a.ledger.rows.filter fun x => x.id ≠ e.id := by
      intro x hx
      have hne : x.id ≠ e.id := fun heq => Identifier.lt_irrefl _ (heq ▸ hlt x hx)
      exact List.mem_filter.2 ⟨hrows x hx, by simpa using hne⟩
    refine (ih (removed + 1) (a.after _ (a.ledger.withRows _ hrows')) hthere hrest).mono ?_
    rintro x b ⟨hx, hb⟩
    refine ⟨hx, hb.trans ?_⟩
    rw [Account.ledger_after, Ledger.rows_withRows, List.filter_filter]
    refine List.filter_congr fun x hx => ?_
    have hid : x.id = e.id ↔ x = e := ⟨a.ledger.eq_of_id_eq hx he, fun heq => by rw [heq]⟩
    simp [hid, Bool.and_comm]

/-- The rows of the group that are repeated are gone. -/
theorem collapseItem_calm (hk : k.Calm) (g : GroupId) (r : Summary) (a : Account) :
    (collapseItem g r).Meets (Account.Step k) (fun r' b => r.Continues r' ∧
      b.ledger.rows = collapsed (· = g) a.ledger.rows) a := by
  have hascending : (a.ledger.rowsOf g).Pairwise fun a b => a.id < b.id :=
    a.ledger.ascending.filter _
  have hgroup : (collapseGroup g).Meets (Account.Step k) (fun x b => (∃ n, x = .ok n) ∧
      b.ledger.rows = collapsed (· = g) a.ledger.rows) a := by
    refine Account.meets_store (fun v t hgives => ?_) fun hmay => (hk.1 _ hmay).elim
    obtain ⟨rfl, rfl⟩ := hgives
    dsimp only
    rw [sortRows_eq hascending, deleteRepeated_eq, Ledger.rowsOf, repeated_group a.ledger.ascending]
    refine (deleteEach_calm hk 0 _ (a.after _ a.ledger) (fun e he => (List.mem_filter.1 he).1)
      (a.ledger.ascending.filter _)).mono fun x b h => ⟨h.1, h.2.trans ?_⟩
    rw [Account.ledger_after]
    refine List.filter_congr fun e he => ?_
    simp [he]
  refine hgroup.bind ?_
  rintro _ b ⟨⟨n, rfl⟩, hrows⟩
  dsimp only
  split
  · exact Account.meets_log ⟨⟨rfl, rfl⟩, hrows⟩
  · exact ⟨⟨rfl, rfl⟩, hrows⟩

/-- All rows that are repeated are gone. -/
theorem collapseDuplicates_calm (hk : k.Calm) (r : Summary) (a : Account)
    (hr : r.cancelled = false) :
    (collapseDuplicates r).Meets (Account.Step k) (fun r' b => r.Continues r' ∧
      b.ledger.rows = a.ledger.rows.filter fun e => ¬ e.Repeated a.ledger.rows) a := by
  refine checkpoint_meets ?_ fun hmay => (hk.2 hmay).elim
  rw [hr]
  refine Account.meets_store (fun groups t hgives => ?_) fun hmay => (hk.1 _ hmay).elim
  obtain ⟨-, hgroups, rfl⟩ := hgives
  have hstart : collapsed (· ∈ groups) a.ledger.rows =
      a.ledger.rows.filter fun e => ¬ e.Repeated a.ledger.rows := by
    refine List.filter_congr fun e he => ?_
    have hlisted : e.Repeated a.ledger.rows → e.group ∈ groups := by
      rintro ⟨x, hx, hlt, heq⟩
      exact (hgroups _).2 ⟨x, hx, e, he, hlt, heq, congrArg Grant.group heq⟩
    simp only [decide_eq_true_eq, and_iff_right_of_imp hlisted]
  refine (forItems_calm hk (I := fun rest t => collapsed (· ∈ rest) t.rows =
    a.ledger.rows.filter fun e => ¬ e.Repeated a.ledger.rows) (fun g rest r b hb => ?_) groups r
      (a.after _ a.ledger) hr hstart).mono fun r' b h => ⟨h.1, ?_⟩
  · refine (collapseItem_calm hk g r b).mono fun r' c h => ⟨h.1, ?_⟩
    rw [h.2, Entry.collapsed_collapsed, ← hb]
    refine List.filter_congr fun e _ => ?_
    simp
  · have hnone : collapsed (· ∈ ([] : List GroupId)) b.ledger.rows = b.ledger.rows :=
      List.filter_eq_self.2 fun e _ => by simp
    rw [← hnone]
    exact h.2

/-! ### The whole sweep -/

theorem Appends.mem_iff (h : Appends l t) (he : l.Populated e.group) :
    e ∈ t.rows ↔ e ∈ l.rows := by
  obtain ⟨added, hrows, hadded⟩ := h
  rw [hrows, List.mem_append, or_iff_left fun hmem => hadded e hmem he]

theorem Appends.repeated_iff (h : Appends l t) (he : l.Populated e.group) :
    e.Repeated t.rows ↔ e.Repeated l.rows := by
  have hsame (x : Entry) (heq : x.toGrant = e.toGrant) : x ∈ t.rows ↔ x ∈ l.rows := by
    have hgroup : x.group = e.group := congrArg Grant.group heq
    exact h.mem_iff (hgroup ▸ he)
  exact ⟨fun ⟨x, hx, hlt, heq⟩ => ⟨x, (hsame x heq).1 hx, hlt, heq⟩,
    fun ⟨x, hx, hlt, heq⟩ => ⟨x, (hsame x heq).2 hx, hlt, heq⟩⟩

/-- What a sweep leaves of the groups that had rows: nothing if the group is not valid or nothing
refers to it, and otherwise the rows after the split, of those with the same grant the one with the
lowest identifier. -/
structure Remaining (l : Ledger) (halves : List Entry) (t : Ledger) : Prop where
  halved : halves.map Entry.toGrant =
    (l.rows.filter fun e => e.isMixed).map fun e => e.userHalf
  ascending : (l.rows.map Entry.settled ++ halves).Pairwise fun a b => a.id < b.id
  mem_iff : ∀ e, l.Populated e.group → (e ∈ t.rows ↔ (e.group.IsValid ∧ l.Refers e.group) ∧
    e ∈ l.rows.map Entry.settled ++ halves ∧
      ¬ e.Repeated (l.rows.map Entry.settled ++ halves))

/-- The rows after one phase after another. -/
theorem remaining_of_phases {t₁ t₂ t₃ : Ledger} (hdivided : Divided l [] t₁)
    (happends : Appends t₁ t₂) {gone : List GroupId}
    (hgone : ∀ g, g ∈ gone ↔ l.Populated g ∧ ¬ (g.IsValid ∧ l.Refers g))
    (hkept : t₃.rows = t₂.rows.filter fun e => e.group ∉ gone)
    (hleft : t.rows = t₃.rows.filter fun e => ¬ e.Repeated t₃.rows) :
    ∃ halves, Remaining l halves t := by
  obtain ⟨done, halves, hitems, hhalves, hrows⟩ := hdivided
  rw [List.append_nil] at hitems
  simp only [List.not_mem_nil, if_false] at hrows
  refine ⟨halves, by rw [hhalves, hitems], hrows ▸ t₁.ascending, fun e he => ?_⟩
  have hthere : t₁.Populated e.group := by
    obtain ⟨x, hx, hg⟩ := he
    refine ⟨x.settled, ?_, by rw [Entry.group_settled, hg]⟩
    rw [hrows]
    exact List.mem_append_left _ (List.mem_map_of_mem hx)
  have hlive : e.group ∉ gone ↔ e.group.IsValid ∧ l.Refers e.group := by
    rw [hgone, and_iff_right he, not_not]
  rw [hleft, List.mem_filter, hkept, List.mem_filter, happends.mem_iff hthere, hrows]
  simp only [decide_eq_true_eq, hlive]
  rw [and_comm (b := e.group.IsValid ∧ l.Refers e.group), and_assoc]
  refine and_congr_right fun hlive' => and_congr_right fun _ => not_congr ?_
  rw [← hrows, ← happends.repeated_iff hthere]
  exact Entry.repeated_filter_iff (fun x hx => by rw [hx]) (by simpa using hlive.2 hlive')

/-- The repairs leave of the rows what remains. -/
theorem repair_calm (hk : k.Calm) (r : Summary) (a : Account) (hs : s.Reads a.ledger [])
    (hlisted : s.listingFailed = false) (hr : r.cancelled = false) :
    (repair operator s r).Meets (Account.Step k) (fun r' b => r.Continues r' ∧
      ∃ halves, Remaining a.ledger halves b.ledger) a := by
  refine (splitMixed_calm hk r a hr).bind ?_
  rintro r₁ b₁ ⟨hr₁, hdivided⟩
  refine (reassignShared_calm hk r₁ b₁ (hr₁.cancelled.trans hr)).bind ?_
  rintro r₂ b₂ ⟨hr₂, hmoved⟩
  have hr₂ := hr₁.trans hr₂
  have hmissing : ∀ g ∈ s.missing, g.IsValid := fun g hg => hs.valid g ((hs.missing g).1 hg).1
  refine (createMissingGroups_calm hk hmissing r₂ b₂ (hr₂.cancelled.trans hr)).bind ?_
  rintro r₃ b₃ ⟨hr₃, hcreated⟩
  have hr₃ := hr₂.trans hr₃
  refine (deleteOrphans_calm hk r₃ b₃ (hr₃.cancelled.trans hr)).bind ?_
  rintro r₄ b₄ ⟨hr₄, hkept⟩
  have hr₄ := hr₃.trans hr₄
  refine (collapseDuplicates_calm hk r₄ b₄ (hr₄.cancelled.trans hr)).mono ?_
  rintro r₅ b₅ ⟨hr₅, hleft⟩
  exact ⟨hr₄.trans hr₅, remaining_of_phases hdivided (hmoved.trans hcreated)
    (hs.mem_orphans_iff hlisted) hkept hleft⟩

theorem scanKinds_calm (kinds : List ResourceKind) (s : Scan) (r : Summary) (a : Account) :
    (scanKinds kinds s r).Meets (Account.Step k) (fun x _ => r.Continues x.2) a := by
  induction kinds generalizing s r a with
  | nil => exact .refl r
  | cons kind rest ih =>
    refine Account.meets_registry (fun refs t _ => ?_) fun _ e => Account.meets_log ?_
    · exact (ih _ _ _).mono fun x _ h => ⟨h.cancelled, h.unrepairableEntries⟩
    · exact (ih _ _ _).mono fun x _ h => ⟨h.cancelled, h.unrepairableEntries⟩

/-- The scan counts the rows that let nobody in. -/
theorem scan_calm (k : Conditions) (a : Account) :
    scan.Meets (Account.Step k) (fun x _ => match x with
      | .error _ => True
      | .ok x => x.2.unrepairableEntries = (a.ledger.rows.filter fun e => e.isInert).length) a := by
  refine Account.meets_store (fun v t hgives => ?_) fun _ e => trivial
  obtain ⟨rfl, rfl⟩ := hgives
  refine reportUnrepairable_meets ((scanKinds_calm _ _ _ _).bind ?_)
  rintro ⟨s, r⟩ b hr
  have hcounted : r.unrepairableEntries = (a.ledger.rows.filter fun e => e.isInert).length :=
    hr.unrepairableEntries.trans (List.length_map _)
  dsimp only
  split
  · exact Account.meets_log (Account.meets_log hcounted)
  · exact Account.meets_log hcounted

/-- A sweep that nothing disturbs reports the rows that let nobody in, and leaves what remains. -/
theorem runOnce_calm (operator : UserId) (hk : k.Calm) (a : Account) (ha : a.running = false) :
    (runOnce operator).Meets (Account.Step k) (fun x b => ∃ r halves, x = .ok (.completed r) ∧
      r.unrepairableEntries = (a.ledger.rows.filter fun e => e.isInert).length ∧
        Remaining a.ledger halves b.ledger) a := by
  refine Account.meets_claim ?_
  rw [ha]
  have hrun : (runHolding operator).Meets (Account.Step k) (fun x b => ∃ r halves,
      x = .ok (.completed r) ∧
        r.unrepairableEntries = (a.ledger.rows.filter fun e => e.isInert).length ∧
          Remaining a.ledger halves b.ledger) { a with running := true } := by
    refine Account.meets_log (((scan_meets k _).and (scan_calm k _)).bind ?_)
    rintro (e | ⟨s, r⟩) b ⟨hscan, hcounted⟩
    · exact (hk.1 _ hscan.1).elim
    · have hledger : b.ledger = a.ledger := hscan.looked.ledger
      have hreads : s.Reads b.ledger [] := hledger ▸ hscan.reads
      have hlisted : s.listingFailed = false := hscan.listingFailed_eq_false fun _ => hk.1 _
      refine (repair_calm hk r b hreads hlisted hscan.cancelled).bind ?_
      rintro r' c ⟨hr', halves, hremaining⟩
      rw [hledger] at hremaining
      exact Account.meets_record (Account.meets_log ⟨r', halves, rfl,
        hr'.unrepairableEntries.trans hcounted, hremaining⟩)
  refine hrun.bind ?_
  rintro x b hspec
  exact Account.meets_release hspec

/-! ### What is as before -/

namespace Remaining

variable {halves : List Entry} {x : Right}

/-- The rights of the rows after the split are those before. -/
theorem exists_right_iff_holds (h : Remaining l halves t) (g : GroupId) (x : Right) :
    (∃ e ∈ l.rows.map Entry.settled ++ halves, e.group = g ∧ e.right = x) ↔ l.Holds g x := by
  constructor
  · rintro ⟨e, he, rfl, rfl⟩
    rcases List.mem_append.1 he with he | he
    · obtain ⟨y, hy, rfl⟩ := List.mem_map.1 he
      exact ⟨y, hy, (Entry.group_settled y).symm, y.right_settled_mem⟩
    · have hgrant : e.toGrant ∈ (l.rows.filter fun e => e.isMixed).map fun e => e.userHalf :=
        h.halved ▸ List.mem_map_of_mem he
      obtain ⟨y, hy, heq⟩ := List.mem_map.1 hgrant
      obtain ⟨hy, hmixed⟩ := List.mem_filter.1 hy
      refine ⟨y, hy, by rw [← heq]; rfl, ?_⟩
      rw [Grant.rights_of_mixed hmixed, heq]
      exact List.mem_cons_self
  · rintro ⟨y, hy, rfl, hx⟩
    have hsettled : y.settled ∈ l.rows.map Entry.settled ++ halves :=
      List.mem_append_left _ (List.mem_map_of_mem hy)
    cases hmixed : y.isMixed with
    | false =>
      rw [Grant.rights_of_unmixed hmixed, List.mem_singleton] at hx
      exact ⟨y, Entry.settled_of_unmixed hmixed ▸ hsettled, rfl, hx.symm⟩
    | true =>
      rw [Grant.rights_of_mixed hmixed] at hx
      rcases List.mem_cons.1 hx with rfl | hx
      · have hgrant : y.userHalf ∈ halves.map Entry.toGrant :=
          h.halved ▸ List.mem_map.2 ⟨y, List.mem_filter.2 ⟨hy, hmixed⟩, rfl⟩
        obtain ⟨v, hv, heq⟩ := List.mem_map.1 hgrant
        exact ⟨v, List.mem_append_right _ hv, by rw [heq]; rfl, congrArg Grant.right heq⟩
      · refine ⟨y.settled, hsettled, Entry.group_settled y, ?_⟩
        rw [List.mem_singleton.1 hx, Entry.settled_of_mixed hmixed]
        rfl

/-- A group that had rows gives what it gave, if it is valid and referred to. -/
theorem exists_right_iff (h : Remaining l halves t) (hg : l.Populated g) (x : Right) :
    (∃ e ∈ t.rows, e.group = g ∧ e.right = x) ↔ (g.IsValid ∧ l.Refers g) ∧ l.Holds g x := by
  rw [← h.exists_right_iff_holds]
  constructor
  · rintro ⟨e, he, rfl, hx⟩
    obtain ⟨hlive, hmem, -⟩ := (h.mem_iff e hg).1 he
    exact ⟨hlive, e, hmem, rfl, hx⟩
  · rintro ⟨hlive, e, he, rfl, hx⟩
    obtain ⟨y, hy, heq, hnot⟩ := Entry.exists_not_repeated h.ascending he
    have hgroup : y.group = e.group := congrArg Grant.group heq
    exact ⟨y, (h.mem_iff y (hgroup ▸ hg)).2 ⟨hgroup ▸ hlive, hy, hnot⟩, hgroup,
      (congrArg Grant.right heq).trans hx⟩

/-- No row of a group that had rows has two principals. -/
theorem isMixed_eq_false (h : Remaining l halves t) (hg : l.Populated e.group) (he : e ∈ t.rows) :
    e.isMixed = false := by
  obtain ⟨-, hmem, -⟩ := (h.mem_iff e hg).1 he
  rcases List.mem_append.1 hmem with hmem | hmem
  · obtain ⟨y, -, rfl⟩ := List.mem_map.1 hmem
    exact Entry.isMixed_settled y
  · have hgrant : e.toGrant ∈ (l.rows.filter fun e => e.isMixed).map fun e => e.userHalf :=
      h.halved ▸ List.mem_map_of_mem hmem
    obtain ⟨y, -, heq⟩ := List.mem_map.1 hgrant
    rw [← heq]
    exact Grant.isMixed_userHalf _

/-- A row is as before if it has not two principals and no row with a lower identifier has its grant
after the split. -/
theorem mem_iff_of_mem (h : Remaining l halves t) (he : e ∈ l.rows)
    (hlive : e.group.IsValid ∧ l.Refers e.group) :
    e ∈ t.rows ↔ e.isMixed = false ∧ ¬ e.Repeated (l.rows.map Entry.settled) := by
  have hg : l.Populated e.group := ⟨e, he, rfl⟩
  cases hmixed : e.isMixed with
  | true =>
    have hnot : e ∉ t.rows := fun hmem => by
      rw [h.isMixed_eq_false hg hmem] at hmixed
      cases hmixed
    simp [hnot]
  | false =>
    have hmem : e ∈ l.rows.map Entry.settled :=
      List.mem_map.2 ⟨e, he, Entry.settled_of_unmixed hmixed⟩
    rw [h.mem_iff e hg, and_iff_right hlive, and_iff_right (List.mem_append_left _ hmem),
      Entry.repeated_append_iff h.ascending hmem]
    simp

end Remaining

end Sweep

end AccessGroups
