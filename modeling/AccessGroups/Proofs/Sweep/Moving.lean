import AccessGroups.Proofs.Sweep.Sheltered

/-!
# Moving the resource of a client

A sweep moves a resource that shares its group: it asks for a fresh group, copies the rows of the
current one, and changes the reference. The resource may be one that a client is just creating. If
it is, it has been registered, and the rows that are copied are those that the client has stored;
the fresh group is one that the client was never given.

## Main definitions

* `Sweep.Moving`: a resource is being moved, with what holds if it is that of the client.
* `Sweep.Unclaimed`: a group that was handed out to the sweep only.
* `Sweep.Copies`: the rows of the client are among those to be copied.

## Main results

* `Sweep.stable_moving`: the client does not interfere with the move.
* `Sweep.reassignShared_harmless`: the phase leaves the client what it stored.
-/

namespace AccessGroups.Sweep

open Outlook

variable {kind : ResourceKind} {r : ResourceId} {grants : List Grant} {doomed : List GroupId}
  {operator : UserId} {a : Outlook} {s : Scan} {summary : Summary}

/-! ### The resource and its groups -/

variable (kind r) in
/-- The resource is that of the client, in the table of its kind. -/
def Concerns (item : ResourceKind × ResourceId) (a : Outlook) : Prop :=
  a.ledger.table item.1 = a.ledger.table kind ∧ item.2 = r

variable (kind r grants doomed) in
/-- A resource that refers to the group is being moved. If it is that of the client it has been
registered, and `P` holds. -/
structure Moving (item : ResourceKind × ResourceId) (g : GroupId) (P : Outlook → Prop)
    (a : Outlook) : Prop where
  sheltered : Sheltered kind r grants doomed a
  refers : Concerns kind r item a → ⟨r, g⟩ ∈ a.ledger.refs kind
  done : Concerns kind r item a → a.stage = .registered → P a

variable (kind r doomed) in
/-- The group was handed out to nobody but the sweep. -/
structure Unclaimed (f : GroupId) (a : Outlook) : Prop where
  valid : f.IsValid
  issued : f.val.toInt < a.ledger.nextGroup
  other : ∀ g, a.Claims kind r g → g ≠ f
  spared : f ∉ doomed

variable {item : ResourceKind × ResourceId} {g f : GroupId} {P : Outlook → Prop}

/-- A resource that is being moved is no new one, so that the client does not register it. -/
theorem stable_moving (hsome : grants ≠ []) :
    Prog.Stable (Rely kind r grants) (Moving kind r grants doomed item g P) := by
  refine Prog.stable_of_move fun a b h hmove => ?_
  have hconcerns : Concerns kind r item b → Concerns kind r item a := fun hb => by
    rwa [Concerns, hmove.table_eq] at hb
  refine ⟨h.sheltered.move hsome hmove, fun hb => ?_, fun hb hstage => ?_⟩
  · have hrefers := h.refers (hconcerns hb)
    cases hmove with
    | allot hgives => exact hgives.frame.1 ▸ hrefers
    | store hgives => exact hgives.frame.1 ▸ hrefers
    | register hregistered => exact (hregistered.new _ hrefers rfl).elim
  · have hrefers := h.refers (hconcerns hb)
    cases hmove with
    | allot => cases hstage
    | store => cases hstage
    | register hregistered => exact (hregistered.new _ hrefers rfl).elim

theorem stable_unclaimed : Prog.Stable (Rely kind r grants) (Unclaimed kind r doomed f) := by
  refine Prog.stable_of_move fun a b h hmove =>
    ⟨h.valid, Int.lt_of_lt_of_le h.issued hmove.nextGroup_le, fun g hg => ?_, h.spared⟩
  rcases hmove.claims hg with hold | ⟨-, hfree, -⟩
  · exact h.other g hold
  · rintro rfl
    exact Int.lt_irrefl _ (Int.lt_of_lt_of_le h.issued hfree.1)

theorem Moving.look (h : Moving kind r grants doomed item g P a) {c : Call} :
    Moving kind r grants doomed item g (fun _ => True) (a.after kind c a.ledger) :=
  ⟨h.sheltered.look, h.refers, fun _ _ => trivial⟩

theorem Unclaimed.of_after {t : Ledger} {c : Call} (h : Unclaimed kind r doomed f a)
    (hrefs : t.refs = a.ledger.refs) (hnext : t.nextGroup = a.ledger.nextGroup) :
    Unclaimed kind r doomed f (a.after kind c t) :=
  ⟨h.valid, Int.lt_of_lt_of_le h.issued (Int.le_of_eq hnext.symm),
    fun g hg => h.other g ((claims_after hrefs).1 hg), h.spared⟩

/-! ### A fresh group -/

/-- A group that is handed out to the sweep is above that of the client, and above all that have
rows. -/
theorem Moving.issue (h : Moving kind r grants doomed item g P a)
    (hfree : a.ledger.Free f.val.toInt) (hle) {c : Call} :
    Moving kind r grants doomed item g (fun _ => True) (a.after kind c (a.ledger.issue f hle)) ∧
      Unclaimed kind r doomed f (a.after kind c (a.ledger.issue f hle)) := by
  have hnext : a.ledger.nextGroup ≤ (a.ledger.issue f hle).nextGroup := by
    have := hfree.1
    simp only [Ledger.nextGroup_issue]
    omega
  refine ⟨⟨h.sheltered.after_of_subset rfl hnext fun _ => id, h.refers, fun _ _ => trivial⟩, ?_, ?_,
    fun g hg => ?_, fun hmem => ?_⟩
  · exact Int64.lt_iff_toInt_lt.2 (Int.lt_of_lt_of_le a.ledger.positive hfree.1)
  · exact Int.lt_succ _
  · rintro rfl
    have hlt := (h.sheltered.valid g ((claims_after (Ledger.refs_issue hle)).1 hg)).2
    exact Int.lt_irrefl _ (Int.lt_of_lt_of_le hlt hfree.1)
  · obtain ⟨e, he, rfl⟩ := h.sheltered.populated f hmem
    exact Int.lt_irrefl _ (hfree.2 e he)

theorem allocateFresh_harmless (hsome : grants ≠ []) {referenced : List GroupId} (limit : Nat)
    (h : Moving kind r grants doomed item g (fun _ => True) a) :
    Harmless kind r grants (allocateFresh referenced limit) (fun x a =>
      Moving kind r grants doomed item g (fun _ => True) a ∧
        ∀ f, x = .ok f → Unclaimed kind r doomed f a) a := by
  have hstable (x : Except ServiceError GroupId) : Prog.Stable (Rely kind r grants) fun a =>
      Moving kind r grants doomed item g (fun _ => True) a ∧
        ∀ f, x = .ok f → Unclaimed kind r doomed f a :=
    fun _ _ h hrely => ⟨stable_moving hsome h.1 hrely,
      fun f hf => stable_unclaimed (h.2 f hf) hrely⟩
  induction limit generalizing a with
  | zero => trivial
  | succ limit ih =>
    rw [allocateFresh_succ]
    refine harmless_store (stable_moving hsome) h (fun a n t h hgives => ?_) fun a e h => ?_
    · obtain ⟨hfree, -, hle, rfl⟩ := hgives
      obtain ⟨hmoving, hunclaimed⟩ := h.issue hfree hle (c := .store .allocateGroup)
      dsimp only
      split
      · refine Prog.safe_pure (hstable _) ⟨hmoving, fun f hf => ?_⟩
        cases hf
        exact hunclaimed
      · exact harmless_log (ih hmoving)
    · refine Prog.safe_pure (hstable _) ⟨h.look, fun f hf => ?_⟩
      cases hf

/-! ### Copies of the rows -/

/-- The rows that are copied for the resource of the client are those that it has stored. -/
def Copies (grants : List Grant) (g : GroupId) (source : List Entry) (a : Outlook) : Prop :=
  ¬ a.Straddling → ∀ x ∈ grants, ∃ e ∈ source, e.toGrant = x.withGroup g

theorem Moving.claims (h : Moving kind r grants doomed item g P a)
    (hc : Concerns kind r item a) (hstage : a.stage = .registered) : a.Claims kind r g := by
  rw [Claims, hstage]
  exact h.refers hc

theorem readGroup_harmless (hsome : grants ≠ [])
    (h : Moving kind r grants doomed item g (fun _ => True) a) (hf : Unclaimed kind r doomed f a) :
    Harmless kind r grants (readGroup g) (fun x a => Unclaimed kind r doomed f a ∧ match x with
      | .ok source => Moving kind r grants doomed item g (Copies grants g source) a
      | .error _ => Sheltered kind r grants doomed a) a := by
  have hstable (x : Except StoreError (List Entry)) : Prog.Stable (Rely kind r grants) fun a =>
      Unclaimed kind r doomed f a ∧ match x with
        | .ok source => Moving kind r grants doomed item g (Copies grants g source) a
        | .error _ => Sheltered kind r grants doomed a := by
    rintro a b ⟨hf, h⟩ hrely
    refine ⟨stable_unclaimed hf hrely, ?_⟩
    cases x with
    | ok source => exact stable_moving hsome h hrely
    | error e => exact stable_sheltered hsome h hrely
  rw [readGroup]
  split
  · rw [← bind_pure (Prog.store _)]
    refine harmless_store (I := fun a => Moving kind r grants doomed item g (fun _ => True) a ∧
        Unclaimed kind r doomed f a)
      (fun _ _ h hrely => ⟨stable_moving hsome h.1 hrely, stable_unclaimed h.2 hrely⟩) ⟨h, hf⟩
      (fun a source t h hgives => ?_) fun a e h => ?_
    · obtain ⟨rfl, rfl⟩ := hgives
      refine Prog.safe_pure (hstable (.ok _)) ⟨h.2.of_after rfl rfl, h.1.sheltered.look, h.1.refers,
        fun hc hstage hnot x hx => ?_⟩
      have hrows : a.stage.HasRows := by
        rw [show a.stage = .registered from hstage]
        trivial
      obtain ⟨e, he, heq⟩ := h.1.sheltered.carries hrows (mt straddling_after hnot) g
        (h.1.claims hc hstage) x hx
      exact ⟨e, Ledger.mem_rowsOf.2 ⟨he, by rw [heq]; rfl⟩, heq⟩
    · exact Prog.safe_pure (hstable (.error e)) ⟨h.2.of_after rfl rfl, h.1.sheltered.look⟩
  · next hinvalid =>
    refine Prog.safe_pure (hstable (.ok [])) ⟨hf, h.sheltered, h.refers, fun hc hstage => ?_⟩
    exact (hinvalid (h.sheltered.valid g (h.claims hc hstage)).1).elim

/-- The fresh group of the resource of the client has what the client stored. -/
theorem Moving.fill {source v : List Entry} (h : Moving kind r grants doomed item g
      (Copies grants g source) a) (hf : Unclaimed kind r doomed f a)
    (hv : v.map Entry.toGrant = copies operator source f) {hrows} {c : Call} :
    Moving kind r grants doomed item g (fun b => ¬ b.Straddling → b.ledger.Carries grants f)
      (a.after kind c (a.ledger.withRows
        ((a.ledger.rows.filter fun e => e.group ≠ f) ++ v) hrows)) := by
  have hstays : ∀ e ∈ a.ledger.rows, e.group ≠ f →
      e ∈ (a.ledger.rows.filter fun e => e.group ≠ f) ++ v := fun e he hne =>
    List.mem_append_left _ (List.mem_filter.2 ⟨he, by simpa using hne⟩)
  refine ⟨h.sheltered.after (fun _ => id) rfl (Int.le_refl _) (fun _ g' hg' hcarries x hx => ?_)
    fun g' hg' hpopulated => ?_, h.refers, fun hc hstage hnot x hx => ?_⟩
  · obtain ⟨e, he, heq⟩ := hcarries x hx
    have hgroup : e.group = g' := by rw [heq]; rfl
    exact ⟨e, hstays e he (hgroup ▸ hf.other g' hg'), heq⟩
  · obtain ⟨e, he, rfl⟩ := hpopulated
    exact ⟨e, hstays e he fun heq => hf.spared (heq ▸ hg'), rfl⟩
  · have hcopies := h.done hc hstage (mt straddling_after hnot)
    obtain ⟨e, he, heq⟩ := hcopies x hx
    have hmem : x.withGroup f ∈ copies operator source f := by
      rw [copies, if_neg (by simpa using List.ne_nil_of_mem he)]
      exact List.mem_map.2 ⟨e, he, by rw [heq]; rfl⟩
    obtain ⟨b, hb, hbx⟩ := List.mem_map.1 (hv ▸ hmem)
    exact ⟨b, List.mem_append_right _ hb, hbx⟩

/-! ### The new reference -/

/-- The client keeps what it stored when its resource is moved to the fresh group. -/
theorem Moving.point (h : Moving kind r grants doomed item g
      (fun b => ¬ b.Straddling → b.ledger.Carries grants f) a) (hf : Unclaimed kind r doomed f a)
    {c : Call} : Sheltered kind r grants doomed
      (a.after kind c (a.ledger.assign item.1 ⟨item.2, f⟩)) := by
  -- the group of the client is what it was, or the fresh one
  have hclaims : ∀ g', (a.after kind c (a.ledger.assign item.1 ⟨item.2, f⟩)).Claims kind r g' →
      a.Claims kind r g' ∨ (g' = f ∧ Concerns kind r item a ∧ a.stage = .registered) := by
    intro g' hg'
    obtain ⟨l, stage, passed⟩ := a
    cases stage with
    | registered =>
      rcases Ledger.mem_assign.1 hg' with ⟨hold, -⟩ | ⟨htable, heq, -⟩
      · exact .inl hold
      · cases heq
        exact .inr ⟨rfl, ⟨htable.symm, rfl⟩, rfl⟩
    | _ => exact .inl hg'
  refine ⟨fun g' hg' => ?_, fun hstage => ?_, fun hrows hnot g' hg' => ?_,
    h.sheltered.populated, fun g' hmem hg' => ?_⟩
  · rcases hclaims g' hg' with hold | ⟨rfl, -⟩
    · exact h.sheltered.valid g' hold
    · exact ⟨hf.valid, hf.issued⟩
  · obtain ⟨l, stage, passed⟩ := a
    cases hstage
    obtain ⟨g', hg'⟩ := h.sheltered.refers rfl
    by_cases hc : l.table kind = l.table item.1 ∧ r = item.2
    · exact ⟨f, Ledger.mem_assign.2 (.inr ⟨hc.1, by rw [hc.2], ⟨r, g'⟩, hg', hc.2⟩)⟩
    · exact ⟨g', Ledger.mem_assign.2 (.inl ⟨hg', hc⟩)⟩
  · rcases hclaims g' hg' with hold | ⟨rfl, hc, hstage⟩
    · exact h.sheltered.carries hrows (mt straddling_after hnot) g' hold
    · exact h.done hc hstage (mt straddling_after hnot)
  · rcases hclaims g' hg' with hold | ⟨rfl, -⟩
    · exact straddling_after (h.sheltered.spared g' hmem hold)
    · exact (hf.spared hmem).elim

/-! ### The phase -/

theorem reassign_harmless (hsome : grants ≠ []) (h : Sheltered kind r grants doomed a) :
    Harmless kind r grants (reassign operator s item.1 item.2)
      (fun _ => Sheltered kind r grants doomed) a := by
  have hmoving {g : GroupId} {f : GroupId} {P : Outlook → Prop} :
      Prog.Stable (Rely kind r grants) fun a =>
        Unclaimed kind r doomed f a ∧ Moving kind r grants doomed item g P a :=
    fun _ _ h hrely => ⟨stable_unclaimed h.1 hrely, stable_moving hsome h.2 hrely⟩
  refine harmless_registry (stable_sheltered hsome) h (fun a g t h hgives => ?_) fun a e h => ?_
  · obtain ⟨hg, rfl⟩ := hgives
    have hstart : Moving kind r grants doomed item g (fun _ => True)
        (a.after kind (.registry (.findRef item.1 item.2)) a.ledger) := by
      refine ⟨h.look, fun hc => ?_, fun _ _ => trivial⟩
      have hrefs : a.ledger.refs item.1 = a.ledger.refs kind := a.ledger.together _ _ hc.1
      exact hrefs ▸ hc.2 ▸ hg
    refine (allocateFresh_harmless hsome _ hstart).bind ?_
    rintro (e | f) a ⟨h, hissued⟩
    · exact harmless_pure hsome h.sheltered
    · refine (readGroup_harmless hsome h (hissued f rfl)).bind ?_
      rintro (e | source) a ⟨hf, h⟩
      · exact harmless_pure hsome h
      · refine harmless_store hmoving ⟨hf, h⟩ (fun a v t h hgives => ?_) fun a e h =>
          harmless_pure hsome h.2.sheltered.look
        obtain ⟨hv, -, _, rfl⟩ := hgives
        refine harmless_registry hmoving ⟨h.1.of_after rfl rfl, h.2.fill h.1 hv⟩
          (fun a v t h hgives => ?_) fun a e h => harmless_pure hsome h.2.sheltered.look
        obtain ⟨-, rfl⟩ := hgives
        exact harmless_pure hsome (h.2.point h.1)
  · split
    · exact harmless_pure hsome h.look
    · exact harmless_pure hsome h.look
    · next heq => cases heq

theorem reassignShared_harmless (hsome : grants ≠ []) (h : Sheltered kind r grants doomed a) :
    Harmless kind r grants (reassignShared operator s summary)
      (fun _ => Sheltered kind r grants doomed) a := by
  refine harmless_forItems hsome (fun item summary a h => ?_) h
  refine (reassign_harmless hsome h).bind ?_
  rintro (e | _ | ⟨old, f⟩) a h
  · exact harmless_fail hsome h
  · exact harmless_log (harmless_pure hsome h)
  · exact harmless_log (harmless_pure hsome h)

end AccessGroups.Sweep
