import AccessGroups.Proofs.Sweep.Outcome
import AccessGroups.Proofs.Sweep.Underway

/-!
# Where sweeps put resources

In complete view of the references the moves leave every resource that is not loose where it is, and
give a loose one a group of its own that nothing referred to. A consistent ledger that is reached by
moves has therefore no choice: which resources have moved, which share a group across
kinds, and what the rows of each group give is settled by the ledger at the start. Only the group
identifiers that were handed out and the identifiers of rows depend on the way.

## Main definitions

* `Sweep.Placed`: where the moves put the resources.
* `SameUpTo`: rows and references are the same but for the group identifiers.

## Main results

* `Sweep.Moves.placed`: the moves place the resources.
* `Sweep.Placed.settled_iff`: in a consistent ledger exactly the loose resources have moved.
* `Sweep.sameUpTo_of_moves`: consistent ledgers reached from the same one are the same up to the
  group identifiers that were handed out.
-/

namespace AccessGroups

/-- No other resource refers to the group of this one. -/
def Ledger.Owns (l : Ledger) (k : ResourceKind) (r : ResourceId) (g : GroupId) : Prop :=
  ∀ k' r', ⟨r', g⟩ ∈ l.refs k' → k' = k ∧ r' = r

/-- The rows and references of the second kind are those of the first one with other group
identifiers, different ones for different groups. Every grant is there once. -/
structure SameUpTo (rename : GroupId → GroupId) (rows rows' : List Entry)
    (refs refs' : ResourceKind → List GroupRef) : Prop where
  injective : ∀ k, ∀ a ∈ refs k, ∀ k', ∀ b ∈ refs k',
    rename a.group = rename b.group → a.group = b.group
  refs : ∀ k, refs' k = (refs k).map fun a => ⟨a.resource, rename a.group⟩
  rows : (rows'.map Entry.toGrant).Perm (rows.map fun e => e.toGrant.withGroup (rename e.group))
  once : (rows'.map Entry.toGrant).Nodup

namespace Sweep

variable {operator : UserId} {view : View} {l t t₁ t₂ : Ledger} {k k' : ResourceKind}
  {r r' : ResourceId} {g f f₁ f₂ f₂' : GroupId}

/-- A resource has kept its group, or it was loose and has got one of its own that was handed out
and that nothing referred to. -/
structure Placed (l t : Ledger) : Prop where
  resources : ∀ k r f, ⟨r, f⟩ ∈ t.refs k → ∃ g, ⟨r, g⟩ ∈ l.refs k
  placed : ∀ k r g, ⟨r, g⟩ ∈ l.refs k → ∃ f, ⟨r, f⟩ ∈ t.refs k ∧ (f = g ∨
    (l.Loose k r ∧ f.IsValid ∧ f ∈ t.issued ∧ t.Owns k r f ∧ ¬ l.Refers f))

theorem Placed.refl (l : Ledger) : Placed l l :=
  ⟨fun _ _ f hf => ⟨f, hf⟩, fun _ _ g hg => ⟨g, hg, .inl rfl⟩⟩

theorem Placed.mem_of_not_loose (h : Placed l t) (hg : ⟨r, g⟩ ∈ l.refs k) (hr : ¬ l.Loose k r) :
    ⟨r, g⟩ ∈ t.refs k := by
  obtain ⟨f, hf, rfl | ⟨hloose, -⟩⟩ := h.placed k r g hg
  · exact hf
  · exact (hr hloose).elim

/-- Every valid group that was referred to is referred to still, by its first resource. -/
theorem Placed.refers (h : Placed l t) (hvalid : g.IsValid) (hg : l.Refers g) : t.Refers g := by
  obtain ⟨k, a, ha, rfl⟩ := hg
  obtain ⟨r, hr, hsettled, -⟩ := l.exists_settled ha hvalid
  exact ⟨k, _, h.mem_of_not_loose hr hsettled, rfl⟩

/-- A resource that is loose after it was placed was loose before, and has not moved. -/
theorem Placed.of_loose (h : Placed l t) (hg : ⟨r, g⟩ ∈ l.refs k) (hr : t.Loose k r) :
    l.Loose k r ∧ ⟨r, g⟩ ∈ t.refs k := by
  obtain ⟨f, hf, hplaced⟩ := h.placed k r g hg
  rcases hplaced with rfl | ⟨hloose, hvalid, -, howns, -⟩
  · refine ⟨?_, hf⟩
    rcases hr.group_of_mem hf with hinvalid | ⟨b, hb, hlt, rfl⟩
    · exact ⟨f, hg, .inl hinvalid⟩
    · obtain ⟨g', hg'⟩ := h.resources k b.resource b.group hb
      obtain ⟨f', hf', hplaced'⟩ := h.placed k b.resource g' hg'
      obtain rfl : f' = b.group := (GroupRef.mk.inj (t.eq_of_resource_eq hf' hb rfl)).2
      rcases hplaced' with heq | ⟨-, -, -, howns, -⟩
      · exact ⟨_, hg, .inr ⟨_, hg', hlt, heq.symm⟩⟩
      · obtain ⟨-, heq⟩ := howns k r hf
        exact (Identifier.lt_irrefl _ (heq ▸ hlt)).elim
  · rcases hr.group_of_mem hf with hinvalid | ⟨b, hb, hlt, rfl⟩
    · exact (hinvalid hvalid).elim
    · obtain ⟨-, heq⟩ := howns k b.resource hb
      exact (Identifier.lt_irrefl _ (heq ▸ hlt)).elim

/-- Moves of which the references are the same and no identifier is taken back. -/
theorem Placed.of_refs_eq (h : Placed l t) (hrefs : t₁.refs = t.refs)
    (hissued : ∀ g ∈ t.issued, g ∈ t₁.issued) : Placed l t₁ := by
  refine ⟨fun k r f hf => h.resources k r f (hrefs ▸ hf), fun k r g hg => ?_⟩
  obtain ⟨f, hf, hplaced⟩ := h.placed k r g hg
  refine ⟨f, hrefs ▸ hf, hplaced.imp_right fun ⟨hloose, hvalid, hmem, howns, hnew⟩ => ?_⟩
  exact ⟨hloose, hvalid, hissued f hmem, fun k' r' hr' => howns k' r' (hrefs ▸ hr'), hnew⟩

/-- Giving a loose resource a fresh group. -/
theorem Placed.assign (h : Placed l t) (hsep : t.Separate) (hr : ⟨r, g⟩ ∈ t.refs k)
    (hvalid : f.IsValid) (hissued : f ∈ t.issued) (hfresh : ¬ t.Refers f) (hloose : t.Loose k r) :
    Placed l (t.assign k ⟨r, f⟩) := by
  have howner : ∀ k' r', ⟨r', f⟩ ∈ (t.assign k ⟨r, f⟩).refs k' → k' = k ∧ r' = r := by
    intro k' r' hr'
    rcases (Ledger.mem_assign_of_separate hsep).1 hr' with ⟨hr', -⟩ | ⟨rfl, heq, -⟩
    · exact (hfresh ⟨k', _, hr', rfl⟩).elim
    · exact ⟨rfl, (GroupRef.mk.inj heq).1⟩
  refine ⟨fun k' r' f' hf' => ?_, fun k' r' g' hg' => ?_⟩
  · rcases (Ledger.mem_assign_of_separate hsep).1 hf' with ⟨hf', -⟩ | ⟨rfl, heq, -⟩
    · exact h.resources k' r' f' hf'
    · obtain ⟨rfl, -⟩ := GroupRef.mk.inj heq
      exact h.resources k' r' g hr
  · by_cases hmoved : k' = k ∧ r' = r
    · obtain ⟨rfl, rfl⟩ := hmoved
      refine ⟨f, Ledger.mem_assign.2 (.inr ⟨rfl, rfl, _, hr, rfl⟩), .inr ⟨(h.of_loose hg' hloose).1,
        hvalid, hissued, howner, fun hnew => hfresh (h.refers hvalid hnew)⟩⟩
    · obtain ⟨f', hf', hplaced⟩ := h.placed k' r' g' hg'
      refine ⟨f', Ledger.mem_assign_of_ne hf' fun hk hr => hmoved ⟨hsep _ _ hk, hr⟩,
        hplaced.imp_right ?_⟩
      rintro ⟨hloose', hvalid', hissued', howns', hnew'⟩
      refine ⟨hloose', hvalid', hissued', fun k'' r'' hr'' => ?_, hnew'⟩
      rcases Ledger.mem_assign.1 hr'' with ⟨hr'', -⟩ | ⟨-, heq, -⟩
      · exact howns' k'' r'' hr''
      · obtain ⟨-, rfl⟩ := GroupRef.mk.inj heq
        exact (hfresh ⟨k', _, hf', rfl⟩).elim

/-- In complete view of the references the moves place the resources. -/
theorem Moves.placed (h : Moves operator view l t) (hknown : view.complete) : Placed l t := by
  induction h with
  | refl => exact .refl l
  | tail _ hmove ih =>
    cases hmove with
    | lend => exact ih.of_refs_eq rfl fun _ => id
    | clear => exact ih.of_refs_eq rfl fun _ => id
    | issue => exact ih.of_refs_eq rfl fun g hg => List.mem_append_left _ hg
    | fill => exact ih.of_refs_eq rfl fun _ => id
    | point hg hvalid hissued hrefs =>
      obtain ⟨hsep, hfresh, hloose⟩ := hrefs hknown
      exact ih.assign hsep hg hvalid hissued hfresh hloose
    | create => exact ih.of_refs_eq rfl fun _ => id
    | drop => exact ih.of_refs_eq rfl fun _ => id
    | erase => exact ih.of_refs_eq rfl fun _ => id

/-! ### Consistent ledgers -/

/-- In a consistent ledger exactly the resources that were not loose have kept their groups. -/
theorem Placed.settled_iff (h : Placed l t) (ht : Consistent t.rows t.refs)
    (hg : ⟨r, g⟩ ∈ l.refs k) : ⟨r, g⟩ ∈ t.refs k ↔ ¬ l.Loose k r := by
  refine ⟨fun hmem hloose => ?_, h.mem_of_not_loose hg⟩
  have hvalid : g.IsValid := ht.valid k _ hmem
  rcases hloose.group_of_mem hg with hinvalid | ⟨b, hb, hlt, rfl⟩
  · exact hinvalid hvalid
  · -- the first resource with the group has kept it, and does not share it
    obtain ⟨r', hr', hsettled, hfirst⟩ := l.exists_settled hb hvalid
    have hsame := ht.separate k _ (h.mem_of_not_loose hr' hsettled) _ hmem rfl
    obtain ⟨rfl, -⟩ := GroupRef.mk.inj hsame
    exact hfirst hlt

/-- What a resource that has moved owns, and where one that has not is. -/
theorem Placed.owns_or_settled (h : Placed l t) (ht : Consistent t.rows t.refs)
    (hf : ⟨r, f⟩ ∈ t.refs k) :
    (l.Loose k r ∧ f ∈ t.issued ∧ t.Owns k r f) ∨ (¬ l.Loose k r ∧ ⟨r, f⟩ ∈ l.refs k) := by
  obtain ⟨g, hg⟩ := h.resources k r f hf
  obtain ⟨f', hf', hplaced⟩ := h.placed k r g hg
  obtain rfl : f' = f := (GroupRef.mk.inj (t.eq_of_resource_eq hf' hf rfl)).2
  rcases hplaced with rfl | ⟨hloose, -, hissued, howns, -⟩
  · exact .inr ⟨(h.settled_iff ht hg).1 hf, hg⟩
  · exact .inl ⟨hloose, hissued, howns⟩

/-- Resources that share a group in one consistent ledger share one in the other. -/
theorem Placed.shared (h₁ : Placed l t₁) (h₂ : Placed l t₂) (hc₁ : Consistent t₁.rows t₁.refs)
    (hr₁ : ⟨r, f₁⟩ ∈ t₁.refs k) (hr₂ : ⟨r, f₂⟩ ∈ t₂.refs k)
    (hr₁' : ⟨r', f₁⟩ ∈ t₁.refs k') (hr₂' : ⟨r', f₂'⟩ ∈ t₂.refs k') : f₂ = f₂' := by
  rcases h₁.owns_or_settled hc₁ hr₁ with ⟨-, -, howns⟩ | ⟨hsettled, hg⟩
  · obtain ⟨rfl, rfl⟩ := howns k' r' hr₁'
    exact (GroupRef.mk.inj (t₂.eq_of_resource_eq hr₂ hr₂' rfl)).2
  rcases h₁.owns_or_settled hc₁ hr₁' with ⟨-, -, howns⟩ | ⟨hsettled', hg'⟩
  · obtain ⟨rfl, rfl⟩ := howns k r hr₁
    exact (GroupRef.mk.inj (t₂.eq_of_resource_eq hr₂ hr₂' rfl)).2
  have heq := t₂.eq_of_resource_eq hr₂ (h₂.mem_of_not_loose hg hsettled) rfl
  have heq' := t₂.eq_of_resource_eq hr₂' (h₂.mem_of_not_loose hg' hsettled') rfl
  rw [(GroupRef.mk.inj heq).2, (GroupRef.mk.inj heq').2]

/-- The groups of one consistent ledger are renamed to those of the other, and only those that were
handed out get another name. -/
theorem Placed.exists_rename (h₁ : Placed l t₁) (h₂ : Placed l t₂)
    (hc₁ : Consistent t₁.rows t₁.refs) (hc₂ : Consistent t₂.rows t₂.refs) :
    ∃ rename : GroupId → GroupId,
      (∀ k r f₁ f₂, ⟨r, f₁⟩ ∈ t₁.refs k → ⟨r, f₂⟩ ∈ t₂.refs k → rename f₁ = f₂) ∧
      (∀ g, g ∉ t₁.issued → rename g = g) ∧
      ∀ k, ∀ a ∈ t₁.refs k, rename a.group = a.group ∨
        (a.group ∈ t₁.issued ∧ rename a.group ∈ t₂.issued) := by
  classical
  let renamed (g f : GroupId) : Prop := ∃ k r, ⟨r, g⟩ ∈ t₁.refs k ∧ ⟨r, f⟩ ∈ t₂.refs k
  let rename (g : GroupId) : GroupId := if h : ∃ f, renamed g f then h.choose else g
  have hrename : ∀ k r f₁ f₂, ⟨r, f₁⟩ ∈ t₁.refs k → ⟨r, f₂⟩ ∈ t₂.refs k → rename f₁ = f₂ := by
    intro k r f₁ f₂ hr₁ hr₂
    have hex : ∃ f, renamed f₁ f := ⟨f₂, k, r, hr₁, hr₂⟩
    obtain ⟨k', r', hr₁', hr₂'⟩ := hex.choose_spec
    rw [show rename f₁ = hex.choose from dif_pos hex]
    exact h₁.shared h₂ hc₁ hr₁' hr₂' hr₁ hr₂
  have hmoved : ∀ k r f, ⟨r, f⟩ ∈ t₁.refs k → rename f = f ∨
      (f ∈ t₁.issued ∧ rename f ∈ t₂.issued) := by
    intro k r f hf
    obtain ⟨g, hg⟩ := h₁.resources k r f hf
    obtain ⟨f', hf', -⟩ := h₂.placed k r g hg
    rw [hrename k r f f' hf hf']
    rcases h₁.owns_or_settled hc₁ hf with ⟨hloose, hissued, -⟩ | ⟨hsettled, hf₀⟩
    · rcases h₂.owns_or_settled hc₂ hf' with ⟨-, hissued', -⟩ | ⟨hsettled, -⟩
      · exact .inr ⟨hissued, hissued'⟩
      · exact (hsettled hloose).elim
    · have heq := t₂.eq_of_resource_eq hf' (h₂.mem_of_not_loose hf₀ hsettled) rfl
      exact .inl (GroupRef.mk.inj heq).2
  refine ⟨rename, hrename, fun g hg => ?_, fun k a ha => hmoved k _ _ ha⟩
  by_cases hex : ∃ f, renamed g f
  · obtain ⟨-, k, r, hr₁, -⟩ := hex
    exact (hmoved k r g hr₁).resolve_right fun h => hg h.1
  · exact dif_neg hex

/-- In a consistent ledger a resource gives what the rows of its group are. -/
theorem outcome_of_consistent (ht : Consistent t.rows t.refs) (hf : ⟨r, f⟩ ∈ t.refs k) (x : Right) :
    t.Outcome operator f x ↔ ∃ e ∈ t.rows, e.group = f ∧ e.right = x := by
  rw [Ledger.outcome_of_populated (ht.valid k _ hf) (ht.populated k _ hf)]
  refine exists_congr fun e => and_congr_right fun he => and_congr_right fun _ => ?_
  rw [Grant.rights_of_unmixed (ht.unmixed e he), List.mem_singleton, eq_comm]

/-- Every row of one consistent ledger has a row in the other that gives the same for the same
resource. -/
theorem exists_row (h₁ : Moves operator view l t₁) (h₂ : Moves operator view l t₂)
    (hknown : view.complete) (hc₁ : Consistent t₁.rows t₁.refs) (hc₂ : Consistent t₂.rows t₂.refs)
    {e : Entry} (he : e ∈ t₁.rows) : ∃ e' ∈ t₂.rows, e'.right = e.right ∧
      ∃ k r, ⟨r, e.group⟩ ∈ t₁.refs k ∧ ⟨r, e'.group⟩ ∈ t₂.refs k := by
  obtain ⟨k, ⟨r, f⟩, hr, rfl⟩ := hc₁.referenced e he
  obtain ⟨g, hg⟩ := (h₁.placed hknown).resources k r _ hr
  obtain ⟨f₁, hf₁, houtcome₁, -⟩ := h₁.outcome hg (.inl hknown)
  obtain ⟨f₂, hf₂, houtcome₂, -⟩ := h₂.outcome hg (.inl hknown)
  obtain rfl : f₁ = e.group := (GroupRef.mk.inj (t₁.eq_of_resource_eq hf₁ hr rfl)).2
  have hgiven : t₁.Outcome operator e.group e.right :=
    (outcome_of_consistent hc₁ hf₁ e.right).2 ⟨e, he, rfl, rfl⟩
  obtain ⟨e', he', rfl, hright⟩ := (outcome_of_consistent hc₂ hf₂ e.right).1
    ((houtcome₂ _).2 ((houtcome₁ _).1 hgiven))
  exact ⟨e', he', hright, k, r, hr, hf₂⟩

/-- Rows that no two repeat stay different when they are looked at through a function that tells
their grants apart. -/
theorem nodup_map_rows {β : Type} (ht : Consistent t.rows t.refs) {view : Entry → β}
    (hview : ∀ a ∈ t.rows, ∀ b ∈ t.rows, view a = view b → a.toGrant = b.toGrant) :
    (t.rows.map view).Nodup := by
  refine List.pairwise_map.2 (t.ascending.imp_of_mem fun {a b} ha hb hlt heq => ?_)
  have hsame := ht.single a ha b hb (hview a ha b hb heq)
  exact Identifier.lt_irrefl _ (hsame ▸ hlt)

/-- Consistent ledgers that are reached from the same one are the same, but for the group
identifiers that were handed out on the way. The same resources have kept their groups. -/
theorem sameUpTo_of_moves (h₁ : Moves operator view l t₁) (h₂ : Moves operator view l t₂)
    (hknown : view.complete) (hc₁ : Consistent t₁.rows t₁.refs) (hc₂ : Consistent t₂.rows t₂.refs) :
    ∃ rename, SameUpTo rename t₁.rows t₂.rows t₁.refs t₂.refs ∧
      (∀ g, g ∉ t₁.issued → rename g = g) ∧
      (∀ k, ∀ a ∈ t₁.refs k, rename a.group = a.group ∨
        (a.group ∈ t₁.issued ∧ rename a.group ∈ t₂.issued)) ∧
      ∀ k r g, ⟨r, g⟩ ∈ l.refs k → (⟨r, g⟩ ∈ t₁.refs k ↔ ⟨r, g⟩ ∈ t₂.refs k) := by
  have hp₁ := h₁.placed hknown
  have hp₂ := h₂.placed hknown
  obtain ⟨rename, hrename, hfixed, hmoved⟩ := hp₁.exists_rename hp₂ hc₁ hc₂
  have hrefs : ∀ k, ∀ a ∈ t₁.refs k, ⟨a.resource, rename a.group⟩ ∈ t₂.refs k := by
    intro k a ha
    obtain ⟨g, hg⟩ := hp₁.resources k a.resource a.group ha
    obtain ⟨f, hf, -⟩ := hp₂.placed k a.resource g hg
    rwa [hrename k _ _ f ha hf]
  have hinjective : ∀ k, ∀ a ∈ t₁.refs k, ∀ k', ∀ b ∈ t₁.refs k',
      rename a.group = rename b.group → a.group = b.group := by
    intro k a ha k' b hb heq
    exact hp₂.shared hp₁ hc₂ (hrefs k a ha) ha (heq ▸ hrefs k' b hb) hb
  refine ⟨rename, ⟨hinjective, fun k => ?_, ?_, ?_⟩, hfixed, hmoved, fun k r g hg => ?_⟩
  · have hsorted : ((t₁.refs k).map fun a => (⟨a.resource, rename a.group⟩ : GroupRef)).Pairwise
        fun a b => a.resource < b.resource := List.pairwise_map.2 (t₁.ordered k)
    have hlt : ∀ a b : GroupRef, a.resource < b.resource → a ≠ b := fun a b h heq =>
      Identifier.lt_irrefl _ (heq ▸ h)
    refine List.Perm.eq_of_pairwise (fun a b _ _ h h' => ?_) (t₂.ordered k) hsorted ?_
    · exact (Identifier.lt_irrefl _ (Identifier.lt_trans h h')).elim
    · refine (List.perm_ext_iff_of_nodup ((t₂.ordered k).imp (hlt _ _)) (hsorted.imp (hlt _ _))).2
        fun x => ⟨fun hx => ?_, fun hx => ?_⟩
      · obtain ⟨g, hg⟩ := hp₂.resources k x.resource x.group hx
        obtain ⟨f, hf, -⟩ := hp₁.placed k x.resource g hg
        refine List.mem_map.2 ⟨_, hf, ?_⟩
        rw [hrename k _ f x.group hf hx]
      · obtain ⟨a, ha, rfl⟩ := List.mem_map.1 hx
        exact hrefs k a ha
  · refine (List.perm_ext_iff_of_nodup (nodup_map_rows hc₂ fun a _ b _ => id)
      (nodup_map_rows hc₁ fun a ha b hb heq => ?_)).2 fun x => ⟨fun hx => ?_, fun hx => ?_⟩
    · obtain ⟨k, x, hx, hxg⟩ := hc₁.referenced a ha
      obtain ⟨k', y, hy, hyg⟩ := hc₁.referenced b hb
      have hgroup : rename a.group = rename b.group := congrArg Grant.group heq
      have hright : (a.withGroup (rename a.group)).right =
          (b.withGroup (rename b.group)).right := by
        rw [heq]
      refine Grant.eq_of_right_eq ?_ hright
      rw [← hxg, ← hyg]
      exact hinjective k x hx k' y hy (by rw [hxg, hyg, hgroup])
    · obtain ⟨e, he, rfl⟩ := List.mem_map.1 hx
      obtain ⟨e', he', hright, k, r, hr, hr'⟩ := exists_row h₂ h₁ hknown hc₂ hc₁ he
      refine List.mem_map.2 ⟨e', he', Grant.eq_of_right_eq ?_ hright⟩
      exact hrename k r _ _ hr' hr
    · obtain ⟨e, he, rfl⟩ := List.mem_map.1 hx
      obtain ⟨e', he', hright, k, r, hr, hr'⟩ := exists_row h₁ h₂ hknown hc₁ hc₂ he
      refine List.mem_map.2 ⟨e', he', Grant.eq_of_right_eq ?_ hright⟩
      exact (hrename k r _ _ hr hr').symm
  · exact nodup_map_rows hc₂ fun a _ b _ => id
  · rw [hp₁.settled_iff hc₁ hg, hp₂.settled_iff hc₂ hg]

end Sweep

end AccessGroups
