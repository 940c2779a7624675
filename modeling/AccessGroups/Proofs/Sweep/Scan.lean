import AccessGroups.Proofs.Program.Account
import AccessGroups.Sweep.Scan

/-!
# What a sweep finds

The scan of a sweep reads the rows and the references, and changes nothing. Of the references it
finds those that are *loose*: their group is no valid one, or an earlier resource of the kind has
it. Every other valid group is that of the first resource of its kind. A listing that fails hides
the references of its kind, but what is found is there nevertheless.

## Main definitions

* `Ledger.Loose`: a resource needs a group of its own.
* `Scan.Orderly`: what is known of the missing groups of a scan.
* `Scan.Reads`: the scan has found what is in the ledger.

## Main results

* `Ledger.exists_settled`: every valid group is that of a resource that is not loose.
* `Scan.mem_referenced_addRefs`, `Scan.addRefs_spec`: what the references of one kind add to a scan.
* `Sweep.scan_meets`: the scan reads the ledger.
-/

namespace AccessGroups

/-- The group of the resource is not valid, or an earlier resource of its kind has it. -/
def Ledger.Loose (l : Ledger) (k : ResourceKind) (r : ResourceId) : Prop :=
  ∃ g, ⟨r, g⟩ ∈ l.refs k ∧ (¬ g.IsValid ∨ ∃ b ∈ l.refs k, b.resource < r ∧ b.group = g)

theorem Ledger.loose_congr {l t : Ledger} (h : t.refs = l.refs) (k : ResourceKind)
    (r : ResourceId) : t.Loose k r ↔ l.Loose k r := by
  simp only [Ledger.Loose, h]

/-- The first resource of a kind with a valid group is not loose. -/
theorem Ledger.exists_settled {l : Ledger} {k : ResourceKind} {a : GroupRef} (ha : a ∈ l.refs k)
    (hvalid : a.group.IsValid) :
    ∃ r, ⟨r, a.group⟩ ∈ l.refs k ∧ ¬ l.Loose k r ∧ ¬ a.resource < r := by
  obtain ⟨b, hb⟩ : ∃ b, (l.refs k).find? (fun x => x.group = a.group) = some b :=
    Option.isSome_iff_exists.1 (List.find?_isSome.2 ⟨a, ha, by simp⟩)
  obtain ⟨hgroup, front, rest, hsplit, hfront⟩ := List.find?_eq_some_iff_append.1 hb
  have hordered := l.ordered k
  rw [hsplit] at hordered
  have hrest := (List.pairwise_cons.1 (List.pairwise_append.1 hordered).2.1).1
  have hgroup : b.group = a.group := by simpa using hgroup
  have hfirst : ∀ x ∈ l.refs k, x.group = a.group → x = b ∨ b.resource < x.resource := by
    intro x hx hxg
    rw [hsplit] at hx
    rcases List.mem_append.1 hx with hx | hx
    · simpa [hxg] using hfront x hx
    · rcases List.mem_cons.1 hx with rfl | hx
      · exact .inl rfl
      · exact .inr (hrest x hx)
  have hbmem : b ∈ l.refs k := List.mem_of_find?_eq_some hb
  refine ⟨b.resource, hgroup ▸ hbmem, ?_, ?_⟩
  · rintro ⟨g, hg, hloose⟩
    have heq : g = a.group := by
      have := l.eq_of_resource_eq hg hbmem rfl
      rw [← hgroup, ← this]
    subst heq
    rcases hloose with hinvalid | ⟨x, hx, hlt, hxg⟩
    · exact hinvalid hvalid
    · rcases hfirst x hx hxg with rfl | hlt'
      · exact Identifier.lt_irrefl _ hlt
      · exact Identifier.lt_irrefl _ (Identifier.lt_trans hlt hlt')
  · intro hlt
    rcases hfirst a ha rfl with rfl | hlt'
    · exact Identifier.lt_irrefl _ hlt
    · exact Identifier.lt_irrefl _ (Identifier.lt_trans hlt hlt')

namespace Scan

variable {s t : Scan} {l : Ledger} {kind : ResourceKind} {seen : List GroupId}
  {refs : List GroupRef} {g : GroupId}

/-! ### The references of one kind -/

/-- A reference is invalid or repeats an earlier one. -/
def Repeating (seen : List GroupId) (refs : List GroupRef) (a : GroupRef) : Prop :=
  ¬ a.group.IsValid ∨ a.group ∈ seen ∨ ∃ b ∈ refs, b.resource < a.resource ∧ b.group = a.group

/-- What references of a kind add to a scan, after those whose groups were seen. -/
structure Adds (kind : ResourceKind) (seen : List GroupId) (refs : List GroupRef) (s t : Scan) :
    Prop where
  stored : t.stored = s.stored
  listingFailed : t.listingFailed = s.listingFailed
  referenced : ∀ g, g ∈ t.referenced ↔
    g ∈ s.referenced ∨ (g.IsValid ∧ g ∉ seen ∧ ∃ a ∈ refs, a.group = g)
  missing : ∀ g, g ∈ t.missing ↔
    g ∈ s.missing ∨ (g.IsValid ∧ g ∉ seen ∧ (∃ a ∈ refs, a.group = g) ∧ g ∉ s.stored)
  shared : ∃ added, t.shared = s.shared ++ added ∧ added.Pairwise (fun x y => x.2 < y.2) ∧
    ∀ i, i ∈ added ↔ i.1 = kind ∧ ∃ a ∈ refs, a.resource = i.2 ∧ Repeating seen refs a

@[simp] theorem stored_addRef (a : GroupRef) : (s.addRef kind seen a).stored = s.stored := by
  rw [addRef]
  split <;> rfl

@[simp] theorem stored_addRefs (refs : List GroupRef) (s : Scan) (seen : List GroupId) :
    (addRefs kind seen s refs).stored = s.stored := by
  induction refs generalizing s seen with
  | nil => rfl
  | cons a rest ih => rw [addRefs, ih, stored_addRef]

@[simp] theorem listingFailed_addRefs (refs : List GroupRef) (s : Scan) (seen : List GroupId) :
    (addRefs kind seen s refs).listingFailed = s.listingFailed := by
  induction refs generalizing s seen with
  | nil => rfl
  | cons a rest ih =>
    rw [addRefs, ih, addRef]
    split <;> rfl

/-- A reference that is loose adds no group, as it is not valid or was seen before. -/
theorem new_cons_iff_of_loose {a : GroupRef} {rest : List GroupRef}
    (hloose : ¬ a.group.IsValid ∨ a.group ∈ seen) (g : GroupId) :
    (g.IsValid ∧ g ∉ a.group :: seen ∧ ∃ b ∈ rest, b.group = g) ↔
      (g.IsValid ∧ g ∉ seen ∧ ∃ b ∈ a :: rest, b.group = g) := by
  simp only [List.mem_cons, not_or, exists_eq_or_imp]
  constructor
  · rintro ⟨hg, ⟨-, hseen⟩, hb⟩
    exact ⟨hg, hseen, .inr hb⟩
  · rintro ⟨hg, hseen, heq | hb⟩
    · subst heq
      exact (hloose.elim (· hg) hseen).elim
    · refine ⟨hg, ⟨?_, hseen⟩, hb⟩
      rintro rfl
      exact hloose.elim (· hg) hseen

/-- A reference that is not loose adds its group. -/
theorem new_cons_iff {a : GroupRef} {rest : List GroupRef} (hvalid : a.group.IsValid)
    (hseen : a.group ∉ seen) (g : GroupId) :
    (g.IsValid ∧ g ∉ seen ∧ ∃ b ∈ a :: rest, b.group = g) ↔
      g = a.group ∨ (g.IsValid ∧ g ∉ a.group :: seen ∧ ∃ b ∈ rest, b.group = g) := by
  by_cases heq : g = a.group
  · subst heq
    simp [hvalid, hseen]
  · simp [heq, Ne.symm (a := g) heq]

/-- The valid groups of a listing are added, in whatever order it comes. -/
theorem mem_referenced_addRefs (refs : List GroupRef) (s : Scan) (seen : List GroupId)
    (g : GroupId) : g ∈ (addRefs kind seen s refs).referenced ↔
      g ∈ s.referenced ∨ (g.IsValid ∧ g ∉ seen ∧ ∃ a ∈ refs, a.group = g) := by
  induction refs generalizing s seen with
  | nil => simp [addRefs]
  | cons a rest ih =>
    rw [addRefs, ih]
    by_cases hloose : ¬ a.group.IsValid ∨ a.group ∈ seen
    · rw [addRef, if_pos hloose, new_cons_iff_of_loose hloose]
    · obtain ⟨hvalid, hseen⟩ := not_or.1 hloose
      rw [addRef, if_neg hloose, new_cons_iff (not_not.1 hvalid) hseen,
        Identifier.mem_insertInto, or_assoc, or_left_comm]

theorem mem_missing_addRefs (refs : List GroupRef) (s : Scan) (seen : List GroupId) (g : GroupId) :
    g ∈ (addRefs kind seen s refs).missing ↔ g ∈ s.missing ∨
      ((g.IsValid ∧ g ∉ seen ∧ ∃ a ∈ refs, a.group = g) ∧ g ∉ s.stored) := by
  induction refs generalizing s seen with
  | nil => simp [addRefs]
  | cons a rest ih =>
    rw [addRefs, ih, stored_addRef]
    by_cases hloose : ¬ a.group.IsValid ∨ a.group ∈ seen
    · rw [addRef, if_pos hloose, new_cons_iff_of_loose hloose]
    · obtain ⟨hvalid, hseen⟩ := not_or.1 hloose
      rw [addRef, if_neg hloose, new_cons_iff (not_not.1 hvalid) hseen]
      by_cases hstored : a.group ∈ s.stored
      · have hnone : ¬ (g = a.group ∧ g ∉ s.stored) := by
          rintro ⟨rfl, hnot⟩
          exact hnot hstored
        rw [if_pos hstored, or_and_right, or_iff_right hnone]
      · rw [if_neg hstored, Identifier.mem_insertInto, or_and_right, ← or_assoc,
          or_comm (a := g = a.group)]
        refine or_congr_left (or_congr_right ⟨?_, And.left⟩)
        rintro rfl
        exact ⟨rfl, hstored⟩

/-- The references that are found to be loose are among those of the listing. -/
theorem mem_shared_addRefs {refs : List GroupRef} {s : Scan} {seen : List GroupId}
    {i : ResourceKind × ResourceId} (h : i ∈ (addRefs kind seen s refs).shared) :
    i ∈ s.shared ∨ (i.1 = kind ∧ ∃ a ∈ refs, a.resource = i.2) := by
  induction refs generalizing s seen with
  | nil => exact .inl h
  | cons a rest ih =>
    rcases ih h with hs | ⟨hkind, b, hb, hres⟩
    · rw [addRef] at hs
      split at hs
      · rcases List.mem_append.1 hs with hs | hs
        · exact .inl hs
        · obtain rfl := List.mem_singleton.1 hs
          exact .inr ⟨rfl, a, List.mem_cons_self, rfl⟩
      · exact .inl hs
    · exact .inr ⟨hkind, b, List.mem_cons_of_mem _ hb, hres⟩

/-- The references of a listing in its order that are loose are noted in this order. -/
theorem shared_addRefs (hrefs : refs.Pairwise fun a b => a.resource < b.resource) (s : Scan)
    (seen : List GroupId) : ∃ added, (addRefs kind seen s refs).shared = s.shared ++ added ∧
      added.Pairwise (fun x y => x.2 < y.2) ∧
        ∀ i, i ∈ added ↔ i.1 = kind ∧ ∃ a ∈ refs, a.resource = i.2 ∧ Repeating seen refs a := by
  induction refs generalizing s seen with
  | nil => exact ⟨[], by simp [addRefs], .nil, by simp⟩
  | cons a rest ih =>
    obtain ⟨ha, hrest⟩ := List.pairwise_cons.1 hrefs
    have hnot : ∀ b ∈ a :: rest, ¬ b.resource < a.resource := by
      intro b hb hlt
      rcases List.mem_cons.1 hb with rfl | hb
      · exact Identifier.lt_irrefl _ hlt
      · exact Identifier.lt_irrefl _ (Identifier.lt_trans hlt (ha b hb))
    have hrepeat : ∀ x ∈ rest,
        Repeating (a.group :: seen) rest x ↔ Repeating seen (a :: rest) x := by
      intro x hx
      have := ha x hx
      simp only [Repeating, List.mem_cons, exists_eq_or_imp, this, true_and, or_assoc]
      rw [or_left_comm (a := x.group = a.group), eq_comm (a := x.group)]
    obtain ⟨added, hshared, hsorted, hadded⟩ := ih hrest (s.addRef kind seen a) (a.group :: seen)
    rw [addRefs]
    by_cases hloose : ¬ a.group.IsValid ∨ a.group ∈ seen
    · rw [addRef, if_pos hloose] at hshared ⊢
      refine ⟨(kind, a.resource) :: added, by rw [hshared]; simp, ?_, fun i => ?_⟩
      · refine List.pairwise_cons.2 ⟨fun i hi => ?_, hsorted⟩
        obtain ⟨-, b, hb, hres, -⟩ := (hadded i).1 hi
        exact hres ▸ ha b hb
      · rw [List.mem_cons, hadded i]
        constructor
        · rintro (rfl | ⟨hkind, b, hb, hres, hrep⟩)
          · exact ⟨rfl, a, List.mem_cons_self, rfl, hloose.imp_right .inl⟩
          · exact ⟨hkind, b, List.mem_cons_of_mem _ hb, hres, (hrepeat b hb).1 hrep⟩
        · rintro ⟨hkind, b, hb, hres, hrep⟩
          rcases List.mem_cons.1 hb with rfl | hb
          · exact .inl (Prod.ext hkind hres.symm)
          · exact .inr ⟨hkind, b, hb, hres, (hrepeat b hb).2 hrep⟩
    · obtain ⟨hvalid, hseen⟩ := not_or.1 hloose
      rw [addRef, if_neg hloose] at hshared ⊢
      refine ⟨added, hshared, hsorted, fun i => ?_⟩
      rw [hadded i]
      refine and_congr_right fun _ => ⟨?_, ?_⟩
      · rintro ⟨b, hb, hres, hrep⟩
        exact ⟨b, List.mem_cons_of_mem _ hb, hres, (hrepeat b hb).1 hrep⟩
      · rintro ⟨b, hb, hres, hrep⟩
        rcases List.mem_cons.1 hb with rfl | hb
        · rcases hrep with hinvalid | hrep | ⟨c, hc, hlt, -⟩
          · exact (hinvalid (not_not.1 hvalid)).elim
          · exact (hseen hrep).elim
          · exact (hnot c hc hlt).elim
        · exact ⟨b, hb, hres, (hrepeat b hb).2 hrep⟩

theorem addRefs_spec (hrefs : refs.Pairwise fun a b => a.resource < b.resource) (s : Scan)
    (seen : List GroupId) : Adds kind seen refs s (addRefs kind seen s refs) where
  stored := stored_addRefs refs s seen
  listingFailed := listingFailed_addRefs refs s seen
  referenced := mem_referenced_addRefs refs s seen
  missing g := by simp only [mem_missing_addRefs, and_assoc]
  shared := shared_addRefs hrefs s seen

/-! ### Missing groups -/

/-- The missing groups are referenced and not stored, and each is in the list once. -/
structure Orderly (s : Scan) : Prop where
  missing : ∀ g ∈ s.missing, g ∈ s.referenced ∧ g ∉ s.stored
  ascending : s.missing.Pairwise (· < ·)

theorem orderly_start (rows : List Entry) : (start rows).Orderly :=
  ⟨fun _ hg => (List.not_mem_nil hg).elim, .nil⟩

theorem Orderly.addRef (h : s.Orderly) (seen : List GroupId) (ref : GroupRef) :
    (s.addRef kind seen ref).Orderly := by
  rw [Scan.addRef]
  split
  · exact ⟨h.missing, h.ascending⟩
  · have hold {g : GroupId} (hg : g ∈ s.missing) :
        g ∈ Identifier.insertInto ref.group s.referenced ∧ g ∉ s.stored :=
      (h.missing g hg).imp_left fun hg => Identifier.mem_insertInto.2 (.inr hg)
    refine ⟨fun g hg => ?_, ?_⟩
    · dsimp only at hg
      split at hg
      · exact hold hg
      · next hnew =>
        rcases Identifier.mem_insertInto.1 hg with rfl | hg
        · exact ⟨Identifier.mem_insertInto.2 (.inl rfl), hnew⟩
        · exact hold hg
    · dsimp only
      split
      · exact h.ascending
      · exact Identifier.pairwise_insertInto h.ascending

theorem Orderly.addRefs (h : s.Orderly) (refs : List GroupRef) (seen : List GroupId) :
    (addRefs kind seen s refs).Orderly := by
  induction refs generalizing seen s with
  | nil => exact h
  | cons ref rest ih => exact ih (h.addRef seen ref) _

/-! ### All references -/

/-- The scan has found what is in the ledger, but for the kinds that are still to be listed. What a
failed listing hides is not there. -/
structure Reads (s : Scan) (l : Ledger) (rest : List ResourceKind) : Prop where
  stored : ∀ g, g ∈ s.stored ↔ l.Populated g
  valid : ∀ g ∈ s.referenced, g.IsValid
  refers : ∀ g ∈ s.referenced, l.Refers g
  missing : ∀ g, g ∈ s.missing ↔ g ∈ s.referenced ∧ g ∉ s.stored
  loose : ∀ i ∈ s.shared, i.1 ∉ rest ∧ l.Loose i.1 i.2
  nodup : s.shared.Nodup
  referenced : s.listingFailed = false →
    ∀ k, k ∉ rest → ∀ a ∈ l.refs k, a.group.IsValid → a.group ∈ s.referenced
  shared : s.listingFailed = false → ∀ k, k ∉ rest → ∀ r, l.Loose k r → (k, r) ∈ s.shared

theorem reads_start (l : Ledger) : (start l.rows).Reads l ResourceKind.all where
  stored g := by
    simp [start, Identifier.mem_distinct, Ledger.Populated]
  valid g hg := (List.not_mem_nil hg).elim
  refers g hg := (List.not_mem_nil hg).elim
  missing g := by simp [start]
  loose i hi := (List.not_mem_nil hi).elim
  nodup := .nil
  referenced _ k hk := (hk k.mem_all).elim
  shared _ k hk := (hk k.mem_all).elim

theorem Reads.addFailure {rest : List ResourceKind} (h : s.Reads l (kind :: rest)) :
    s.addFailure.Reads l rest where
  stored := h.stored
  valid := h.valid
  refers := h.refers
  missing := h.missing
  loose i hi := ⟨fun hmem => (h.loose i hi).1 (List.mem_cons_of_mem _ hmem), (h.loose i hi).2⟩
  nodup := h.nodup
  referenced hfailed := Bool.noConfusion hfailed
  shared hfailed := Bool.noConfusion hfailed

/-- What repeats in a listing is what is loose among the resources of the kind. -/
theorem loose_iff {r : ResourceId} :
    l.Loose kind r ↔ ∃ a ∈ l.refs kind, a.resource = r ∧ Repeating [] (l.refs kind) a := by
  constructor
  · rintro ⟨g, hg, hloose⟩
    exact ⟨⟨r, g⟩, hg, rfl, hloose.imp_right .inr⟩
  · rintro ⟨⟨r, g⟩, hg, rfl, hloose⟩
    exact ⟨g, hg, hloose.imp_right fun h => h.resolve_left (List.not_mem_nil)⟩

theorem Reads.addListing {rest : List ResourceKind} (h : s.Reads l (kind :: rest))
    (hkind : kind ∉ rest) : (s.addListing kind (l.refs kind)).Reads l rest := by
  have hadds : Adds kind [] (l.refs kind) s (s.addListing kind (l.refs kind)) :=
    addRefs_spec (l.ordered kind) s []
  obtain ⟨added, hshared, hsorted, hadded⟩ := hadds.shared
  have hreferenced : ∀ g, g ∈ (s.addListing kind (l.refs kind)).referenced ↔
      g ∈ s.referenced ∨ (g.IsValid ∧ ∃ a ∈ l.refs kind, a.group = g) := by
    simpa using hadds.referenced
  refine ⟨fun g => ?_, fun g hg => ?_, fun g hg => ?_, fun g => ?_, fun i hi => ?_, ?_,
    fun hfailed k hk a ha hvalid => ?_, fun hfailed k hk r hr => ?_⟩
  · rw [hadds.stored]
    exact h.stored g
  · rcases (hreferenced g).1 hg with hg | ⟨hvalid, -⟩
    · exact h.valid g hg
    · exact hvalid
  · rcases (hreferenced g).1 hg with hg | ⟨-, a, ha, heq⟩
    · exact h.refers g hg
    · exact ⟨kind, a, ha, heq⟩
  · rw [hadds.missing g, hreferenced g, hadds.stored, h.missing g]
    simp only [List.not_mem_nil, not_false_eq_true, true_and, or_and_right, and_assoc]
  · rw [hshared] at hi
    rcases List.mem_append.1 hi with hi | hi
    · exact ⟨fun hmem => (h.loose i hi).1 (List.mem_cons_of_mem _ hmem), (h.loose i hi).2⟩
    · obtain ⟨hk, hrep⟩ := (hadded i).1 hi
      exact hk ▸ ⟨hkind, loose_iff.2 (hk ▸ hrep)⟩
  · rw [hshared]
    refine List.nodup_append.2
      ⟨h.nodup, Identifier.nodup_of_pairwise_lt hsorted, fun x hx y hy heq => ?_⟩
    refine (h.loose x hx).1 ?_
    rw [heq, ((hadded y).1 hy).1]
    exact List.mem_cons_self
  · rw [hadds.listingFailed] at hfailed
    refine (hreferenced a.group).2 ?_
    by_cases heq : k = kind
    · subst heq
      exact .inr ⟨hvalid, a, ha, rfl⟩
    · refine .inl (h.referenced hfailed k ?_ a ha hvalid)
      simp [heq, hk]
  · rw [hadds.listingFailed] at hfailed
    rw [hshared]
    by_cases heq : k = kind
    · subst heq
      exact List.mem_append_right _ ((hadded _).2 ⟨rfl, loose_iff.1 hr⟩)
    · refine List.mem_append_left _ (h.shared hfailed k ?_ r hr)
      simp [heq, hk]

end Scan

namespace Sweep

variable {k : Conditions} {a : Account}

/-- What a scan comes to: it has read the ledger, noted the listings that failed, and repaired
nothing. -/
structure Scanned (k : Conditions) (a : Account) (r : Summary) (x : Scan × Summary) (b : Account) :
    Prop where
  looked : a.Looked b
  reads : x.1.Reads a.ledger []
  repairs : x.2.repairs = r.repairs
  cancelled : x.2.cancelled = r.cancelled
  failures : x.1.listingFailed = false → x.2.failures = r.failures
  listingFailed : x.1.listingFailed = true → ∃ kind, k.mayFail (.registry (.listRefs kind))
  listed : ∀ kind, ¬ k.mayFail (.registry (.listRefs kind)) →
    ∀ y ∈ a.ledger.refs kind, y.group.IsValid → y.group ∈ x.1.referenced

/-- No listing failed if none can. -/
theorem Scanned.listingFailed_eq_false {r : Summary} {x : Scan × Summary} {b : Account}
    (h : Scanned k a r x b) (hnone : ∀ kind, ¬ k.mayFail (.registry (.listRefs kind))) :
    x.1.listingFailed = false := by
  refine Bool.eq_false_iff.2 fun hfailed => ?_
  obtain ⟨kind, hmay⟩ := h.listingFailed hfailed
  exact hnone kind hmay

theorem scanKinds_meets (kinds : List ResourceKind) (hnodup : kinds.Nodup) (s : Scan) (r : Summary)
    (hreads : s.Reads a.ledger kinds)
    (hfailed : s.listingFailed = true → ∃ kind, k.mayFail (.registry (.listRefs kind)))
    (hlisted : ∀ kind ∉ kinds, ¬ k.mayFail (.registry (.listRefs kind)) →
      ∀ y ∈ a.ledger.refs kind, y.group.IsValid → y.group ∈ s.referenced) :
    (scanKinds kinds s r).Meets (Account.Step k) (fun x b => Scanned k a r x b ∧
      (s.listingFailed = true → x.1.listingFailed = true)) a := by
  induction kinds generalizing s r a with
  | nil =>
    exact ⟨⟨.refl a, hreads, rfl, rfl, fun _ => rfl, hfailed,
      fun kind => hlisted kind List.not_mem_nil⟩, id⟩
  | cons kind rest ih =>
    obtain ⟨hkind, hrest⟩ := List.nodup_cons.1 hnodup
    have hlooked : a.Looked (a.after (.registry (.listRefs kind)) a.ledger) :=
      Account.looked_after rfl
    refine Account.meets_registry (fun v t hgives => ?_) fun hmay e => Account.meets_log ?_
    · obtain ⟨rfl, rfl⟩ := hgives
      have hadd := hreads.addListing hkind
      have hadds : Scan.Adds kind [] (a.ledger.refs kind) s _ :=
        Scan.addRefs_spec (a.ledger.ordered kind) s []
      have hsame : (s.addListing kind (a.ledger.refs kind)).listingFailed = s.listingFailed :=
        hadds.listingFailed
      refine (ih (a := a.after _ a.ledger) hrest _ _ hadd (hsame ▸ hfailed)
        fun k' hk' hcan y hy hvalid => (hadds.referenced y.group).2 ?_).mono ?_
      · by_cases heq : k' = kind
        · subst heq
          exact .inr ⟨hvalid, List.not_mem_nil, y, hy, rfl⟩
        · exact .inl (hlisted k' (by simp [heq, hk']) hcan y hy hvalid)
      · rintro x b ⟨hx, hmono⟩
        exact ⟨⟨hlooked.trans hx.looked, hx.reads, hx.repairs, hx.cancelled, hx.failures,
          hx.listingFailed, hx.listed⟩, hsame ▸ hmono⟩
    · refine (ih (a := a.after _ a.ledger) hrest _ _ hreads.addFailure
        (fun _ => ⟨kind, hmay⟩) fun k' hk' hcan => hlisted k' ?_ hcan).mono ?_
      · rw [List.mem_cons, not_or]
        refine ⟨?_, hk'⟩
        rintro rfl
        exact hcan hmay
      · rintro x b ⟨hx, hmono⟩
        exact ⟨⟨hlooked.trans hx.looked, hx.reads, hx.repairs, hx.cancelled,
          fun h => Bool.noConfusion (h.symm.trans (hmono rfl)), hx.listingFailed, hx.listed⟩,
          fun _ => hmono rfl⟩

theorem reportUnrepairable_meets {α : Type} {ids : List EntryId} {f : Unit → Prog α}
    {Q : α → Account → Prop} (h : (f ()).Meets (Account.Step k) Q a) :
    (reportUnrepairable ids >>= f).Meets (Account.Step k) Q a := by
  rw [reportUnrepairable]
  split
  · exact Account.meets_log h
  · exact h

/-- The scan reads the ledger, or fails if the rows cannot be read. -/
theorem scan_meets (k : Conditions) (a : Account) :
    scan.Meets (Account.Step k) (fun x b => match x with
      | .error _ => k.mayFail (.store .findAll) ∧ a.Looked b
      | .ok x => Scanned k a {} x b) a := by
  refine Account.meets_store (fun v t hgives => ?_) fun hmay e => ⟨hmay, Account.looked_after rfl⟩
  obtain ⟨rfl, rfl⟩ := hgives
  have hlooked : a.Looked (a.after (.store .findAll) a.ledger) := Account.looked_after rfl
  refine reportUnrepairable_meets ?_
  have hkinds := scanKinds_meets (k := k) (a := a.after (.store .findAll) a.ledger)
    ResourceKind.all (by decide) (Scan.start a.ledger.rows)
    { scannedEntries := a.ledger.rows.length
      unrepairableEntries := ((a.ledger.rows.filter fun e => e.isInert).map fun e => e.id).length }
    (Scan.reads_start a.ledger) (fun h => Bool.noConfusion h)
    fun kind hnone => (hnone kind.mem_all).elim
  refine hkinds.bind ?_
  rintro ⟨s, r⟩ b ⟨hx, -⟩
  have hscanned : Scanned k a {} (s, { r with orphanPhaseSkipped := s.listingFailed }) b :=
    ⟨hlooked.trans hx.looked, hx.reads, hx.repairs, hx.cancelled, hx.failures, hx.listingFailed,
      hx.listed⟩
  dsimp only
  split
  · exact Account.meets_log (Account.meets_log hscanned)
  · exact Account.meets_log hscanned

end Sweep

end AccessGroups
