import AccessGroups.Proofs.Program.Transcript
import AccessGroups.Proofs.Sweep.Scan

/-!
# What a scan was told

The scan of a sweep asks for the rows and then for the listings of all kinds, one after another. It
fails if the rows cannot be read, and goes on if a listing fails. What it comes to is told by the
answers: the groups that are missing, the orphans, the resources to be moved, and the failures that
the report begins with.

## Main definitions

* `Listing`: the answer to the listing of a kind.
* `Survey`: what a scan was told, with `Survey.scan`, `Survey.summary` and `Survey.exchanges`.

## Main results

* `Survey.mem_missing`, `Survey.mem_orphans`: the groups that a scan finds.
* `Survey.scan_keeps`: a property that every reference keeps holds of a scan.
* `Survey.nodup_missing`, `Survey.nodup_orphans`, `Survey.nodup_shared`: no item is there twice.
* `Sweep.leaves_scan`: the transcript of a scan.
-/

namespace AccessGroups

/-! ### Listings -/

/-- What the resources of a kind were said to be. -/
structure Listing where
  kind : ResourceKind
  answer : Except StoreError (List GroupRef)

namespace Listing

/-- The call that lists the kind. -/
def exchange (x : Listing) : Exchange :=
  ⟨.registry (.listRefs x.kind), x.answer⟩

/-- What the report says about the listing, if it failed. -/
def failure? : Listing → Option RepairFailure
  | ⟨kind, .error e⟩ => some ⟨.scan, kind.name ++ " listing", e.message⟩
  | ⟨_, .ok _⟩ => none

/-- The listing names the resources in the order of their identifiers, each one once. -/
def Ordered : Listing → Prop
  | ⟨_, .ok refs⟩ => refs.Pairwise fun a b => a.resource < b.resource
  | ⟨_, .error _⟩ => True

end Listing

/-- The scan after the listing of a kind. -/
def Scan.note (s : Scan) : Listing → Scan
  | ⟨kind, .ok refs⟩ => s.addListing kind refs
  | ⟨_, .error _⟩ => s.addFailure

@[simp] theorem Scan.note_ok (s : Scan) (kind : ResourceKind) (refs : List GroupRef) :
    s.note ⟨kind, .ok refs⟩ = addRefs kind [] s refs :=
  rfl

@[simp] theorem Scan.note_error (s : Scan) (kind : ResourceKind) (e : StoreError) :
    s.note ⟨kind, .error e⟩ = { s with listingFailed := true } :=
  rfl

/-- The report after the listing of a kind. -/
def Summary.noteListing (r : Summary) : Listing → Summary
  | ⟨_, .ok refs⟩ => { r with scannedResources := r.scannedResources + refs.length }
  | ⟨kind, .error e⟩ => r.fail ⟨.scan, kind.name ++ " listing", e.message⟩

/-! ### The scan -/

/-- What a scan was told: the rows, and the listing of every kind. -/
structure Survey where
  rows : List Entry
  listings : List Listing
  complete : listings.map Listing.kind = ResourceKind.all

namespace Survey

/-- The scan that was told this. -/
def scan (v : Survey) : Scan :=
  v.listings.foldl Scan.note (Scan.start v.rows)

/-- The report after the scan. -/
def summary (v : Survey) : Summary :=
  let start : Summary :=
    { scannedEntries := v.rows.length
      unrepairableEntries := (v.rows.filter fun e => e.isInert).length }
  { v.listings.foldl Summary.noteListing start with
    orphanPhaseSkipped := v.scan.listingFailed }

/-- The calls of the scan. -/
def exchanges (v : Survey) : List Exchange :=
  ⟨.store .findAll, .ok v.rows⟩ :: v.listings.map Listing.exchange

/-- Some listing has a resource with this group. -/
def Mentions (listings : List Listing) (g : GroupId) : Prop :=
  ∃ kind refs, ⟨kind, .ok refs⟩ ∈ listings ∧ ∃ a ∈ refs, a.group = g

/-- What listings add to a scan. -/
structure Adds (listings : List Listing) (s t : Scan) : Prop where
  stored : t.stored = s.stored
  referenced : ∀ g, g ∈ t.referenced ↔ g ∈ s.referenced ∨ (g.IsValid ∧ Mentions listings g)
  missing : ∀ g, g ∈ t.missing ↔
    g ∈ s.missing ∨ (g.IsValid ∧ Mentions listings g ∧ g ∉ s.stored)
  listingFailed : t.listingFailed = true ↔
    s.listingFailed = true ∨ ∃ kind e, ⟨kind, .error e⟩ ∈ listings

theorem mentions_append {xs ys : List Listing} {g : GroupId} :
    Mentions (xs ++ ys) g ↔ Mentions xs g ∨ Mentions ys g := by
  simp only [Mentions, List.mem_append, or_and_right, exists_or]

theorem adds_note (x : Listing) (s : Scan) : Adds [x] s (s.note x) := by
  obtain ⟨kind, e | refs⟩ := x
  · exact ⟨rfl, by simp [Mentions], by simp [Mentions], by simp⟩
  · have hmentions (g : GroupId) :
        Mentions [⟨kind, .ok refs⟩] g ↔ ∃ a ∈ refs, a.group = g := by
      constructor
      · rintro ⟨_, _, hmem, h⟩
        cases List.mem_singleton.1 hmem
        exact h
      · exact fun h => ⟨kind, refs, List.mem_singleton_self _, h⟩
    refine ⟨Scan.stored_addRefs .., fun g => ?_, fun g => ?_, ?_⟩
    · have hreferenced : g ∈ (Scan.addRefs kind [] s refs).referenced ↔ _ :=
        Scan.mem_referenced_addRefs refs s [] g
      simpa [hmentions] using hreferenced
    · have hmissing : g ∈ (Scan.addRefs kind [] s refs).missing ↔ _ :=
        Scan.mem_missing_addRefs refs s [] g
      simpa [hmentions, and_assoc] using hmissing
    · simp

theorem Adds.trans {xs ys : List Listing} {s t u : Scan} (h : Adds xs s t) (h' : Adds ys t u) :
    Adds (xs ++ ys) s u where
  stored := h'.stored.trans h.stored
  referenced g := by
    rw [h'.referenced, h.referenced, mentions_append, or_assoc, and_or_left]
  missing g := by
    rw [h'.missing, h.missing, h.stored, mentions_append, or_assoc, or_and_right, and_or_left]
  listingFailed := by
    rw [h'.listingFailed, h.listingFailed]
    simp only [List.mem_append, exists_or, or_assoc]

theorem adds_foldl (listings : List Listing) (s : Scan) :
    Adds listings s (listings.foldl Scan.note s) := by
  induction listings generalizing s with
  | nil => exact ⟨rfl, by simp [Mentions], by simp [Mentions], by simp⟩
  | cons x rest ih => exact (adds_note x s).trans (ih _)

variable (v : Survey) {g : GroupId}

theorem adds_scan : Adds v.listings (Scan.start v.rows) v.scan :=
  adds_foldl v.listings _

theorem mem_stored : g ∈ v.scan.stored ↔ ∃ e ∈ v.rows, e.group = g := by
  rw [v.adds_scan.stored, Scan.start, Identifier.mem_distinct, List.mem_map]

/-- A group is referenced if it is valid and some resource has it. -/
theorem mem_referenced : g ∈ v.scan.referenced ↔ g.IsValid ∧ Mentions v.listings g := by
  simpa [Scan.start] using v.adds_scan.referenced g

/-- A group is missing if it is valid, some resource has it and no row does. -/
theorem mem_missing : g ∈ v.scan.missing ↔
    g.IsValid ∧ Mentions v.listings g ∧ ∀ e ∈ v.rows, e.group ≠ g := by
  have hmissing := v.adds_scan.missing g
  rw [← v.adds_scan.stored, v.mem_stored] at hmissing
  simpa [Scan.start] using hmissing

/-- A group is an orphan if all listings succeeded, some row has it, and it is not valid or no
resource has it. -/
theorem mem_orphans : g ∈ v.scan.orphans ↔ (∀ kind e, ⟨kind, .error e⟩ ∉ v.listings) ∧
    (∃ e ∈ v.rows, e.group = g) ∧ ¬ (g.IsValid ∧ Mentions v.listings g) := by
  have hfailed := v.adds_scan.listingFailed
  rw [Scan.orphans]
  split
  · next h =>
    obtain ⟨kind, e, he⟩ : ∃ kind e, ⟨kind, .error e⟩ ∈ v.listings := by
      simpa [Scan.start] using hfailed.1 h
    exact ⟨fun h => absurd h List.not_mem_nil, fun h => absurd he (h.1 kind e)⟩
  · next h =>
    have hnone : ∀ kind e, ⟨kind, .error e⟩ ∉ v.listings := fun kind e he =>
      h (hfailed.2 (.inr ⟨kind, e, he⟩))
    simp [List.mem_filter, v.mem_stored, v.mem_referenced, hnone]

/-! ### Each item once -/

/-- What every reference and every listing that fails keep, a scan keeps. -/
theorem scan_keeps {P : Scan → Prop} (hstart : P (Scan.start v.rows))
    (href : ∀ s kind seen a, P s → P (s.addRef kind seen a)) (hfail : ∀ s, P s → P s.addFailure) :
    P v.scan := by
  have hrefs (kind : ResourceKind) (refs : List GroupRef) (seen : List GroupId) {s : Scan}
      (h : P s) : P (Scan.addRefs kind seen s refs) := by
    induction refs generalizing s seen with
    | nil => exact h
    | cons a rest ih => exact ih _ (href s kind seen a h)
  have hfold (listings : List Listing) {s : Scan} (h : P s) : P (listings.foldl Scan.note s) := by
    induction listings generalizing s with
    | nil => exact h
    | cons x rest ih =>
      obtain ⟨kind, e | refs⟩ := x
      · exact ih (hfail s h)
      · exact ih (hrefs kind refs [] h)
  exact hfold v.listings hstart

theorem orderly_scan : v.scan.Orderly :=
  v.scan_keeps (Scan.orderly_start v.rows) (fun _ _ seen a h => h.addRef seen a)
    fun _ h => ⟨h.missing, h.ascending⟩

/-- The groups that are referenced are in order. -/
theorem ascending_referenced : v.scan.referenced.Pairwise (· < ·) := by
  refine v.scan_keeps (P := fun s => s.referenced.Pairwise (· < ·)) .nil
    (fun s kind seen a h => ?_) fun _ h => h
  rw [Scan.addRef]
  split
  · exact h
  · exact Identifier.pairwise_insertInto h

/-- The orphans are in order. -/
theorem ascending_orphans : v.scan.orphans.Pairwise (· < ·) := by
  have hstored : v.scan.stored.Pairwise (· < ·) := by
    rw [v.adds_scan.stored]
    exact Identifier.pairwise_distinct _
  rw [Scan.orphans]
  split
  · exact .nil
  · exact hstored.filter _

theorem nodup_missing : v.scan.missing.Nodup :=
  Identifier.nodup_of_pairwise_lt v.orderly_scan.ascending

theorem nodup_orphans : v.scan.orphans.Nodup :=
  Identifier.nodup_of_pairwise_lt v.ascending_orphans

/-- No resource is to be moved twice, as its kind is listed once. -/
theorem nodup_shared (h : ∀ x ∈ v.listings, x.Ordered) : v.scan.shared.Nodup := by
  have hfold (listings : List Listing) (hordered : ∀ x ∈ listings, x.Ordered)
      (hkinds : (listings.map Listing.kind).Nodup) {s : Scan} (hs : s.shared.Nodup)
      (hapart : ∀ i ∈ s.shared, i.1 ∉ listings.map Listing.kind) :
      (listings.foldl Scan.note s).shared.Nodup := by
    induction listings generalizing s with
    | nil => exact hs
    | cons x rest ih =>
      obtain ⟨hx, hrest⟩ := List.forall_mem_cons.1 hordered
      obtain ⟨hkind, hothers⟩ := List.nodup_cons.1 hkinds
      have hold : ∀ i ∈ s.shared, i.1 ≠ x.kind ∧ i.1 ∉ rest.map Listing.kind := fun i hi =>
        not_or.1 fun hmem => hapart i hi (List.mem_cons.2 hmem)
      obtain ⟨kind, e | refs⟩ := x
      · exact ih hrest hothers hs fun i hi => (hold i hi).2
      · obtain ⟨added, hshared, hsorted, hadded⟩ := Scan.shared_addRefs hx s []
        refine ih hrest hothers ?_ fun i hi => ?_
        · rw [Scan.note_ok, hshared]
          refine List.nodup_append.2
            ⟨hs, Identifier.nodup_of_pairwise_lt hsorted, fun i hi j hj heq => ?_⟩
          exact (hold i hi).1 (heq ▸ ((hadded j).1 hj).1)
        · rw [Scan.note_ok, hshared] at hi
          rcases List.mem_append.1 hi with hi | hi
          · exact (hold i hi).2
          · rw [((hadded i).1 hi).1]
            exact hkind
  have hkinds : (v.listings.map Listing.kind).Nodup := by
    rw [v.complete]
    decide
  exact hfold v.listings h hkinds .nil fun i hi => (List.not_mem_nil hi).elim

/-- If a ledger was kept all the time, the listings are in order. -/
theorem ordered_of_leads {l t : Ledger} {calls : List Exchange}
    (h : l.Leads (v.exchanges ++ calls) t) : ∀ x ∈ v.listings, x.Ordered := by
  rintro ⟨kind, e | refs⟩ hx
  · trivial
  · have hcall : ⟨.registry (.listRefs kind), .ok refs⟩ ∈ v.listings.map Listing.exchange :=
      List.mem_map.2 ⟨_, hx, rfl⟩
    exact Ledger.Leads.ordered h (List.mem_append_left _ (List.mem_cons_of_mem _ hcall))

/-! ### The report of a scan -/

/-- A scan counts what it reads and notes what failed, and repairs nothing. -/
theorem exists_summary : ∃ entries resources inert skipped, v.summary =
    { scannedEntries := entries, scannedResources := resources, unrepairableEntries := inert
      orphanPhaseSkipped := skipped, failures := v.listings.filterMap Listing.failure? } := by
  have hfold (listings : List Listing) (r : Summary) :
      ∃ n, listings.foldl Summary.noteListing r =
        { r with
          scannedResources := n
          failures := r.failures ++ listings.filterMap Listing.failure? } := by
    induction listings generalizing r with
    | nil => exact ⟨r.scannedResources, by simp⟩
    | cons x rest ih =>
      obtain ⟨n, hn⟩ := ih (r.noteListing x)
      refine ⟨n, ?_⟩
      rw [List.foldl_cons, hn]
      obtain ⟨kind, e | refs⟩ := x
      · simp [Summary.noteListing, Summary.fail, Listing.failure?]
      · rfl
  obtain ⟨n, hn⟩ := hfold v.listings
    { scannedEntries := v.rows.length
      unrepairableEntries := (v.rows.filter fun e => e.isInert).length }
  exact ⟨v.rows.length, n, _, v.scan.listingFailed, by rw [summary, hn]; rfl⟩

end Survey

namespace Sweep

open Prog

variable {may : Prop} {operator : UserId} {fair : (op : Op) → op.Answer → Prop}
  {xs : List Exchange} {s : Scan} {r : Summary}

/-- The end of a scan: it says what it has found. -/
def conclude (x : Scan × Summary) : Prog (Except ServiceError (Scan × Summary)) := do
  if x.1.listingFailed then Prog.log .listingIncomplete
  Prog.log (.scanFinished x.2.scannedEntries x.2.scannedResources x.1.shared.length
    x.1.missing.length x.1.orphans.length)
  return .ok (x.1, { x.2 with orphanPhaseSkipped := x.1.listingFailed })

/-- A scan reads the rows, reports those that nobody can repair, and reads the listings. -/
theorem scan_eq : scan = Prog.store .findAll >>= fun
    | .error e => return .error (.store e)
    | .ok rows =>
      reportUnrepairable ((rows.filter fun e => e.isInert).map fun e => e.id) >>= fun _ =>
        scanKinds ResourceKind.all (Scan.start rows)
          { scannedEntries := rows.length
            unrepairableEntries := (rows.filter fun e => e.isInert).length } >>= conclude := by
  refine congrArg (Prog.store .findAll >>= ·) (funext fun x => ?_)
  cases x with
  | error e => rfl
  | ok rows =>
    dsimp only
    rw [List.length_map]
    rfl

/-- The scan goes on with the next kind whether a listing fails or not. -/
theorem leaves_scanKinds {kinds : List ResourceKind} {y : Option (Scan × Summary)}
    (h : (scanKinds kinds s r).Leaves fair xs y) :
    ∃ listings : List Listing,
      listings.map Listing.kind = kinds ∧ xs = listings.map Listing.exchange ∧
        y = some (listings.foldl Scan.note s, listings.foldl Summary.noteListing r) := by
  induction kinds generalizing s r xs with
  | nil =>
    obtain ⟨rfl, rfl⟩ := h
    exact ⟨[], rfl, rfl, rfl⟩
  | cons kind kinds ih =>
    obtain ⟨x, rest, -, rfl, hrest⟩ := leaves_call.1 h
    have hrest' : (scanKinds kinds (s.note ⟨kind, x⟩) (r.noteListing ⟨kind, x⟩)).Leaves fair rest
        y := by
      cases x with
      | error e => exact leaves_log hrest
      | ok refs => exact hrest
    obtain ⟨listings, rfl, rfl, rfl⟩ := ih hrest'
    exact ⟨⟨kind, x⟩ :: listings, rfl, rfl, rfl⟩

/-- The scan fails if the rows cannot be read, and then it has made no other call. -/
theorem leaves_scan {y : Option (Except ServiceError (Scan × Summary))}
    (h : scan.Leaves fair xs y) :
    (∃ e, xs = [⟨.store .findAll, .error e⟩] ∧ y = some (.error (.store e))) ∨
      ∃ v : Survey, xs = v.exchanges ∧ y = some (.ok (v.scan, v.summary)) := by
  rw [scan_eq] at h
  obtain ⟨x, rest, -, rfl, hrest⟩ := leaves_call.1 h
  cases x with
  | error e =>
    obtain ⟨rfl, rfl⟩ := hrest
    exact .inl ⟨e, rfl, rfl⟩
  | ok rows =>
    have hkinds : (scanKinds ResourceKind.all (Scan.start rows)
        { scannedEntries := rows.length
          unrepairableEntries := (rows.filter fun e => e.isInert).length } >>= conclude).Leaves
            fair rest y := by
      dsimp only at hrest
      rw [reportUnrepairable] at hrest
      split at hrest
      · exact leaves_log hrest
      · exact hrest
    obtain ⟨front, others, x, rfl, hfront, hend⟩ | ⟨hnone, -⟩ := (leaves_bind _ _).1 hkinds
    · obtain ⟨listings, hcomplete, rfl, hx⟩ := leaves_scanKinds hfront
      cases hx
      let v : Survey := ⟨rows, listings, hcomplete⟩
      have hquiet : others = [] ∧ y = some (.ok (v.scan, v.summary)) := by
        rw [conclude] at hend
        split at hend
        · exact leaves_log (leaves_log hend)
        · exact leaves_log hend
      obtain ⟨rfl, rfl⟩ := hquiet
      refine .inr ⟨v, ?_, rfl⟩
      rw [List.append_nil]
      rfl
    · obtain ⟨listings, -, -, hx⟩ := leaves_scanKinds hnone
      cases hx

end Sweep

end AccessGroups
