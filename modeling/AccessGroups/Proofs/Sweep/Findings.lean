import AccessGroups.Proofs.Program.Stateful
import AccessGroups.Proofs.Sweep.Survey
import Mathlib

/-!
# The findings of a scan

A scan goes once through the listings. It keeps the groups that it has met in the listing at hand,
which it forgets before the next listing, and all that it has met in any listing. What it finds can
be said without the order in which it goes on: which groups are referenced, which of them are
missing, which groups with a row are orphans, and which references repeat. A reference repeats if
its group is not valid or if an earlier reference of the same listing has it, so every reference
either repeats or is the first one of its group. A listing that fails shows no references, and then
no group is an orphan.

## Main definitions

* `GroupRef.repeats`: the references of a listing that repeat.
* `GroupRef.validGroups`: the valid groups of a listing.
* `readings`: the rows and the listings that a scan reads.
* `Findings`: what a scan finds in them.

## Main results

* `GroupRef.length_eq_add_card`: the references that do not repeat are one for each valid group.
* `Sweep.yields_scan`: a scan comes to what it was told.
* `Sweep.findings_scan`: what every scan finds.
-/

namespace AccessGroups

namespace GroupRef

/-- The references of a listing but for the first one of each valid group, in their order. -/
def repeats (refs : List GroupRef) : List GroupRef :=
  (refs.zipIdx.filter fun x =>
    ¬ x.1.group.IsValid ∨ ∃ b ∈ refs.take x.2, b.group = x.1.group).map Prod.fst

/-- The valid groups of a listing. -/
def validGroups (refs : List GroupRef) : Finset GroupId :=
  (refs.map GroupRef.group).toFinset.filter fun g => g.IsValid

/-- The references that repeat in the rest of a listing that began with others. -/
def repeatsAfter (front refs : List GroupRef) : List GroupRef :=
  (refs.zipIdx.filter fun x =>
    ¬ x.1.group.IsValid ∨ ∃ b ∈ front ++ refs.take x.2, b.group = x.1.group).map Prod.fst

theorem repeatsAfter_nil (refs : List GroupRef) : repeatsAfter [] refs = repeats refs :=
  rfl

variable {a : GroupRef} {front rest : List GroupRef}

theorem repeatsAfter_cons : repeatsAfter front (a :: rest) =
    if ¬ a.group.IsValid ∨ a.group ∈ front.map group then a :: repeatsAfter (a :: front) rest
    else repeatsAfter (a :: front) rest := by
  have hlater : ((rest.zipIdx 1).filter fun x => ¬ x.1.group.IsValid ∨
      ∃ b ∈ front ++ (a :: rest).take x.2, b.group = x.1.group).map Prod.fst =
        repeatsAfter (a :: front) rest := by
    rw [← Nat.zero_add 1, List.zipIdx_succ, List.filter_map, List.map_map, repeatsAfter]
    refine congrArg _ (List.filter_congr fun x _ => decide_eq_decide.2 (or_congr_right ?_))
    rw [List.take_succ_cons]
    exact exists_congr fun b => and_congr_left fun _ => List.perm_middle.mem_iff
  have hfirst : (∃ b ∈ front ++ (a :: rest).take 0, b.group = a.group) ↔
      a.group ∈ front.map group := by
    rw [List.take_zero, List.append_nil, List.mem_map]
  rw [repeatsAfter, List.zipIdx_cons, List.filter_cons]
  simp only [hfirst, decide_eq_true_eq]
  split
  · rw [List.map_cons, Nat.zero_add, hlater]
  · rw [Nat.zero_add, hlater]

@[simp] theorem validGroups_nil : validGroups [] = ∅ :=
  rfl

theorem mem_validGroups_sdiff {refs : List GroupRef} {g : GroupId} :
    g ∈ validGroups refs \ validGroups front ↔
      g.IsValid ∧ g ∉ front.map group ∧ ∃ a ∈ refs, a.group = g := by
  simp only [validGroups, Finset.mem_sdiff, Finset.mem_filter, List.mem_toFinset, List.mem_map]
  exact ⟨fun ⟨⟨hmem, hg⟩, hnot⟩ => ⟨hg, fun hfront => hnot ⟨hfront, hg⟩, hmem⟩,
    fun ⟨hg, hnot, hmem⟩ => ⟨⟨hmem, hg⟩, fun hfront => hnot hfront.1⟩⟩

/-- Every reference of a listing repeats or is the first one of its group. -/
theorem length_eq_add_card (front refs : List GroupRef) : refs.length =
    (repeatsAfter front refs).length + (validGroups refs \ validGroups front).card := by
  induction refs generalizing front with
  | nil =>
    rw [validGroups_nil, Finset.empty_sdiff, Finset.card_empty]
    rfl
  | cons a rest ih =>
    rw [List.length_cons, ih (a :: front), repeatsAfter_cons]
    by_cases hloose : ¬ a.group.IsValid ∨ a.group ∈ front.map group
    · have hsame : validGroups (a :: rest) \ validGroups front =
          validGroups rest \ validGroups (a :: front) :=
        Finset.ext fun g => by
          rw [mem_validGroups_sdiff, mem_validGroups_sdiff]
          exact (Scan.new_cons_iff_of_loose hloose g).symm
      rw [if_pos hloose, hsame, List.length_cons, Nat.add_right_comm]
    · obtain ⟨hvalid, hseen⟩ := not_or.1 hloose
      have hfirst : validGroups (a :: rest) \ validGroups front =
          insert a.group (validGroups rest \ validGroups (a :: front)) :=
        Finset.ext fun g => by
          rw [Finset.mem_insert, mem_validGroups_sdiff, mem_validGroups_sdiff]
          exact Scan.new_cons_iff (not_not.1 hvalid) hseen g
      have hnot : a.group ∉ validGroups rest \ validGroups (a :: front) := fun h =>
        (mem_validGroups_sdiff.1 h).2.1 List.mem_cons_self
      rw [if_neg hloose, hfirst, Finset.card_insert_of_notMem hnot, Nat.add_assoc]

-- A group that is not valid repeats at once, a valid one when it comes again.
example : repeats [⟨⟨1⟩, ⟨5⟩⟩, ⟨⟨2⟩, ⟨0⟩⟩, ⟨⟨3⟩, ⟨5⟩⟩, ⟨⟨4⟩, ⟨7⟩⟩] =
    [⟨⟨2⟩, ⟨0⟩⟩, ⟨⟨3⟩, ⟨5⟩⟩] := by
  decide

end GroupRef

/-- The references of a listing that repeat are noted in its order. -/
theorem Scan.shared_addRefs_eq {kind : ResourceKind} (front : List GroupRef) (s : Scan)
    (refs : List GroupRef) : (addRefs kind (front.map GroupRef.group) s refs).shared =
      s.shared ++ (GroupRef.repeatsAfter front refs).map fun a => (kind, a.resource) := by
  induction refs generalizing front s with
  | nil => exact (List.append_nil _).symm
  | cons a rest ih =>
    rw [addRefs, ← List.map_cons, ih, addRef, GroupRef.repeatsAfter_cons]
    split
    · rw [List.map_cons, List.append_assoc, List.singleton_append]
    · rfl

/-! ### What is read -/

/-- The references of a listing; a listing that fails shows none. -/
def listed (answer : Except StoreError (List GroupRef)) : List GroupRef :=
  answer.toOption.getD []

/-- The listing of a kind that is answered in this way. -/
def Listing.given (answers : ResourceKind → Except StoreError (List GroupRef))
    (kind : ResourceKind) : Listing :=
  ⟨kind, answers kind⟩

namespace Survey

variable (rows : List Entry) (answers : ResourceKind → Except StoreError (List GroupRef))

/-- A scan is told these rows, and these listings of the kinds. -/
def ofAnswers : Survey where
  rows := rows
  listings := ResourceKind.all.map (Listing.given answers)
  complete := by rw [List.map_map]; exact List.map_id _

theorem mem_listings_ofAnswers {x : Listing} :
    x ∈ (ofAnswers rows answers).listings ↔ answers x.kind = x.answer := by
  refine List.mem_map.trans ⟨?_, fun h => ⟨x.kind, x.kind.mem_all, by rw [Listing.given, h]⟩⟩
  rintro ⟨kind, -, rfl⟩
  rfl

theorem mentions_ofAnswers {g : GroupId} : Mentions (ofAnswers rows answers).listings g ↔
    ∃ kind, ∃ a ∈ listed (answers kind), a.group = g := by
  simp only [Mentions, mem_listings_ofAnswers]
  refine exists_congr fun kind => ⟨?_, ?_⟩
  · rintro ⟨refs, hrefs, ha⟩
    rw [hrefs]
    exact ha
  · cases h : answers kind with
    | error e =>
      rintro ⟨a, ha, -⟩
      cases ha
    | ok refs => exact fun ha => ⟨refs, rfl, ha⟩

/-- The references that repeat are noted kind by kind. -/
theorem shared_foldl (kinds : List ResourceKind) (s : Scan) :
    ((kinds.map (Listing.given answers)).foldl Scan.note s).shared =
      s.shared ++ kinds.flatMap fun kind =>
        (GroupRef.repeats (listed (answers kind))).map fun a => (kind, a.resource) := by
  induction kinds generalizing s with
  | nil => exact (List.append_nil _).symm
  | cons kind rest ih =>
    rw [List.map_cons, List.foldl_cons, ih, List.flatMap_cons, ← List.append_assoc]
    refine congrArg (· ++ _) ?_
    rw [Listing.given]
    cases answers kind with
    | error e => exact (List.append_nil _).symm
    | ok refs => exact Scan.shared_addRefs_eq [] s refs

/-- The references of all listings are counted. -/
theorem scannedResources_foldl (kinds : List ResourceKind) (r : Summary) :
    ((kinds.map (Listing.given answers)).foldl Summary.noteListing r).scannedResources =
      r.scannedResources + (kinds.map fun kind => (listed (answers kind)).length).sum := by
  induction kinds generalizing r with
  | nil => rfl
  | cons kind rest ih =>
    rw [List.map_cons, List.foldl_cons, ih, List.map_cons, List.sum_cons, ← Nat.add_assoc]
    refine congrArg (· + _) ?_
    rw [Listing.given]
    cases answers kind <;> rfl

end Survey

/-- Answer the calls of a scan with these rows and these listings of the kinds. -/
def readings (rows : List Entry) (answers : ResourceKind → Except StoreError (List GroupRef))
    (_ : Unit) : (op : Op) → Option op.Answer × Unit
  | .call (.store .findAll) => (some (.ok rows), ())
  | .call (.registry (.listRefs kind)) => (some (answers kind), ())
  | .log _ => (some (), ())
  | _ => (none, ())

namespace Sweep

open Prog

variable (rows : List Entry) (answers : ResourceKind → Except StoreError (List GroupRef))

theorem yields_log (e : Event) : (log e).Yields (readings rows answers) () () () :=
  yields_perform rfl fun _ => rfl

theorem yields_scanKinds (kinds : List ResourceKind) (s : Scan) (r : Summary) :
    (scanKinds kinds s r).Yields (readings rows answers) ()
      ((kinds.map (Listing.given answers)).foldl Scan.note s,
        (kinds.map (Listing.given answers)).foldl Summary.noteListing r) () := by
  induction kinds generalizing s r with
  | nil => exact yields_pure _ _
  | cons kind rest ih =>
    have hlisting : (Prog.registry (.listRefs kind)).Yields (readings rows answers) ()
        (answers kind) () :=
      yields_perform rfl fun _ => rfl
    rw [scanKinds]
    refine hlisting.bind ?_
    rw [List.map_cons, List.foldl_cons, List.foldl_cons, Listing.given]
    cases answers kind with
    | error e => exact (yields_log rows answers _).bind (ih _ _)
    | ok refs => exact ih _ _

theorem yields_conclude (x : Scan × Summary) : (conclude x).Yields (readings rows answers) ()
    (.ok (x.1, { x.2 with orphanPhaseSkipped := x.1.listingFailed })) () := by
  rw [conclude]
  split
  · exact (yields_log rows answers _).bind ((yields_log rows answers _).bind (yields_pure _ _))
  · exact (yields_log rows answers _).bind (yields_pure _ _)

/-- A scan that reads these rows and listings comes to what it is told. -/
theorem yields_scan : scan.Yields (readings rows answers) ()
    (.ok ((Survey.ofAnswers rows answers).scan, (Survey.ofAnswers rows answers).summary)) () := by
  have hrows : (Prog.store .findAll).Yields (readings rows answers) () (.ok rows) () :=
    yields_perform rfl fun _ => rfl
  have hkinds := yields_scanKinds rows answers ResourceKind.all (Scan.start rows)
    { scannedEntries := rows.length
      unrepairableEntries := (rows.filter fun e => e.isInert).length }
  have hend := hkinds.bind (yields_conclude rows answers _)
  rw [scan_eq]
  refine hrows.bind ?_
  dsimp only
  rw [reportUnrepairable]
  split
  · exact (yields_log rows answers _).bind hend
  · exact hend

end Sweep

/-! ### What is found -/

/-- What a scan finds in these rows and listings. -/
structure Findings (rows : List Entry)
    (answers : ResourceKind → Except StoreError (List GroupRef)) (s : Scan) (r : Summary) :
    Prop where
  /-- The groups that are referenced are the valid ones of all listings. -/
  referenced : ∀ g, g ∈ s.referenced ↔
    g.IsValid ∧ ∃ kind, ∃ a ∈ listed (answers kind), a.group = g
  /-- The groups that are missing are those among them that have no row. -/
  missing : ∀ g, g ∈ s.missing ↔ g ∈ s.referenced ∧ ∀ e ∈ rows, e.group ≠ g
  /-- The orphans are the groups of the rows that are not among them, if no listing failed. -/
  orphans : ∀ g, g ∈ s.orphans ↔ (∀ kind e, answers kind ≠ .error e) ∧
    (∃ e ∈ rows, e.group = g) ∧ g ∉ s.referenced
  /-- Each of these groups is there once, and in ascending order. -/
  ascending : s.referenced.Pairwise (· < ·) ∧ s.missing.Pairwise (· < ·) ∧
    s.orphans.Pairwise (· < ·)
  /-- The references that repeat, kind by kind and in the order of each listing. -/
  shared : s.shared = ResourceKind.all.flatMap fun kind =>
    (GroupRef.repeats (listed (answers kind))).map fun a => (kind, a.resource)
  /-- The references of a kind either repeat or are one for each of its valid groups. -/
  counted : ∀ kind, (listed (answers kind)).length =
    (s.shared.filter fun x => x.1 = kind).length +
      (GroupRef.validGroups (listed (answers kind))).card
  scannedResources : r.scannedResources =
    (ResourceKind.all.map fun kind => (listed (answers kind)).length).sum

/-- Of the references noted for all kinds, those of one kind are the ones of its listing. -/
theorem filter_flatMap_repeats (refs : ResourceKind → List GroupRef) (kind : ResourceKind) :
    (ResourceKind.all.flatMap fun k => (refs k).map fun a => (k, a.resource)).filter
      (fun x => x.1 = kind) = (refs kind).map fun a => (kind, a.resource) := by
  have hsame (k : ResourceKind) (as : List GroupRef) :
      (as.map fun a => (k, a.resource)).filter (fun x => x.1 = kind) =
        if k = kind then as.map fun a => (k, a.resource) else [] := by
    split
    · next h => exact List.filter_eq_self.2 (by simp [h])
    · next h => exact List.filter_eq_nil_iff.2 (by simp [h])
  rw [List.filter_flatMap]
  simp only [hsame]
  cases kind <;> simp [ResourceKind.all]

namespace Survey

variable (rows : List Entry) (answers : ResourceKind → Except StoreError (List GroupRef))

theorem findings_ofAnswers :
    Findings rows answers (ofAnswers rows answers).scan (ofAnswers rows answers).summary := by
  have hreferenced (g : GroupId) : g ∈ (ofAnswers rows answers).scan.referenced ↔
      g.IsValid ∧ ∃ kind, ∃ a ∈ listed (answers kind), a.group = g := by
    rw [mem_referenced, mentions_ofAnswers]
  have hshared : (ofAnswers rows answers).scan.shared = ResourceKind.all.flatMap fun kind =>
      (GroupRef.repeats (listed (answers kind))).map fun a => (kind, a.resource) :=
    (shared_foldl answers ResourceKind.all (Scan.start rows)).trans (List.nil_append _)
  refine ⟨hreferenced, fun g => ?_, fun g => ?_, ⟨?_, ?_, ?_⟩, hshared, fun kind => ?_, ?_⟩
  · rw [mem_missing, mem_referenced, and_assoc]
    rfl
  · rw [mem_orphans, mem_referenced]
    simp only [mem_listings_ofAnswers]
    rfl
  · exact ascending_referenced _
  · exact (orderly_scan _).ascending
  · exact ascending_orphans _
  · rw [hshared, filter_flatMap_repeats fun kind => GroupRef.repeats (listed (answers kind)),
      List.length_map, ← GroupRef.repeatsAfter_nil]
    refine (GroupRef.length_eq_add_card [] _).trans ?_
    rw [GroupRef.validGroups_nil, Finset.sdiff_empty]
  · exact (scannedResources_foldl answers ResourceKind.all _).trans (Nat.zero_add _)

end Survey

/-- Whatever the rows are, and whichever listings fail, a scan ends and finds this. -/
theorem Sweep.findings_scan (rows : List Entry)
    (answers : ResourceKind → Except StoreError (List GroupRef)) :
    ∃ s r, (scan.runIn (readings rows answers) ()).1 = some (.ok (s, r)) ∧
      Findings rows answers s r := by
  refine ⟨_, _, ?_, Survey.findings_ofAnswers rows answers⟩
  rw [(yields_scan rows answers).runIn_eq]

end AccessGroups
