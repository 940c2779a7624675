import AccessGroups.Proofs.Program.Transcript
import AccessGroups.Proofs.Service.Removal
import AccessGroups.Proofs.Store.Effects

/-!
# Removals that fail

A removal looks up the group of the resource, reads its rows, deletes them, and then the resource.
Each of these calls can fail, and so can the one that writes the rows back. What a removal reports
is the failure that came first. If it reports one, no resource has changed, and every group has the
grants that it had, in their order, although those of the resource may be in new rows. The grants of
a group are lost only if the resource could not be deleted and its rows could not be written back.

## Main definitions

* `Entry.grantsOf`: the grants of a group in the order of its rows.
* `Removal.Failed`, `Removal.Succeeded`: what a removal leaves.

## Main results

* `Removal.leaves_deleteResource`: what the transcript of a removal does to a ledger.
* `Removal.watch_deleteResource`: a removal that is disturbed either does all it should or nothing,
  unless its two last calls fail.
-/

namespace AccessGroups

/-- The grants of a group, in the order of the identifiers of its rows. -/
def Entry.grantsOf (rows : List Entry) (g : GroupId) : List Grant :=
  (rows.filter fun e => e.group = g).map Entry.toGrant

namespace Removal

/-- What a removal reports when this call fails. A resource that is not found is described. -/
def failure? (kind : ResourceKind) (r : ResourceId) : Exchange → Option ServiceError
  | ⟨.store _, .error e⟩ => some (.store e)
  | ⟨.registry _, .error e⟩ => some (.ofStore (.resource kind r) e)
  | _ => none

/-- The grants that a removal reads before it deletes. -/
def snapshotOf (rows : List Entry) (g : GroupId) : List Grant :=
  if g.IsValid then Entry.grantsOf rows g else []

/-- The rows that a removal leaves. -/
def without (rows : List Entry) (g : GroupId) : List Entry :=
  rows.filter fun x => ¬ (g.IsValid ∧ x.group = g)

/-- What a removal leaves that made these calls and failed: no resource has changed, rows outside
the group of the resource are as they were, and every group has the same grants, unless neither the
resource could be deleted nor its rows be written back. -/
structure Failed (kind : ResourceKind) (r : ResourceId) (calls : List Exchange) (e : ServiceError)
    (rows rows' : List Entry) (refs refs' : ResourceKind → List GroupRef) : Prop where
  first : calls.findSome? (failure? kind r) = some e
  references : refs' = refs
  others : ∀ x, ⟨r, x.group⟩ ∉ refs kind → (x ∈ rows' ↔ x ∈ rows)
  grants : (∀ f, Entry.grantsOf rows' f = Entry.grantsOf rows f) ∨
    ∃ g snapshot cause cause', ⟨.registry (.delete kind r), .error cause⟩ ∈ calls ∧
      ⟨.store (.replaceGroup g snapshot), .error cause'⟩ ∈ calls ∧
      e = .ofStore (.resource kind r) cause

/-- What a removal leaves that made these calls and succeeded: the resource is gone from its table,
the rows of its group are gone if the group was valid, and nothing else has changed. -/
structure Succeeded (together : ResourceKind → Prop) (kind : ResourceKind) (r : ResourceId)
    (calls : List Exchange) (rows rows' : List Entry) (refs refs' : ResourceKind → List GroupRef) :
    Prop where
  answered : ∀ x ∈ calls, x.failed = false
  references : ∀ k a, a ∈ refs' k ↔ a ∈ refs k ∧ ¬ (together k ∧ a.resource = r)
  group : ∃ g, ⟨r, g⟩ ∈ refs kind ∧ rows' = without rows g

/-- What a removal leaves that made these calls and had this result. -/
def Ended (together : ResourceKind → Prop) (kind : ResourceKind) (r : ResourceId)
    (calls : List Exchange) (rows rows' : List Entry) (refs refs' : ResourceKind → List GroupRef) :
    Except ServiceError Unit → Prop
  | .error e => Failed kind r calls e rows rows' refs refs'
  | .ok () => Succeeded together kind r calls rows rows' refs refs'

variable {kind : ResourceKind} {r : ResourceId} {g : GroupId} {snapshot : List Grant}
  {e : ServiceError} {l t : Ledger} {calls : List Exchange} {rows rows' : List Entry}
  {refs refs' : ResourceKind → List GroupRef} {together : ResourceKind → Prop}
  {fair : (op : Op) → op.Answer → Prop}

/-- A removal that failed may have left everything as it was. -/
theorem Failed.unchanged (h : calls.findSome? (failure? kind r) = some e) :
    Failed kind r calls e rows rows refs refs :=
  ⟨h, rfl, fun _ _ => Iff.rfl, .inl fun _ => rfl⟩

/-- A call that succeeds and changes nothing may come before. -/
theorem Ended.cons {x : Exchange} {result : Except ServiceError Unit} (hx : x.failed = false)
    (h : Ended together kind r calls rows rows' refs refs' result) :
    Ended together kind r (x :: calls) rows rows' refs refs' result := by
  cases result with
  | ok => exact ⟨List.forall_mem_cons.2 ⟨hx, h.answered⟩, h.references, h.group⟩
  | error e =>
    have hnone : failure? kind r x = none := by
      rcases x with ⟨c | c | c, e | v⟩ <;> first | rfl | cases hx
    refine ⟨by rw [List.findSome?_cons, hnone]; exact h.first, h.references, h.others, ?_⟩
    rcases h.grants with hsame | ⟨g, snapshot, cause, cause', hdelete, hrestore, he⟩
    · exact .inl hsame
    · exact .inr ⟨g, snapshot, cause, cause', .tail _ hdelete, .tail _ hrestore, he⟩

/-- Writing rows back makes one call, unless there are none. -/
theorem leaves_restore {y : Option Unit} (h : (restore kind r g snapshot).Leaves fair calls y) :
    y = some () ∧ (snapshot = [] ∧ calls = [] ∨
      snapshot ≠ [] ∧ ∃ x, calls = [⟨.store (.replaceGroup g snapshot), x⟩]) := by
  cases hempty : snapshot.isEmpty with
  | true =>
    simp only [restore, hempty, Bool.not_true, Bool.false_eq_true, if_false] at h
    obtain ⟨rfl, rfl⟩ := h
    exact ⟨rfl, .inl ⟨List.isEmpty_iff.1 hempty, rfl⟩⟩
  | false =>
    have hne : snapshot ≠ [] := fun hnil => by rw [hnil] at hempty; cases hempty
    simp only [restore, hempty, Bool.not_false, if_true] at h
    obtain ⟨x, rest, -, rfl, hrest⟩ := Prog.leaves_call.1 h
    cases x with
    | error cause =>
      obtain ⟨rfl, rfl⟩ := Prog.leaves_logged hrest
      exact ⟨rfl, .inr ⟨hne, _, rfl⟩⟩
    | ok v =>
      obtain ⟨rfl, rfl⟩ := hrest
      exact ⟨rfl, .inr ⟨hne, _, rfl⟩⟩

/-- A removal deletes rows only if it has read some. -/
theorem without_eq (rows : List Entry) (g : GroupId) :
    without rows g = if (snapshotOf rows g).isEmpty then rows
      else rows.filter fun x => x.group ≠ g := by
  by_cases hvalid : g.IsValid
  · have hwithout : without rows g = rows.filter fun x => x.group ≠ g := by
      simp [without, hvalid]
    rw [hwithout, snapshotOf, if_pos hvalid]
    split
    · next hempty => simpa [Entry.grantsOf, List.filter_eq_nil_iff] using hempty
    · rfl
  · simp [without, snapshotOf, hvalid]

/-- Rows with the grants of a group are in the group. -/
theorem group_of_restored {v : List Entry} (hv : v.map Entry.toGrant = Entry.grantsOf rows g) :
    ∀ x ∈ v, x.group = g := by
  intro x hx
  have hmem : x.toGrant ∈ Entry.grantsOf rows g := hv ▸ List.mem_map_of_mem hx
  obtain ⟨y, hy, heq⟩ := List.mem_map.1 hmem
  have hgroup : y.group = g := by simpa using (List.mem_filter.1 hy).2
  rw [← heq]
  exact hgroup

/-- Once rows with the grants of a deleted group are written back, every group has its grants. -/
theorem grantsOf_append_restored {v : List Entry}
    (hv : v.map Entry.toGrant = Entry.grantsOf rows g) (f : GroupId) :
    Entry.grantsOf ((rows.filter fun x => x.group ≠ g) ++ v) f = Entry.grantsOf rows f := by
  have hgroup := group_of_restored hv
  rw [Entry.grantsOf, Entry.grantsOf]
  by_cases hf : f = g
  · rw [hf, Entry.filter_group_append hgroup, hv]
    rfl
  · rw [← Entry.filter_group_of_ne hf, Entry.filter_others_append hgroup,
      Entry.filter_group_of_ne hf]

/-- The last part of a removal, after the rows of the group. -/
def deleteLast (kind : ResourceKind) (r : ResourceId) (g : GroupId) (snapshot : List Grant) :
    Prog (Except ServiceError Unit) := do
  match ← Prog.registry (.delete kind r) with
  | .error e =>
    restore kind r g snapshot
    return .error (.ofStore (.resource kind r) e)
  | .ok () =>
    Prog.log (.resourceDeleted kind r g)
    return .ok ()

/-- If the resource could not be deleted, the grants of its group are back unless this failed as
well. -/
theorem failed_of_restore {cause : StoreError} (hg : ⟨r, g⟩ ∈ l.refs kind)
    (hrows : l.rows = without rows g)
    (h : (restore kind r g (snapshotOf rows g)).Leaves fair calls (some ()))
    (hleads : l.Leads calls t) :
    Failed kind r (⟨.registry (.delete kind r), .error cause⟩ :: calls)
      (.ofStore (.resource kind r) cause) rows t.rows l.refs t.refs := by
  rw [without_eq] at hrows
  rcases (leaves_restore h).2 with ⟨hempty, rfl⟩ | ⟨hsome, x, rfl⟩
  · -- No row had been read, so none was deleted.
    rw [hempty] at hrows
    obtain rfl : t = l := hleads
    rw [← show t.rows = rows from hrows]
    exact .unchanged rfl
  · rw [if_neg (by simpa using hsome)] at hrows
    have hvalid : g.IsValid := by
      by_contra hinvalid
      exact hsome (if_neg hinvalid)
    rw [snapshotOf, if_pos hvalid] at hleads ⊢
    have hother {y : Entry} (hy : ⟨r, y.group⟩ ∉ l.refs kind) : y.group ≠ g := fun heq =>
      hy (heq ▸ hg)
    cases x with
    | error cause' =>
      -- The rows of the group are lost.
      obtain rfl : t = l := hleads
      refine ⟨rfl, rfl, fun y hy => ?_, .inr ⟨g, _, cause, cause', .head _, .tail _ (.head _), rfl⟩⟩
      simp [hrows, hother hy]
    | ok v =>
      obtain ⟨m, ⟨hv, -, -, rfl⟩, rfl⟩ := hleads
      have hback : ∀ f, Entry.grantsOf ((rows.filter fun x => x.group ≠ g) ++ v) f =
          Entry.grantsOf rows f := grantsOf_append_restored hv
      have hrestored : (l.rows.filter fun x => x.group ≠ g) ++ v =
          (rows.filter fun x => x.group ≠ g) ++ v := by
        rw [hrows, List.filter_filter]
        simp only [Bool.and_self]
      rw [Ledger.rows_withRows, Ledger.refs_withRows, hrestored]
      refine ⟨rfl, rfl, fun y hy => ?_, .inl hback⟩
      have hnot : y ∉ v := fun hmem => hother hy (group_of_restored hv y hmem)
      simp [hother hy, hnot]

/-- The last part of a removal ends it. -/
theorem leaves_deleteLast {y : Option (Except ServiceError Unit)} (hg : ⟨r, g⟩ ∈ l.refs kind)
    (hrows : l.rows = without rows g)
    (h : (deleteLast kind r g (snapshotOf rows g)).Leaves fair calls y)
    (hleads : l.Leads calls t) :
    ∃ result, y = some result ∧ Ended (fun k => l.table k = l.table kind) kind r calls rows t.rows
      l.refs t.refs result := by
  obtain ⟨x, rest, -, rfl, hrest⟩ := Prog.leaves_call.1 h
  cases x with
  | error cause =>
    rcases (Prog.leaves_bind _ _).1 hrest with ⟨front, rest, ⟨⟩, rfl, hrestore, rfl, rfl⟩ |
      ⟨hrestore, -⟩
    · rw [List.append_nil] at hleads ⊢
      exact ⟨_, rfl, failed_of_restore hg hrows hrestore hleads⟩
    · exact nomatch (leaves_restore hrestore).1
  | ok v =>
    obtain ⟨rfl, rfl⟩ := Prog.leaves_log hrest
    obtain ⟨m, ⟨-, rfl⟩, rfl⟩ := hleads
    exact ⟨_, rfl, by simp [Exchange.failed], fun k a => Ledger.mem_remove, g, hg, hrows⟩

/-- A removal that has found the group and read its rows. -/
theorem leaves_deleteBoth {y : Option (Except ServiceError Unit)} (hg : ⟨r, g⟩ ∈ l.refs kind)
    (h : (deleteBoth kind r g (snapshotOf l.rows g)).Leaves fair calls y)
    (hleads : l.Leads calls t) :
    ∃ result, y = some result ∧ Ended (fun k => l.table k = l.table kind) kind r calls l.rows t.rows
      l.refs t.refs result := by
  have hwithout := without_eq l.rows g
  rw [deleteBoth] at h
  split at h
  · next hsome =>
    rw [if_neg (by simpa using hsome)] at hwithout
    obtain ⟨x, rest, -, rfl, hrest⟩ := Prog.leaves_call.1 h
    cases x with
    | error cause =>
      obtain ⟨rfl, rfl⟩ := hrest
      obtain rfl : t = l := hleads
      exact ⟨_, rfl, .unchanged rfl⟩
    | ok n =>
      obtain ⟨m, ⟨-, hrows, rfl⟩, hleads⟩ := hleads
      have hg' : ⟨r, g⟩ ∈ (l.withRows _ hrows).refs kind := hg
      obtain ⟨result, rfl, hended⟩ := leaves_deleteLast hg' hwithout.symm hrest hleads
      exact ⟨result, rfl, hended.cons rfl⟩
  · next hnone =>
    rw [if_pos (by simpa using hnone)] at hwithout
    exact leaves_deleteLast hg hwithout.symm h hleads

/-- What the transcript of a removal does to a ledger. -/
theorem leaves_deleteResource {y : Option (Except ServiceError Unit)}
    (h : (deleteResource kind r).Leaves fair calls y) (hleads : l.Leads calls t) :
    ∃ result, y = some result ∧ Ended (fun k => l.table k = l.table kind) kind r calls l.rows t.rows
      l.refs t.refs result := by
  obtain ⟨x, rest, -, rfl, hrest⟩ := Prog.leaves_call.1 h
  cases x with
  | error cause =>
    obtain ⟨rfl, rfl⟩ := hrest
    obtain rfl : t = l := hleads
    exact ⟨_, rfl, .unchanged rfl⟩
  | ok g =>
    obtain ⟨m, ⟨hg, rfl⟩, hleads⟩ := hleads
    dsimp only at hrest
    split at hrest
    · next hvalid =>
      obtain ⟨x, rest, -, rfl, hread⟩ := Prog.leaves_call.1 hrest
      cases x with
      | error cause =>
        obtain ⟨rfl, rfl⟩ := hread
        obtain rfl : t = m := hleads
        exact ⟨_, rfl, .unchanged rfl⟩
      | ok rows =>
        obtain ⟨m, ⟨hrows, rfl⟩, hleads⟩ := hleads
        have hsnapshot : rows.map Entry.toGrant = snapshotOf m.rows g := by
          rw [hrows, snapshotOf, if_pos hvalid]
          rfl
        dsimp only at hread
        rw [hsnapshot] at hread
        obtain ⟨result, rfl, hended⟩ := leaves_deleteBoth hg hread hleads
        exact ⟨result, rfl, (hended.cons rfl).cons rfl⟩
    · next hinvalid =>
      have hsnapshot : [] = snapshotOf m.rows g := (if_neg hinvalid).symm
      rw [hsnapshot] at hrest
      obtain ⟨result, rfl, hended⟩ := leaves_deleteBoth hg hrest hleads
      exact ⟨result, rfl, hended.cons rfl⟩

/-- **A removal that fails is undone.** However the calls of a removal fail, it has a result as long
as no counter of identifiers is exhausted. If it fails, it reports the first failure, no resource
and no row outside the group of the resource has changed, and every group has its grants in their
order, unless the resource could not be deleted and its rows could not be written back. If it
succeeds, the resource and the rows of its group are gone and nothing else has changed. -/
theorem watch_deleteResource {w : World} {d : Disturbance} (hsound : w.backend.Sound)
    (hspent : (w.watch d (deleteResource kind r)).2.spent = false) :
    ∃ result, (w.watch d (deleteResource kind r)).1 = some result ∧
      Ended (fun k => w.backend.SameTable k kind) kind r
        (w.watch d (deleteResource kind r)).2.exchanges
        w.backend.entries (w.watch d (deleteResource kind r)).2.world.backend.entries
        w.backend.refs (w.watch d (deleteResource kind r)).2.world.backend.refs result ∧
      (w.watch d (deleteResource kind r)).2.world.backend.entries.Pairwise
        fun a b => a.id < b.id := by
  obtain ⟨l, hshows, -⟩ := hsound.exists_shows
  obtain ⟨t, hleads, ht⟩ := (World.watch_leads hspent).shows hshows
  have hleaves : (deleteResource kind r).Leaves (fun _ _ => True) _ _ :=
    World.watch_leaves (fun _ _ _ _ _ _ => trivial) (.inr hspent)
  simp only [hshows.sameTable_iff, hshows.entries_eq, ht.entries_eq, funext hshows.refs_eq,
    funext ht.refs_eq]
  obtain ⟨result, hresult, hended⟩ := leaves_deleteResource hleaves hleads
  exact ⟨result, hresult, hended, t.ascending⟩

/-- The fourth call fails, and all that come after it if nothing works any more. -/
def halted (forever : Bool) : Disturbance where
  fault n := if n = 3 ∨ (forever ∧ 3 < n) then some .notFound else none

theorem watch_deleteResource_parted :
    (parted.watch (halted false) (deleteResource .page ⟨1⟩)).2.world.backend.entries ≠
        parted.backend.entries ∧
      Failed .page ⟨1⟩ (parted.watch (halted false) (deleteResource .page ⟨1⟩)).2.exchanges
        (.notFound (.resource .page ⟨1⟩)) parted.backend.entries
        (parted.watch (halted false) (deleteResource .page ⟨1⟩)).2.world.backend.entries
        parted.backend.refs
        (parted.watch (halted false) (deleteResource .page ⟨1⟩)).2.world.backend.refs := by
  have hsound : parted.backend.Sound := ⟨by decide +kernel, by decide +kernel⟩
  have hspent : (parted.watch (halted false) (deleteResource .page ⟨1⟩)).2.spent = false := rfl
  have herror : (parted.watch (halted false) (deleteResource .page ⟨1⟩)).1 =
    some (.error (.notFound (.resource .page ⟨1⟩))) := rfl
  obtain ⟨result, hresult, hended, -⟩ := watch_deleteResource hsound hspent
  cases hresult.symm.trans herror
  exact ⟨by decide +kernel, hended⟩

/-- If the rows cannot be written back either, they are lost. -/
example : (parted.watch (halted true) (deleteResource .page ⟨1⟩)).2.world.backend.entries =
    parted.backend.entries.tail :=
  rfl

end Removal

end AccessGroups
