import AccessGroups.Proofs.Sweep.Consistency
import AccessGroups.Proofs.Sweep.Remaining
import Mathlib.Data.List.Perm.Subperm

/-!
# Rows that let nobody in

A row without a principal or without a privilege lets nobody in. A sweep reports such rows, and is
meant to leave them alone. It does so as long as they have not two principals. A row with two
principals and no privilege is split like any other: it loses its user, and a row for the user is
added that lets nobody in either. So the group can have more such rows than before, and a row that
lets nobody in can go because the unit of a split row has the same grant.

## Main definitions

* `Entry.inertRights`: the different rights of the rows of a group that let nobody in.
* `Backend.InUse`: a group is valid and some resource refers to it.
* `Sweep.idle`: a world with rows that let nobody in, of which one has two principals.

## Main results

* `Sweep.Remaining.mem_inertRights_iff`: the rights of rows that let nobody in, after a sweep.
* `Sweep.inert_runOnce`: which of these rows a sweep leaves alone.
-/

namespace AccessGroups

/-- The right names nobody or gives nothing. -/
def Right.isInert (x : Right) : Bool :=
  (x.user.isNone && x.unit.isNone) || x.privileges.isEmpty

theorem Grant.isInert_right (g : Grant) : g.right.isInert = g.isInert := rfl

/-- A grant lets nobody in if what it gives lets nobody in. -/
theorem Grant.isInert_of_mem_rights {g : Grant} {x : Right} (h : x ∈ g.rights) :
    x.isInert = g.isInert := by
  cases hmixed : g.isMixed with
  | false =>
    rw [rights_of_unmixed hmixed, List.mem_singleton] at h
    rw [h, isInert_right]
  | true =>
    obtain ⟨huser, hunit⟩ := Bool.and_eq_true_iff.1 hmixed
    obtain ⟨user, huser⟩ := Option.isSome_iff_exists.1 huser
    obtain ⟨unit, hunit⟩ := Option.isSome_iff_exists.1 hunit
    rw [rights_of_mixed hmixed, List.mem_cons, List.mem_singleton] at h
    rcases h with rfl | rfl <;>
      simp [isInert, Right.isInert, right, userHalf, unitHalf, huser, hunit]

namespace Entry

variable {rows : List Entry} {g : GroupId} {x : Right}

theorem isInert_settled (e : Entry) : e.settled.isInert = e.isInert :=
  Grant.isInert_of_mem_rights e.right_settled_mem

/-- The different rights of the rows of a group that let nobody in. -/
def inertRights (rows : List Entry) (g : GroupId) : List Right :=
  ((rows.filter fun e => e.group = g ∧ e.isInert = true).map fun e => e.right).dedup

theorem mem_inertRights : x ∈ inertRights rows g ↔
    (∃ e ∈ rows, e.group = g ∧ e.right = x) ∧ x.isInert = true := by
  simp only [inertRights, List.mem_dedup, List.mem_map, List.mem_filter, decide_eq_true_eq]
  constructor
  · rintro ⟨e, ⟨he, hg, hinert⟩, rfl⟩
    exact ⟨⟨e, he, hg, rfl⟩, hinert⟩
  · rintro ⟨⟨e, he, hg, rfl⟩, hinert⟩
    exact ⟨e, ⟨he, hg, hinert⟩, rfl⟩

end Entry

namespace Sweep

open Entry (inertRights)

namespace Remaining

variable {l t : Ledger} {halves : List Entry} {e : Entry} {g : GroupId}

/-- The rows of a group that let nobody in come to give what they gave before. -/
theorem mem_inertRights_iff (h : Remaining l halves t) (hg : l.Populated g) (x : Right) :
    x ∈ inertRights t.rows g ↔ (g.IsValid ∧ l.Refers g) ∧
      ∃ e ∈ l.rows, e.group = g ∧ e.isInert = true ∧ x ∈ e.rights := by
  rw [Entry.mem_inertRights, h.exists_right_iff hg, and_assoc]
  refine and_congr_right fun _ => ⟨?_, ?_⟩
  · rintro ⟨⟨e, he, heg, hx⟩, hinert⟩
    exact ⟨e, he, heg, by rw [← Grant.isInert_of_mem_rights hx, hinert], hx⟩
  · rintro ⟨e, he, heg, hinert, hx⟩
    exact ⟨⟨e, he, heg, hx⟩, by rw [Grant.isInert_of_mem_rights hx, hinert]⟩

/-- If no row that lets nobody in has two principals, these rows are left alone unless a row with a
lower identifier has the same grant. -/
theorem mem_of_isInert (h : Remaining l halves t)
    (hunmixed : ∀ x ∈ l.rows, x.group = e.group → x.isInert = true → x.isMixed = false)
    (he : e ∈ l.rows) (hinert : e.isInert = true) (hlive : e.group.IsValid ∧ l.Refers e.group)
    (hnot : ¬ e.Repeated l.rows) : e ∈ t.rows := by
  rw [h.mem_iff_of_mem he hlive]
  refine ⟨hunmixed e he rfl hinert, ?_⟩
  rintro ⟨x, hx, hlt, heq⟩
  obtain ⟨y, hy, rfl⟩ := List.mem_map.1 hx
  have hyinert : y.isInert = true := by
    rw [← Entry.isInert_settled, heq, hinert]
  have hgroup : y.group = e.group := by
    rw [← Entry.group_settled, heq]
  rw [Entry.settled_of_unmixed (hunmixed y hy hgroup hyinert)] at hlt heq
  exact hnot ⟨y, hy, hlt, heq⟩

/-- If no row that lets nobody in has two principals, the group has no more rights of such rows than
before. -/
theorem length_inertRights_le (h : Remaining l halves t)
    (hunmixed : ∀ x ∈ l.rows, x.group = g → x.isInert = true → x.isMixed = false)
    (hg : l.Populated g) : (inertRights t.rows g).length ≤ (inertRights l.rows g).length := by
  have hnodup : (inertRights t.rows g).Nodup := List.nodup_dedup _
  refine (hnodup.subperm fun x hx => ?_).length_le
  obtain ⟨-, e, he, heg, hinert, hxe⟩ := (h.mem_inertRights_iff hg x).1 hx
  have hsame : x = e.right := by
    rw [Grant.rights_of_unmixed (hunmixed e he heg hinert)] at hxe
    exact List.mem_singleton.1 hxe
  rw [hsame]
  exact Entry.mem_inertRights.2 ⟨⟨e, he, heg, rfl⟩, hinert⟩

end Remaining

end Sweep

/-- The group is valid and some resource refers to it. -/
def Backend.InUse (b : Backend) (g : GroupId) : Prop :=
  g.IsValid ∧ ∃ k, ∃ a ∈ b.refs k, a.group = g

instance (b : Backend) (g : GroupId) : Decidable (b.InUse g) :=
  inferInstanceAs (Decidable (_ ∧ _))

theorem Backend.Shows.inUse_iff {b : Backend} {l : Ledger} (h : b.Shows l) (g : GroupId) :
    b.InUse g ↔ g.IsValid ∧ l.Refers g := by
  simp only [Backend.InUse, Ledger.Refers, h.refs_eq]

namespace Sweep

open Entry (inertRights)

variable (operator : UserId) {w : World}

/-- **Which rows that let nobody in a sweep leaves alone.** A sweep that nothing disturbs reports
them all. A row of a group in use is as before exactly if it has not two principals and no row with
a lower identifier has its grant after the rows with two principals have lost their users. The
rights of the rows of a group that let nobody in are those that such rows gave before, if the group
is in use, and else there are none. If no such row of the group has two principals, they are all
left alone in a group in use, but for those that repeat a row with a lower identifier, and there are
no more different ones than before. -/
theorem inert_runOnce (hsound : w.backend.Sound) (hfree : w.running = false)
    (hgo : w.cancelled = false) (h : (w.watch {} (runOnce operator)).2.Undisturbed) :
    ∃ r v, w.run (runOnce operator) = (some (.ok (.completed r)), v) ∧
      r.unrepairableEntries = (w.backend.entries.filter fun e => e.isInert).length ∧
      (∀ e ∈ w.backend.entries, w.backend.InUse e.group → (e ∈ v.backend.entries ↔
        e.isMixed = false ∧ ¬ e.Repeated (w.backend.entries.map Entry.settled))) ∧
      (∀ g, (∃ e ∈ w.backend.entries, e.group = g) → ∀ x,
        x ∈ inertRights v.backend.entries g ↔ w.backend.InUse g ∧
          ∃ e ∈ w.backend.entries, e.group = g ∧ e.isInert = true ∧ x ∈ e.rights) ∧
      ∀ g, (∀ e ∈ w.backend.entries, e.group = g → e.isInert = true → e.isMixed = false) →
        (w.backend.InUse g → ∀ e ∈ w.backend.entries, e.group = g → e.isInert = true →
          ¬ e.Repeated w.backend.entries → e ∈ v.backend.entries) ∧
        ((∃ e ∈ w.backend.entries, e.group = g) →
          (inertRights v.backend.entries g).length ≤
            (inertRights w.backend.entries g).length) := by
  obtain ⟨l, hshows, -⟩ := hsound.exists_shows
  obtain ⟨x, b, hx, hfollows, ⟨r, halves, rfl, hreported, hremaining⟩, -⟩ :=
    World.watch_undisturbed (runOnce_calm operator Conditions.calm_quiet ⟨l, [], false⟩ rfl) hshows
      rfl hfree.symm hgo h
  have hlive := hshows.inUse_iff
  rw [World.watch_calm, hx, hshows.entries_eq]
  refine ⟨r, _, rfl, hreported, fun e he huse => ?_, fun g hg x => ?_, fun g hunmixed =>
    ⟨fun huse e he heg hinert hnot => ?_, fun hg => ?_⟩⟩ <;> rw [hfollows.shows.entries_eq]
  · exact hremaining.mem_iff_of_mem he ((hlive _).1 huse)
  · rw [hlive]
    exact hremaining.mem_inertRights_iff hg x
  · subst heg
    exact hremaining.mem_of_isInert hunmixed he hinert ((hlive _).1 huse) hnot
  · exact hremaining.length_inertRights_le hunmixed hg

/-- A world with rows that let nobody in, of which one has two principals. -/
def idle : World where
  backend := .memory
    { entries := .ofRows [
        ⟨⟨⟨5⟩, some ⟨1⟩, some ⟨2⟩, .none⟩, ⟨1⟩⟩,
        ⟨⟨⟨5⟩, none, some ⟨2⟩, .none⟩, ⟨2⟩⟩,
        ⟨⟨⟨5⟩, none, none, .full⟩, ⟨3⟩⟩,
        ⟨⟨⟨6⟩, some ⟨1⟩, none, .none⟩, ⟨4⟩⟩,
        ⟨⟨⟨6⟩, some ⟨1⟩, none, .none⟩, ⟨5⟩⟩,
        ⟨⟨⟨6⟩, some ⟨1⟩, some ⟨2⟩, .full⟩, ⟨6⟩⟩]
      nextEntry := 7 }
    { refs := fun
        | .page => .ofRows [⟨⟨1⟩, ⟨5⟩⟩, ⟨⟨2⟩, ⟨6⟩⟩]
        | _ => .empty }

/-- The row with two principals and no privilege is split, and the row that repeats its unit goes.
The other rows that let nobody in are left alone. -/
theorem inert_runOnce_idle :
    ∃ r v, idle.run (runOnce ⟨7⟩) = (some (.ok (.completed r)), v) ∧ r.unrepairableEntries = 5 ∧
      idle.backend.entries.filter (fun e => e.isInert ∧ e ∈ v.backend.entries) =
        [⟨⟨⟨5⟩, none, none, .full⟩, ⟨3⟩⟩, ⟨⟨⟨6⟩, some ⟨1⟩, none, .none⟩, ⟨4⟩⟩] ∧
      ⟨some ⟨1⟩, none, .none⟩ ∉ inertRights idle.backend.entries ⟨5⟩ ∧
      ⟨some ⟨1⟩, none, .none⟩ ∈ inertRights v.backend.entries ⟨5⟩ ∧
      (inertRights v.backend.entries ⟨6⟩).length ≤ 1 := by
  have hundisturbed : (idle.watch {} (runOnce ⟨7⟩)).2.Undisturbed :=
    ⟨by decide +kernel, by decide +kernel⟩
  have hsound : idle.backend.Sound := ⟨by decide +kernel, by decide +kernel⟩
  obtain ⟨r, v, hrun, hreported, hkept, hrights, hunmixed⟩ :=
    inert_runOnce ⟨7⟩ hsound rfl rfl hundisturbed
  have huse : ∀ e ∈ idle.backend.entries, idle.backend.InUse e.group := by decide +kernel
  refine ⟨r, v, hrun, hreported.trans (by decide +kernel), ?_, by decide +kernel, ?_, ?_⟩
  · have hsame : idle.backend.entries.filter (fun e => e.isInert ∧ e ∈ v.backend.entries) =
        idle.backend.entries.filter fun e => e.isInert ∧ e.isMixed = false ∧
          ¬ e.Repeated (idle.backend.entries.map Entry.settled) :=
      List.filter_congr fun e he => by simp only [hkept e he (huse e he)]
    rw [hsame]
    decide +kernel
  · exact (hrights ⟨5⟩ (by decide +kernel) _).2 (by decide +kernel)
  · exact (hunmixed ⟨6⟩ (by decide +kernel)).2 (by decide +kernel)

end Sweep

end AccessGroups
