import AccessGroups.Proofs.Sweep.Consistency
import AccessGroups.Proofs.Sweep.Parting

/-!
# Revoked grants stay revoked

While a sweep goes on a client revokes a grant. Apart from the split of a row the sweep can bring it
back when the group of the row is handed out to it as a fresh one, and when it makes up a row for a
group whose rows it never saw. Whatever the order of the calls, these are the only ways, as long as
new rows do not take the places of old ones.

## Main definitions

* `Sweep.Apprised`: what is known of the rows once the scan is done.

## Main results

* `Sweep.scan_heeds`, `Sweep.reassign_heeds`, `Sweep.createMissing_heeds`: the parts of a sweep.
* `Sweep.revoked_runOnce`: a sweep and the revocation of a grant, with `Sweep.not_revoked_runOnce`
  for what it does not say.
-/

namespace AccessGroups

namespace Sweep

open Prog

variable {operator : UserId} {r : Revocation} {e : Entry} {p : Principal} {a a' : Recall}
  {b : Backend} {bare : GroupId → Prop} {s : Scan} {summary : Summary} {g : GroupId}

variable (operator r e p) in
/-- What is known once the scan is done. -/
def Apprised : Except ServiceError (Scan × Summary) → Recall → Prop
  | .ok (s, _), a => Untouched operator r e p (· ∈ s.missing) a ∧ s.Orderly
  | .error _, a => Settled operator r e p (fun _ => False) False a

theorem stable_apprised (x : Except ServiceError (Scan × Summary)) :
    Stable (Recall.Rely r) (Apprised operator r e p x) := by
  intro a b h hrely
  cases x with
  | ok x => exact h.imp_left (stable_untouched · hrely)
  | error e => exact stable_settled h hrely

theorem scanKinds_heeds (kinds : List ResourceKind)
    (h : Untouched operator r e p (· ∉ s.stored) a) (hs : s.Orderly) :
    Heeds r (scanKinds kinds s summary) (fun x => Apprised operator r e p (.ok x)) a := by
  induction kinds generalizing s summary a with
  | nil =>
    refine safe_pure (stable_apprised _) ⟨⟨h.settled.mono fun g hg => ?_, h.clear⟩, hs⟩
    exact (hs.missing g hg).2
  | cons kind rest ih =>
    refine heeds_registry stable_untouched (fun _ h => h.settled.foreign) h fun a x b h hb => ?_
    have hafter {x : Exchange} (hx : x.dissolved? = none) :
        Untouched operator r e p (· ∉ s.stored) (a.after x b) := h.alike hb hx
    rcases x with error | refs
    · exact heeds_log (ih (hafter rfl) ⟨hs.missing, hs.ascending⟩)
    · refine ih ?_ (hs.addRefs refs [])
      rw [Scan.addListing, Scan.stored_addRefs]
      exact hafter rfl

/-- After the scan no missing group is that of the client, unless it acted before all rows were
read. -/
theorem scan_heeds (h : Untouched operator r e p (fun _ => False) a) (hearly : a.early = []) :
    Heeds r scan (Apprised operator r e p) a := by
  have hstable : Stable (Recall.Rely r) fun a =>
      Untouched operator r e p (fun _ => False) a ∧ a.early = [] :=
    stable_of_move fun _ _ h hmove => ⟨h.1.move hmove, by cases hmove; exact h.2⟩
  refine heeds_store hstable ⟨h, hearly⟩ (fun a rows b h hcall => ?_) fun a error b h hb =>
    safe_pure (stable_apprised (.error _)) (h.1.settled.alike hb rfl)
  have hb := Backend.alike_of_look (.inl rfl) hcall
  obtain ⟨rfl, -⟩ := Backend.alters_performStore hcall
  have hread : Untouched operator r e p (· ∉ (Scan.start a.backend.entries).stored)
      (a.after ⟨.store .findAll, .ok a.backend.entries⟩ b) := by
    have hlooked := h.1.alike hb (x := ⟨.store .findAll, .ok a.backend.entries⟩) rfl
    refine ⟨⟨hlooked.settled.foreign, ?_, hlooked.settled.clean⟩, hlooked.clear⟩
    obtain ⟨backend, found, early, late⟩ := a
    cases found with
    | none =>
      intro o ho hnew
      have ho : o ∈ backend.entries := hb.entries ▸ ho
      exact hnew (Identifier.mem_distinct.2 (List.mem_map_of_mem ho))
    | some rows => exact fun _ hearly => (hearly h.2).elim
  refine safe_reportUnrepairable recall_callsOnly
    ((scanKinds_heeds _ hread (Scan.orderly_start _)).bind ?_)
  rintro ⟨s, summary⟩ a h
  have hdone (summary : Summary) : Heeds r
      (pure (.ok (s, summary)) : Prog (Except ServiceError (Scan × Summary)))
      (Apprised operator r e p) a :=
    safe_pure (stable_apprised _) h
  dsimp only
  split
  · exact heeds_log (heeds_log (hdone _))
  · exact heeds_log (hdone _)

/-! ### Resources that share a group -/

theorem allocateFresh_heeds {referenced : List GroupId} (limit : Nat)
    (h : Settled operator r e p bare False a) :
    Heeds r (allocateFresh referenced limit) (fun x a =>
      Settled operator r e p bare False a ∧ ∀ n, x = .ok n → n ∉ referenced) a := by
  have hstable (x : Except ServiceError GroupId) : Stable (Recall.Rely r) fun a =>
      Settled operator r e p bare False a ∧ ∀ n, x = .ok n → n ∉ referenced :=
    fun _ _ h hrely => h.imp_left (stable_settled · hrely)
  induction limit generalizing a with
  | zero => trivial
  | succ limit ih =>
    rw [allocateFresh_succ]
    refine settled_look (.inr rfl) h ?_
    rintro (error | n) a h
    · exact safe_pure (hstable (.error _)) ⟨h, nofun⟩
    · dsimp only
      split
      · next hnew =>
        refine safe_pure (hstable (.ok n)) ⟨h, ?_⟩
        rintro _ ⟨⟩
        exact hnew
      · exact heeds_log (ih h)

theorem readGroup_heeds (h : Settled operator r e p bare False a) :
    Heeds r (readGroup g) (fun _ => Settled operator r e p bare False) a := by
  rw [readGroup]
  split
  · rw [← bind_pure (Prog.store _)]
    exact settled_look (.inl rfl) h fun _ _ h => heeds_pure h
  · exact heeds_pure h

/-- A fresh group that is filled is none of those without rows, and if it is that of the client, the
grant can be brought back. -/
theorem Settled.fill {n : GroupId} {source v : List Entry}
    (h : Settled operator r e p bare False a) (hn : ¬ bare n)
    (hcall : a.backend.performStore (.replaceGroup n (copies operator source n)) =
      some (.ok v, b)) :
    Settled operator r e p bare False
      (a.after ⟨.store (.replaceGroup n (copies operator source n)), .ok v⟩ b) where
  foreign := by
    rw [Recall.backend_after]
    exact h.foreign.performStore (.inl rfl) hcall
  bare := h.bare.after (fun _ => id) fun _ o ho => by
    rcases Backend.mem_entries_performStore hcall o ho with hcopy | hold
    · exact .inr (group_of_mem_copies hcopy ▸ hn)
    · exact .inl hold
  clean := by
    refine h.clean.after nofun (fun _ _ _ _ => id) fun _ _ _ hnot o ho hconfers => ?_
    rcases Backend.mem_entries_performStore hcall o ho with hcopy | hold
    · obtain rfl : n = e.group := (group_of_mem_copies hcopy).symm.trans hconfers.group
      exact (hnot (.inr (.inl (by simp [Exchange.filled?, Exchange.dissolved?])))).elim
    · exact .inl hold

theorem reassign_heeds {kind : ResourceKind} {resource : ResourceId}
    (h : Settled operator r e p bare False a) (hbare : ∀ g, bare g → g ∈ s.referenced) :
    Heeds r (reassign operator s kind resource)
      (fun _ => Settled operator r e p bare False) a := by
  refine settled_registry h ?_
  rintro (error | current) a h
  · cases error <;> exact heeds_pure h
  · refine (allocateFresh_heeds _ h).bind ?_
    rintro (error | n) a ⟨h, hnew⟩
    · exact heeds_pure h
    · refine (readGroup_heeds h).bind ?_
      rintro (error | source) a h
      · exact heeds_pure h
      · refine heeds_store stable_settled h (fun a v b h hcall => ?_) fun a error b h hb =>
          heeds_pure (h.alike hb rfl)
        refine settled_registry (h.fill (mt (hbare n) (hnew n rfl)) hcall) ?_
        rintro (error | _) a h
        · exact heeds_pure h
        · exact heeds_pure h

theorem reassignShared_heeds (h : Settled operator r e p bare False a)
    (hbare : ∀ g, bare g → g ∈ s.referenced) :
    Heeds r (reassignShared operator s summary)
      (fun _ => Settled operator r e p bare False) a := by
  refine heeds_forItems (fun item summary a h => ?_) h
  refine (reassign_heeds h hbare).bind ?_
  rintro (error | _ | ⟨old, n⟩) a h
  · exact heeds_fail h
  · exact heeds_log (heeds_pure h)
  · exact heeds_log (heeds_pure h)

/-! ### Missing groups -/

/-- A row that is made up for a group without rows does not bring back what the client took, unless
the client acted before the rows were read. -/
theorem Settled.makeUp {rest : List GroupId} {v : Entry}
    (h : Settled operator r e p (· ∈ g :: rest) False a) (hnew : g ∉ rest)
    (hcall : a.backend.performStore (.insert (fallback operator g)) = some (.ok v, b)) :
    Settled operator r e p (· ∈ rest) False
      (a.after ⟨.store (.insert (fallback operator g)), .ok v⟩ b) where
  foreign := by
    rw [Recall.backend_after]
    exact h.foreign.performStore (.inl rfl) hcall
  bare := h.bare.after (fun _ => List.mem_cons_of_mem _) fun _ o ho => by
    rcases Backend.mem_entries_performStore hcall o ho with hrow | hold
    · have hgroup : o.group = g := congrArg Grant.group (List.mem_singleton.1 hrow)
      exact .inr (hgroup ▸ hnew)
    · exact .inl hold
  clean := by
    refine h.clean.after nofun (fun _ _ _ _ => id) fun rows hfound htakes hnot o ho hconfers => ?_
    rcases Backend.mem_entries_performStore hcall o ho with hrow | hold
    · have hrow : o.toGrant = fallback operator g := List.mem_singleton.1 hrow
      have hconfers : (fallback operator g).Confers e.toGrant p := hrow ▸ hconfers
      obtain rfl : g = e.group := hconfers.group
      have hbare := h.bare
      rw [Bare, hfound] at hbare
      have hearly : a.early = [] :=
        by_contra fun hread => hbare htakes hread List.mem_cons_self
      exact (hnot (.inr (.inr ⟨hearly, hconfers, _,
        List.mem_append_right _ List.mem_cons_self, rfl⟩))).elim
    · exact .inl hold

theorem createMissing_heeds {rest : List GroupId}
    (h : Settled operator r e p (· ∈ g :: rest) False a) (hnew : g ∉ rest) :
    Heeds r (createMissing operator g) (fun _ => Settled operator r e p (· ∈ rest) False) a := by
  have hpass {a : Recall} (h : Settled operator r e p (· ∈ g :: rest) False a) :
      Settled operator r e p (· ∈ rest) False a := h.mono fun _ => List.mem_cons_of_mem _
  refine settled_look (.inl rfl) h ?_
  rintro (error | rows) a h
  · exact heeds_pure (hpass h)
  · have hcreate : Heeds r (Groups.create (fallback operator g))
        (fun _ => Settled operator r e p (· ∈ rest) False) a := by
      rw [Groups.create]
      split
      · exact heeds_pure (hpass h)
      · exact heeds_store stable_settled h
          (fun a v b h hcall => heeds_log (heeds_pure (h.makeUp hnew hcall)))
          fun a error b h hb => heeds_pure (hpass (h.alike hb rfl))
    dsimp only
    split
    · exact heeds_pure (hpass h)
    · refine hcreate.bind ?_
      rintro (error | v) a h
      · exact heeds_pure h
      · exact heeds_pure h

theorem createMissingGroups_heeds (h : Settled operator r e p (· ∈ s.missing) False a)
    (hs : s.Orderly) : Heeds r (createMissingGroups operator s summary)
      (fun _ => Settled operator r e p (fun _ => False) False) a := by
  have hstable (rest : List GroupId) : Stable (Recall.Rely r) fun a =>
      Settled operator r e p (· ∈ rest) False a ∧ rest.Pairwise (· < ·) :=
    fun _ _ h hrely => h.imp_left (stable_settled · hrely)
  refine (safe_forItems recall_callsOnly hstable (fun g rest summary a h => ?_)
    ⟨h, hs.ascending⟩).mono fun _ _ ⟨_, h⟩ => h.1.mono fun _ => False.elim
  obtain ⟨hlt, hrest⟩ := List.pairwise_cons.1 h.2
  refine (createMissing_heeds h.1 fun hmem => Identifier.lt_irrefl _ (hlt g hmem)).bind ?_
  rintro (error | _ | _) a h
  · exact safe_fail recall_callsOnly (fun _ => hstable rest) fun _ => ⟨h, hrest⟩
  · exact heeds_log (safe_pure (hstable rest) ⟨h, hrest⟩)
  · exact heeds_log (safe_pure (hstable rest) ⟨h, hrest⟩)

/-! ### Orphan groups and rows that repeat one another -/

/-- A group that is deleted is clean, even if it was filled before. -/
theorem Settled.dissolve {n : Nat} (h : Settled operator r e p bare False a)
    (hcall : a.backend.performStore (.deleteGroup g) = some (.ok n, b)) :
    Settled operator r e p bare False (a.after ⟨.store (.deleteGroup g), .ok n⟩ b) := by
  have hrows := Backend.alters_performStore hcall
  have hforeign := h.foreign.performStore (.inl rfl) hcall
  have hsub : ∀ o ∈ b.entries, o ∈ a.backend.entries ∧ o.group ≠ g := by
    intro o ho
    rw [hrows] at ho
    simpa using List.mem_filter.1 ho
  by_cases hg : g = e.group
  · refine ⟨by rwa [Recall.backend_after], h.bare.after (fun _ => id) fun _ o ho =>
      .inl (hsub o ho).1, fun _ _ _ _ o ho hconfers => ?_⟩
    rw [Recall.backend_after] at ho
    exact (hsub o ho).2 (hconfers.group.trans hg.symm)
  · exact h.after_of_subset (by simpa [Exchange.dissolved?] using hg) hforeign
      fun o ho => (hsub o ho).1

theorem deleteOrphans_heeds (h : Settled operator r e p bare False a) :
    Heeds r (deleteOrphans s summary) (fun _ => Settled operator r e p bare False) a := by
  refine heeds_forItems (fun g summary a h => ?_) h
  refine heeds_store stable_settled h (fun a n b h hcall => ?_) fun a error b h hb => ?_
  · have h := h.dissolve hcall
    dsimp only
    split
    · exact heeds_log (heeds_pure h)
    · exact heeds_log (heeds_pure h)
  · have h := h.alike hb (x := ⟨.store (.deleteGroup g), .error error⟩) rfl
    cases error with
    | notFound => exact heeds_log (heeds_pure h)
    | _ => exact heeds_fail h

theorem deleteRepeated_heeds {kept : List Grant} {n : Nat} {rows : List Entry}
    (h : Settled operator r e p bare False a) :
    Heeds r (deleteRepeated kept n rows) (fun _ => Settled operator r e p bare False) a := by
  induction rows generalizing kept n a with
  | nil => exact heeds_pure h
  | cons o rest ih =>
    rw [deleteRepeated]
    split
    · exact ih h
    · refine heeds_store stable_settled h (fun a v b h hcall => ih ?_) fun a error b h hb => ?_
      · have hx : Exchange.dissolved? ⟨.store (.deleteEntry o.id), .ok v⟩ ≠ some e.group := by
          simp [Exchange.dissolved?]
        refine h.after_of_subset hx (h.foreign.performStore (.inl rfl) hcall) fun o ho => ?_
        exact (Backend.mem_entries_performStore hcall o ho).resolve_left List.not_mem_nil
      · have h := h.alike hb (x := ⟨.store (.deleteEntry o.id), .error error⟩) rfl
        cases error with
        | notFound => exact ih h
        | _ => exact heeds_pure h

theorem collapseDuplicates_heeds (h : Settled operator r e p bare False a) :
    Heeds r (collapseDuplicates summary) (fun _ => Settled operator r e p bare False) a := by
  refine safe_checkpoint recall_callsOnly fun summary => ?_
  split
  · exact heeds_pure h
  · rw [Groups.findDuplicates, bind_assoc]
    refine settled_look (.inl rfl) h ?_
    rintro (error | groups) a h
    · exact heeds_fail h
    · refine heeds_forItems (fun g summary a h => ?_) h
      have hgroup : Heeds r (collapseGroup g)
          (fun _ => Settled operator r e p bare False) a := by
        refine settled_look (.inl rfl) h ?_
        rintro (error | rows) a h
        · exact heeds_pure h
        · exact deleteRepeated_heeds h
      refine hgroup.bind ?_
      rintro (error | n) a h
      · exact heeds_fail h
      · dsimp only
        split
        · exact heeds_log (heeds_pure h)
        · exact heeds_pure h

/-! ### A run -/

/-- All phases leave the rows clean. -/
theorem repair_heeds (h : Untouched operator r e p (· ∈ s.missing) a) (hs : s.Orderly) :
    Heeds r (repair operator s summary)
      (fun _ => Settled operator r e p (fun _ => False) False) a := by
  refine (splitMixed_heeds h).bind fun _ _ h => ?_
  refine (reassignShared_heeds h fun g hg => (hs.missing g hg).1).bind fun _ _ h => ?_
  refine (createMissingGroups_heeds h hs).bind fun _ _ h => ?_
  exact (deleteOrphans_heeds h).bind fun _ _ h => collapseDuplicates_heeds h

theorem runOnce_heeds (h : Untouched operator r e p (fun _ => False) a) (hearly : a.early = []) :
    Heeds r (runOnce operator) (fun _ => Settled operator r e p (fun _ => False) False) a := by
  refine heeds_quiet (fun _ => nofun) fun taken => ?_
  split
  · have hrun : Heeds r (runHolding operator)
        (fun _ => Settled operator r e p (fun _ => False) False) a := by
      refine heeds_log ((scan_heeds h hearly).bind ?_)
      rintro (error | ⟨s, summary⟩) a hscan
      · exact heeds_quiet (fun _ => nofun) fun _ => heeds_pure hscan
      · refine (repair_heeds hscan.1 hscan.2).bind fun _ a h => ?_
        exact heeds_quiet (fun _ => nofun) fun _ => heeds_log (heeds_pure h)
    exact hrun.bind fun _ a h => heeds_quiet (fun _ => nofun) fun _ => heeds_pure h
  · exact heeds_log (heeds_quiet (fun _ => nofun) fun _ => heeds_pure h.settled)

/-- **Revoked grants stay revoked.** Let the rows be below the counter for new ones, and let no kind
have its resources in a table of the store. While a sweep goes on a client deletes a row or writes
another grant over it, and a principal loses what no other row confers. Whatever calls fail and
whenever the sweep is cancelled, no row confers it once the sweep is done, unless the sweep restored
it. -/
theorem revoked_runOnce {w : World} {k : Conditions}
    {c : Amid (Except ServiceError SweepOutcome) Bool World} (hcounted : w.backend.Counted)
    (hreaches : (Setting.revoking r k).Reaches ⟨runOnce operator, false, w, []⟩ c)
    (hdone : ∃ x, c.rest = .done x) (htakes : r.Takes c.found e p)
    (hnot : ¬ Restores operator r e p c.early c.late) :
    ∀ o ∈ c.world.backend.entries, ¬ o.Confers e.toGrant p := by
  have hstart : Untouched operator r e p (fun _ => False) ⟨w.backend, none, [], []⟩ :=
    ⟨⟨hcounted.avoids.mono nofun, fun _ _ => id, nofun⟩, hcounted.avoids⟩
  have hshown : Recall.Shown false w [] ⟨w.backend, none, [], []⟩ := ⟨rfl, rfl, rfl⟩
  obtain ⟨a, hshown, hsafe⟩ := (Setting.simulates_revoking r k).reaches hreaches hshown
    (runOnce_heeds hstart rfl)
  obtain ⟨x, hx⟩ := hdone
  rw [hx] at hsafe
  have hsettled := hsafe a .refl
  rcases hfound : a.found with _ | rows
  · -- the client has not acted
    have hmem := htakes.mem
    rw [hshown.tells.found_eq_nil hfound] at hmem
    cases hmem
  · obtain ⟨hrows, hearly, hlate⟩ := hshown.tells.eq hfound
    rw [hrows] at htakes
    rw [hearly, hlate] at hnot
    intro o ho
    exact hsettled.clean rows hfound htakes hnot o (hshown.backend ▸ ho)

/-- A sweep that a client interrupts after some operations, and that goes on to its end. -/
def interrupted (w : World) (r : Revocation) (before : Nat) :
    Amid (Except ServiceError SweepOutcome) Bool World :=
  Nat.repeat Amid.advance 60
    (r.interrupt (Nat.repeat Amid.advance before ⟨runOnce ⟨7⟩, false, w, []⟩))

theorem reaches_interrupted (w : World) (r : Revocation) (before : Nat) :
    (Setting.revoking r .quiet).Reaches ⟨runOnce ⟨7⟩, false, w, []⟩ (interrupted w r before) :=
  Revocation.reaches_interrupt before 60 _

/-- The row of `disordered` with two principals. -/
def shared : Entry :=
  ⟨⟨⟨5⟩, some ⟨1⟩, some ⟨2⟩, .full⟩, ⟨1⟩⟩

/-- The row is deleted in the middle of its split, and the unit does not get it back. -/
theorem revoked_runOnce_disordered :
    (Revocation.delete ⟨1⟩).Takes (interrupted disordered (.delete ⟨1⟩) 16).found shared
        (.unit ⟨2⟩) ∧
      ∀ o ∈ (interrupted disordered (.delete ⟨1⟩) 16).world.backend.entries,
        ¬ o.Confers shared.toGrant (.unit ⟨2⟩) :=
  ⟨by decide +kernel, revoked_runOnce sound_disordered.counted (reaches_interrupted ..)
    (by decide +kernel) (by decide +kernel) (by decide +kernel)⟩

/-! ### What a sweep brings back -/

/-- A row that lets a user read. -/
def reader (id : EntryId) (group : GroupId) (user : UserId) : Entry :=
  (Grant.forUser group user Privilege.read.mask).toEntry id

/-- A store in memory with these rows, and pages that refer to group 5. -/
def paged (rows : List Entry) (nextEntry : Int64) (pages : List ResourceId) : World where
  backend := .memory { entries := .ofRows rows, nextEntry }
    { refs := fun
        | .page => .ofRows (pages.map (⟨·, ⟨5⟩⟩))
        | _ => .empty }

/-- Group 6 has one row, and is handed out as a fresh one when that has been deleted. -/
def vacated : World :=
  paged [reader ⟨1⟩ ⟨6⟩ ⟨1⟩, reader ⟨2⟩ ⟨5⟩ ⟨1⟩] 3 [⟨1⟩, ⟨2⟩]

/-- The only row of the group of a page is one such as a sweep makes up. -/
def operated : World :=
  paged [(fallback ⟨7⟩ ⟨5⟩).toEntry ⟨1⟩] 2 [⟨1⟩]

/-- The counter for rows has wrapped around: a new one takes the place of a row with two
principals. -/
def wrapped : World :=
  paged [⟨⟨⟨5⟩, some ⟨1⟩, some ⟨2⟩, .full⟩, ⟨Int64.minValue⟩⟩,
    ⟨⟨⟨5⟩, some ⟨3⟩, some ⟨4⟩, Privilege.read.mask⟩, ⟨Int64.minValue + 1⟩⟩,
    reader ⟨7⟩ ⟨5⟩ ⟨3⟩] (Int64.minValue + 1) [⟨1⟩]

/-- The run brings back what the client took. -/
structure Regains (w : World) (r : Revocation) (e : Entry) (p : Principal)
    (c : Amid (Except ServiceError SweepOutcome) Bool World) : Prop where
  reaches : (Setting.revoking r .quiet).Reaches ⟨runOnce ⟨7⟩, false, w, []⟩ c
  done : ∃ x, c.rest = .done x
  takes : r.Takes c.found e p
  regained : ∃ o ∈ c.world.backend.entries, o.Confers e.toGrant p

theorem regains_interrupted {w : World} (before : Nat)
    (h : (∃ x, (interrupted w r before).rest = .done x) ∧
      r.Takes (interrupted w r before).found e p ∧
        ∃ o ∈ (interrupted w r before).world.backend.entries, o.Confers e.toGrant p) :
    Regains w r e p (interrupted w r before) :=
  ⟨reaches_interrupted .., h.1, h.2.1, h.2.2⟩

/-- A sweep brings a grant back when the client acts between its calls for a split, or before it
reads the rows. If a new row can take the place of an old one, it can do so without restoring
anything. -/
theorem not_revoked_runOnce :
    (∃ c, Regains disordered (.delete ⟨1⟩) shared (.user ⟨1⟩) c) ∧
    (∃ c, Regains disordered (.update (reader ⟨1⟩ ⟨5⟩ ⟨3⟩)) shared (.unit ⟨2⟩) c) ∧
    (∃ c, Regains vacated (.delete ⟨1⟩) (reader ⟨1⟩ ⟨6⟩ ⟨1⟩) (.user ⟨1⟩) c) ∧
    (∃ c, Regains operated (.delete ⟨1⟩) ((fallback ⟨7⟩ ⟨5⟩).toEntry ⟨1⟩) (.user ⟨7⟩) c) ∧
    ∃ c, Regains wrapped (.delete ⟨7⟩) (reader ⟨7⟩ ⟨5⟩ ⟨3⟩) (.user ⟨3⟩) c ∧
      ¬ Restores ⟨7⟩ (.delete ⟨7⟩) (reader ⟨7⟩ ⟨5⟩ ⟨3⟩) (.user ⟨3⟩) c.early c.late :=
  ⟨⟨_, regains_interrupted 15 (by decide +kernel)⟩,
    ⟨_, regains_interrupted 16 (by decide +kernel)⟩,
    ⟨_, regains_interrupted 2 (by decide +kernel)⟩,
    ⟨_, regains_interrupted 2 (by decide +kernel)⟩,
    ⟨_, regains_interrupted 16 (by decide +kernel), by decide +kernel⟩⟩

end Sweep

end AccessGroups
