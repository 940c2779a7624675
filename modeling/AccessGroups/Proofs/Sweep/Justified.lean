import AccessGroups.Proofs.Sweep.Consistency
import AccessGroups.Proofs.Sweep.Honest
import Mathlib.Data.List.TakeWhile

/-!
# Every write of a sweep is justified by what it read

A sweep is run among others that do anything to the world between its calls, while any call may
fail. Each phase makes justified calls only, as long as the scan says what the record says; this
no later call changes. So every call that a sweep makes is justified by the calls that it made
before.

## Main definitions

* `Sweep.Sifting`: what is known of the rows of a group while some of them are deleted.
* `Setting.unruly`: others that do anything, and calls that fail at any time.

## Main results

* `Sweep.repair_honest`: all phases make justified calls only.
* `Sweep.justified_runOnce`: every call of every sweep among others is justified.
-/

namespace AccessGroups

namespace Sweep

variable {operator : UserId} {record : List Exchange} {r : Summary} {s : Scan}

/-! ### Rows with two principals -/

theorem splitEntry_honest {mixed : List Entry} {e : Entry} (he : e ∈ mixed)
    (h : Sees s record [] ∧ ∃ splits, Halving record mixed splits) :
    Honest operator (splitEntry e)
      (fun _ record => Sees s record [] ∧ ∃ splits, Halving record mixed splits) record := by
  obtain ⟨hsees, splits, hsplits⟩ := h
  rw [splitEntry]
  split
  · next user unit huser hunit =>
    have hmixed : e.isMixed = true := by simp [Grant.isMixed, huser, hunit]
    have hhalf : Grant.forUser e.group user e.privileges = e.toGrant.userHalf := by
      rw [Grant.userHalf, huser]
      rfl
    rw [hhalf]
    refine honest_store (.inl ⟨mixed, splits, hsplits, e, he, hmixed, rfl⟩) (fun v _ => ?_)
      fun e => honest_pure ⟨hsees.note rfl, _, hsplits.note rfl⟩
    have hlent : Halving _ mixed _ := hsplits.note
      (x := ⟨.store (.insert e.toGrant.userHalf), .ok v⟩) rfl
    dsimp only
    rw [← bind_pure (Prog.store _)]
    refine honest_store ⟨mixed, _, hlent, e, he, hmixed, rfl, v, by simp⟩ (fun _ _ => ?_)
      fun e => ?_
    · exact honest_pure ⟨(hsees.note rfl).note rfl, _, hlent.note rfl⟩
    · exact honest_pure ⟨(hsees.note rfl).note rfl, _, hlent.note rfl⟩
  · exact honest_pure ⟨hsees, splits, hsplits⟩

theorem splitMixed_honest (h : Sees s record []) :
    Honest operator (splitMixed r) (fun _ record => Sees s record []) record := by
  refine checkpoint_honest fun r => ?_
  split
  · exact honest_pure h
  · refine honest_store trivial (fun mixed _ => ?_) fun e => fail_honest fun _ => h.note rfl
    refine (forItems_honest (I := fun record =>
        Sees s record [] ∧ ∃ splits, Halving record mixed splits) (fun e he r record hI => ?_)
      ⟨h.note rfl, [], ⟨record, rfl⟩, by simp⟩).mono fun _ _ hI => hI.1
    refine (splitEntry_honest he hI).bind ?_
    rintro (e | _) record hI
    · exact fail_honest fun _ => hI
    · exact honest_log (honest_pure hI)

/-! ### Resources that share a group -/

/-- A group that is handed out at the end is not among those of the scan. -/
theorem allocateFresh_honest {kind : ResourceKind} {resource : ResourceId} {g : GroupId}
    (limit : Nat) (h : Sees s record [] ∧ ∃ item, Preparing record kind resource g item) :
    Honest operator (allocateFresh s.referenced limit) (fun x record => Sees s record [] ∧
      ∃ item, Preparing record kind resource g item ∧ ∀ n, x = .ok n →
        n ∉ s.referenced ∧ ⟨.store .allocateGroup, .ok n⟩ ∈ item) record := by
  induction limit generalizing record with
  | zero => trivial
  | succ limit ih =>
    obtain ⟨hsees, item, hitem⟩ := h
    rw [allocateFresh_succ]
    refine honest_store trivial (fun n _ => ?_) fun e => ?_
    · dsimp only
      split
      · next hnew =>
        refine honest_pure ⟨hsees.note rfl, _, hitem.note rfl, fun n' heq => ?_⟩
        cases heq
        exact ⟨hnew, by simp⟩
      · exact honest_log (ih ⟨hsees.note rfl, _, hitem.note rfl⟩)
    · refine honest_pure ⟨hsees.note rfl, _, hitem.note rfl, fun n heq => ?_⟩
      cases heq

/-- The rows for the new group are those of the present one. -/
theorem readGroup_honest {kind : ResourceKind} {resource : ResourceId} {g n : GroupId}
    {item : List Exchange} (hsees : Sees s record [])
    (hitem : Preparing record kind resource g item)
    (hissued : ⟨.store .allocateGroup, .ok n⟩ ∈ item) (hnew : n ∉ s.referenced) :
    Honest operator (readGroup g) (fun x record => Sees s record [] ∧
      (∃ item, Preparing record kind resource g item) ∧
        ∀ source, x = .ok source → Allotted operator record n (copies operator source n))
      record := by
  have hallotted {record item source} (hsees : Sees s record [])
      (hitem : Preparing record kind resource g item)
      (hissued : ⟨.store .allocateGroup, .ok n⟩ ∈ item)
      (hsource : if g.IsValid then ⟨.store (.findGroup g), .ok source⟩ ∈ item else source = []) :
      Allotted operator record n (copies operator source n) := by
    refine ⟨⟨kind, resource, g, item, source, hitem, hissued, rfl, hsource⟩, ?_, copies_ne_nil,
      fun x => group_of_mem_copies⟩
    intro k refs hlisted a ha hvalid heq
    exact hnew (heq ▸ hsees.referenced k refs hlisted a ha hvalid)
  rw [readGroup]
  split
  · next hvalid =>
    rw [← bind_pure (Prog.store _)]
    refine honest_store trivial (fun source _ => ?_) fun e => ?_
    · refine honest_pure ⟨hsees.note rfl, ⟨_, hitem.note rfl⟩, fun _ heq => ?_⟩
      cases heq
      refine hallotted (hsees.note rfl) (hitem.note rfl) (List.mem_append_left _ hissued) ?_
      rw [if_pos hvalid]
      exact List.mem_append_right _ (List.mem_singleton_self _)
    · refine honest_pure ⟨hsees.note rfl, ⟨_, hitem.note rfl⟩, fun _ heq => ?_⟩
      cases heq
  · next hinvalid =>
    refine honest_pure ⟨hsees, ⟨_, hitem⟩, fun _ heq => ?_⟩
    cases heq
    exact hallotted hsees hitem hissued (if_neg hinvalid ▸ rfl)

theorem reassign_honest {i : ResourceKind × ResourceId} (hi : i ∈ s.shared)
    (h : Sees s record []) : Honest operator (reassign operator s i.1 i.2)
      (fun _ record => Sees s record []) record := by
  refine honest_registry trivial (fun g => ?_) fun e => ?_
  · have hstart : Preparing (record ++ [⟨.registry (.findRef i.1 i.2), .ok g⟩]) i.1 i.2 g [] :=
      ⟨⟨record, rfl⟩, by simp⟩
    refine (allocateFresh_honest _ ⟨h.note rfl, [], hstart⟩).bind ?_
    rintro (e | n) record ⟨hsees, item, hitem, hissued⟩
    · exact honest_pure hsees
    · obtain ⟨hnew, hissued⟩ := hissued n rfl
      refine (readGroup_honest hsees hitem hissued hnew).bind ?_
      rintro (e | source) record ⟨hsees, ⟨item, hitem⟩, hallotted⟩
      · exact honest_pure hsees
      · refine honest_store (hallotted source rfl) (fun v _ => ?_) fun e =>
          honest_pure (hsees.note rfl)
        have hrelocated : Relocated _ i.1 i.2 n :=
          ⟨(hsees.note (x := ⟨.store (.replaceGroup n _), .ok v⟩) rfl).shared i hi,
            record, g, item, _, v, hitem, rfl⟩
        exact honest_registry hrelocated (fun _ => honest_pure ((hsees.note rfl).note rfl))
          fun e => honest_pure ((hsees.note rfl).note rfl)
  · split
    · exact honest_pure (h.note rfl)
    · exact honest_pure (h.note rfl)
    · next heq => cases heq

theorem reassignShared_honest (h : Sees s record []) :
    Honest operator (reassignShared operator s r) (fun _ record => Sees s record []) record := by
  refine forItems_honest (I := fun record => Sees s record []) (fun i hi r record h => ?_) h
  refine (reassign_honest hi h).bind ?_
  rintro (e | _ | ⟨old, n⟩) record h
  · exact fail_honest fun _ => h
  · exact honest_log (honest_pure h)
  · exact honest_log (honest_pure h)

/-! ### Missing groups -/

theorem createMissing_honest {g : GroupId} (hg : g ∈ s.missing) (h : Sees s record []) :
    Honest operator (createMissing operator g) (fun _ record => Sees s record []) record := by
  refine honest_store trivial (fun rows _ => ?_) fun e => honest_pure (h.note rfl)
  have hsees : Sees s (record ++ [⟨.store (.findGroup g), .ok rows⟩]) [] := h.note rfl
  dsimp only
  split
  · exact honest_pure hsees
  · next hempty =>
    obtain rfl : rows = [] := by simpa using hempty
    obtain ⟨hreferenced, hstored⟩ := hsees.missing g hg
    obtain ⟨hvalid, hlisted⟩ := hsees.referred g hreferenced
    have hmade : MadeUp operator (record ++ [⟨.store (.findGroup g), .ok []⟩])
        (fallback operator g) :=
      ⟨record, g, rfl, rfl, hvalid, hlisted, fun rows hrows e he heq =>
        hstored (heq ▸ hsees.read rows hrows e he)⟩
    have hcreate : Honest operator (Groups.create (fallback operator g))
        (fun _ record => Sees s record []) (record ++ [⟨.store (.findGroup g), .ok []⟩]) := by
      rw [Groups.create]
      split
      · exact honest_pure hsees
      · exact honest_store (.inr hmade) (fun v _ => honest_log (honest_pure (hsees.note rfl)))
          fun e => honest_pure (hsees.note rfl)
    refine hcreate.bind ?_
    rintro (e | v) record h
    · exact honest_pure h
    · exact honest_pure h

theorem createMissingGroups_honest (h : Sees s record []) :
    Honest operator (createMissingGroups operator s r) (fun _ record => Sees s record [])
      record := by
  refine forItems_honest (I := fun record => Sees s record []) (fun g hg r record h => ?_) h
  refine (createMissing_honest hg h).bind ?_
  rintro (e | _ | _) record h
  · exact fail_honest fun _ => h
  · exact honest_log (honest_pure h)
  · exact honest_log (honest_pure h)

/-! ### Orphan groups -/

theorem Sees.orphaned {g : GroupId} (h : Sees s record []) (hg : g ∈ s.orphans) :
    Orphaned record g := by
  rw [Scan.orphans] at hg
  split at hg
  · exact (List.not_mem_nil hg).elim
  · next hfailed =>
    obtain ⟨hstored, hnot⟩ := List.mem_filter.1 hg
    have hnone := Bool.eq_false_iff.2 hfailed
    refine ⟨fun kind => h.listed hnone kind List.not_mem_nil, h.unfailed hnone, h.stored g hstored,
      fun hvalid kind refs hlisted a ha heq => ?_⟩
    refine of_decide_eq_true hnot ?_
    exact heq ▸ h.referenced kind refs hlisted a ha (heq ▸ hvalid)

theorem deleteOrphans_honest (h : Sees s record []) :
    Honest operator (deleteOrphans s r) (fun _ record => Sees s record []) record := by
  refine forItems_honest (I := fun record => Sees s record []) (fun g hg r record h => ?_) h
  refine honest_store (h.orphaned hg) (fun removed _ => ?_) fun e => ?_
  · dsimp only
    split
    · exact honest_log (honest_pure (h.note rfl))
    · exact honest_log (honest_pure (h.note rfl))
  · split
    · next heq => cases heq
    · exact honest_log (honest_pure (h.note rfl))
    · exact fail_honest fun _ => h.note rfl

/-! ### Rows that repeat one another -/

/-- Since the rows of the group were read only some were deleted, in ascending order. Each grant
that is kept has a row that was not deleted. All these rows come before those that are left. -/
structure Sifting (rows : List Entry) (kept : List Grant) (rest : List Entry)
    (deleted : List Exchange) : Prop where
  ascending : rest.Pairwise fun a b => a.id < b.id
  left : ∀ e ∈ rest, e ∈ rows
  gone : ∀ x ∈ deleted, ∃ j, x.call = .store (.deleteEntry j) ∧ ∀ e ∈ rest, j < e.id
  stays : ∀ x ∈ kept, ∃ v ∈ rows, v.toGrant = x ∧ (∀ e ∈ rest, v.id < e.id) ∧
    ∀ y ∈ deleted, y.call ≠ .store (.deleteEntry v.id)

variable {rows rest : List Entry} {kept : List Grant} {e : Entry} {deleted : List Exchange}

theorem Sifting.keep (h : Sifting rows kept (e :: rest) deleted) :
    Sifting rows (e.toGrant :: kept) rest deleted := by
  obtain ⟨hlt, hascending⟩ := List.pairwise_cons.1 h.ascending
  refine ⟨hascending, fun x hx => h.left x (List.mem_cons_of_mem _ hx), fun x hx => ?_,
    fun x hx => ?_⟩
  · obtain ⟨j, hj, hbefore⟩ := h.gone x hx
    exact ⟨j, hj, fun y hy => hbefore y (List.mem_cons_of_mem _ hy)⟩
  · rcases List.mem_cons.1 hx with rfl | hx
    · refine ⟨e, h.left e List.mem_cons_self, rfl, hlt, fun y hy heq => ?_⟩
      obtain ⟨j, hj, hbefore⟩ := h.gone y hy
      cases hj.symm.trans heq
      exact Identifier.lt_irrefl _ (hbefore e List.mem_cons_self)
    · obtain ⟨v, hv, hvx, hbefore, hstays⟩ := h.stays x hx
      exact ⟨v, hv, hvx, fun y hy => hbefore y (List.mem_cons_of_mem _ hy), hstays⟩

/-- Whatever the answer to its deletion is, a row counts as deleted. -/
theorem Sifting.erase (h : Sifting rows kept (e :: rest) deleted) {x : Exchange}
    (hx : x.call = .store (.deleteEntry e.id)) : Sifting rows kept rest (deleted ++ [x]) := by
  obtain ⟨hlt, hascending⟩ := List.pairwise_cons.1 h.ascending
  refine ⟨hascending, fun y hy => h.left y (List.mem_cons_of_mem _ hy), fun y hy => ?_,
    fun z hz => ?_⟩
  · rcases List.mem_append.1 hy with hy | hy
    · obtain ⟨j, hj, hbefore⟩ := h.gone y hy
      exact ⟨j, hj, fun z hz => hbefore z (List.mem_cons_of_mem _ hz)⟩
    · exact ⟨e.id, List.mem_singleton.1 hy ▸ hx, hlt⟩
  · obtain ⟨u, hu, huz, hbefore, hstays⟩ := h.stays z hz
    refine ⟨u, hu, huz, fun y hy => hbefore y (List.mem_cons_of_mem _ hy), fun y hy heq => ?_⟩
    rcases List.mem_append.1 hy with hy | hy
    · exact hstays y hy heq
    · obtain rfl := List.mem_singleton.1 hy
      have hid : e.id = u.id := by simpa using hx.symm.trans heq
      exact Identifier.lt_irrefl _ (hid ▸ hbefore e List.mem_cons_self)

theorem Sifting.repeated {g : GroupId} {front : List Exchange}
    (h : Sifting rows kept (e :: rest) deleted) (hold : e.toGrant ∈ kept) :
    Repeated (front ++ ⟨.store (.findGroup g), .ok rows⟩ :: deleted) e.id [] := by
  obtain ⟨v, hv, hve, hbefore, hstays⟩ := h.stays _ hold
  refine ⟨front, g, rows, deleted, rfl, fun x hx => ?_, e, h.left e List.mem_cons_self, v, hv, rfl,
    hbefore e List.mem_cons_self, hve, ?_⟩
  · obtain ⟨j, hj, hbefore⟩ := h.gone x hx
    exact ⟨j, hbefore e List.mem_cons_self, hj⟩
  · simpa using hstays

theorem deleteRepeated_honest {g : GroupId} {removed : Nat} {front : List Exchange}
    (h : Sifting rows kept rest deleted)
    (hrecord : record = front ++ ⟨.store (.findGroup g), .ok rows⟩ :: deleted) :
    Honest operator (deleteRepeated kept removed rest) (fun _ _ => True) record := by
  induction rest generalizing kept removed deleted record with
  | nil => exact honest_pure trivial
  | cons e rest ih =>
    rw [deleteRepeated]
    split
    · exact ih h.keep hrecord
    · next hold =>
      have hnext {x : StoreCall.Answer (.deleteEntry e.id)} {removed : Nat} :
          Honest operator (deleteRepeated kept removed rest) (fun _ _ => True)
            (record ++ [⟨.store (.deleteEntry e.id), x⟩]) := by
        have hsifting := h.erase (x := ⟨.store (.deleteEntry e.id), x⟩) rfl
        exact ih hsifting (by simp [hrecord])
      refine honest_store (hrecord ▸ h.repeated (not_not.1 hold)) (fun _ _ => hnext) fun x => ?_
      split
      · next heq => cases heq
      · exact hnext
      · exact honest_pure trivial

theorem collapseDuplicates_honest :
    Honest operator (collapseDuplicates r) (fun _ _ => True) record := by
  refine checkpoint_honest fun r => ?_
  split
  · exact honest_pure trivial
  · rw [Groups.findDuplicates, bind_assoc]
    refine honest_store trivial (fun groups _ => ?_) fun e => fail_honest fun _ => trivial
    refine forItems_honest (I := fun _ => True) (fun g _ r record _ => ?_) trivial
    have hgroup : Honest operator (collapseGroup g) (fun _ _ => True) record := by
      refine honest_store trivial (fun rows hrows => ?_) fun e => honest_pure trivial
      dsimp only
      rw [sortRows_eq hrows]
      have hstart : Sifting rows [] rows [] := ⟨hrows, fun _ => id, by simp, by simp⟩
      exact deleteRepeated_honest hstart rfl
    refine hgroup.bind ?_
    rintro (e | n) record -
    · exact fail_honest fun _ => trivial
    · dsimp only
      split
      · exact honest_log (honest_pure trivial)
      · exact honest_pure trivial

/-! ### Every run -/

/-- All phases make justified calls only. -/
theorem repair_honest (h : Sees s record []) :
    Honest operator (repair operator s r) (fun _ _ => True) record := by
  refine (splitMixed_honest h).bind fun r record h => ?_
  refine (reassignShared_honest h).bind fun r record h => ?_
  refine (createMissingGroups_honest h).bind fun r record h => ?_
  exact (deleteOrphans_honest h).bind fun r record _ => collapseDuplicates_honest

theorem runOnce_honest : Honest operator (runOnce operator) (fun _ _ => True) [] := by
  have hquiet {α : Type} {op : Op} {f : op.Answer → Prog α} {record : List Exchange}
      (hop : ∀ c, op ≠ .call c) (h : ∀ x, Honest operator (f x) (fun _ _ => True) record) :
      Honest operator (Prog.perform op >>= f) (fun _ _ => True) record :=
    Prog.safe_quiet recorded_callsOnly hop h
  refine hquiet (fun _ => nofun) fun taken => ?_
  split
  · have hrun : Honest operator (runHolding operator) (fun _ _ => True) [] := by
      refine honest_log (scan_honest.bind ?_)
      rintro (e | ⟨s, r⟩) record hscan
      · exact hquiet (fun _ => nofun) fun _ => honest_pure trivial
      · refine (repair_honest hscan).bind fun r record _ => ?_
        exact hquiet (fun _ => nofun) fun _ => honest_log (honest_pure trivial)
    exact hrun.bind fun _ _ _ => hquiet (fun _ => nofun) fun _ => honest_pure trivial
  · exact honest_log (hquiet (fun _ => nofun) fun _ => honest_pure trivial)

end Sweep

/-! ### Others that do anything -/

/-- Others do anything to the world at any time, and calls fail at any time. -/
def Setting.unruly : Setting Unit Unit where
  acts _ _ _ _ _ := True
  conditions := ⟨fun _ => True, True⟩
  admits _ _ := True

/-- A store answers with the rows of a group in the order of their identifiers. -/
theorem World.credible_answer {w v : World} {c : Call} {x : c.Answer}
    (h : w.answer c = (some x, v)) : Exchange.Credible ⟨c, x⟩ := by
  rcases c with c | c | c
  · cases c with
    | findGroup g =>
      cases x with
      | error e => trivial
      | ok rows =>
        have hrows : ∃ t : Table Entry.id, rows = t.rows.filter fun e => e.group = g := by
          rw [answer] at h
          rcases hb : w.backend with ⟨store, registry⟩ | ⟨tables, data⟩ <;>
            rw [hb, Backend.performStore] at h
          · cases h
            exact ⟨store.entries, rfl⟩
          · cases ht : data.entries with
            | none =>
              simp [Database.performStore, Database.entriesOrError, ht, Database.refuse] at h
            | some t =>
              rw [Database.performStore_eq ht] at h
              cases h
              exact ⟨t, rfl⟩
        obtain ⟨t, rfl⟩ := hrows
        exact t.ascending.filter _
    | _ => trivial
  · trivial
  · trivial

namespace Sweep

variable {operator : UserId} {w : World}

/-- A deletion that is justified so far stays so whatever follows. The deletions that follow at once
are those of larger identifiers. -/
theorem Repeated.extend {before after : List Exchange} {id : EntryId} (h : Repeated before id [])
    (hafter : ∀ x ∈ after.takeWhile Exchange.isDeletion,
      ∃ j, id < j ∧ x.call = .store (.deleteEntry j)) : Repeated before id after := by
  obtain ⟨front, g, rows, deleted, hbefore, hdeleted, e, he, v, hv, heid, hlt, hve, hstays⟩ := h
  refine ⟨front, g, rows, deleted, hbefore, hdeleted, e, he, v, hv, heid, hlt, hve, fun x hx => ?_⟩
  rcases List.mem_append.1 hx with hx | hx
  · exact hstays x (List.mem_append_left _ hx)
  · intro heq
    obtain ⟨j, hj, hcall⟩ := hafter x hx
    cases hcall.symm.trans heq
    exact Identifier.lt_irrefl _ (Identifier.lt_trans hlt hj)

/-- Of the calls of a record each was justified when it was made. -/
def AllJustified (operator : UserId) (record : List Exchange) : Prop :=
  ∀ before x after, record = before ++ x :: after → Justified operator before x.call []

theorem AllJustified.concat {record : List Exchange} {x : Exchange}
    (h : AllJustified operator record) (hx : Justified operator record x.call []) :
    AllJustified operator (record ++ [x]) := by
  intro before y after heq
  rcases List.eq_nil_or_concat after with rfl | ⟨rest, z, rfl⟩
  · obtain ⟨rfl, hlast⟩ := List.append_inj' heq rfl
    cases hlast
    exact hx
  · have hsplit : record ++ [x] = (before ++ y :: rest) ++ [z] := by simpa using heq
    exact h before y rest (List.append_inj' hsplit rfl).1

/-- Deletions that follow one another at once are of rows that were read together, in ascending
order. -/
theorem AllJustified.next_deletion {before after : List Exchange} {x : Exchange} {id : EntryId}
    (h : AllJustified operator (before ++ x :: after)) (hx : x.call = .store (.deleteEntry id))
    {y : Exchange} (hy : y ∈ after.takeWhile Exchange.isDeletion) :
    ∃ j, id < j ∧ y.call = .store (.deleteEntry j) := by
  obtain ⟨mid, rest, hmid⟩ := List.append_of_mem hy
  have hdeletion : ∀ z ∈ x :: mid, z.isDeletion = true := by
    intro z hz
    rcases List.mem_cons.1 hz with rfl | hz
    · exact Exchange.isDeletion_iff.2 ⟨id, hx⟩
    · exact List.mem_takeWhile_imp (hmid ▸ List.mem_append_left _ hz)
  obtain ⟨j, hj⟩ := Exchange.isDeletion_iff.1 (List.mem_takeWhile_imp hy)
  refine ⟨j, ?_, hj⟩
  have hsplit : before ++ x :: after =
      (before ++ x :: mid) ++ y :: (rest ++ after.dropWhile Exchange.isDeletion) :=
    calc before ++ x :: after
      _ = before ++ x :: (after.takeWhile Exchange.isDeletion ++
            after.dropWhile Exchange.isDeletion) := by rw [List.takeWhile_append_dropWhile]
      _ = _ := by rw [hmid]; simp
  have hjustified := h _ y _ hsplit
  rw [hj] at hjustified
  obtain ⟨front, g, rows, deleted, hbefore, hdeleted, -⟩ := hjustified
  have hmem : x ∈ deleted := by
    rcases List.append_eq_append_iff.1 hbefore with ⟨back, -, hback⟩ | ⟨back, -, hback⟩
    · have hread := hdeletion ⟨.store (.findGroup g), .ok rows⟩ (by simp [hback])
      cases hread
    · cases back with
      | nil =>
        obtain ⟨rfl, -⟩ := List.cons_eq_cons.1 hback
        cases hx
      | cons z back =>
        obtain ⟨-, rfl⟩ := List.cons_eq_cons.1 hback
        simp
  obtain ⟨i, hi, hcall⟩ := hdeleted x hmem
  cases hx.symm.trans hcall
  exact hi

/-- Each call of a record is justified by those before it, with an eye on those after it. -/
theorem AllJustified.split {before after : List Exchange} {x : Exchange}
    (h : AllJustified operator (before ++ x :: after)) :
    Justified operator before x.call after := by
  have hx := h before x after rfl
  rcases hcall : x.call with c | c | c <;> rw [hcall] at hx
  · cases c with
    | deleteEntry id => exact Repeated.extend hx fun y hy => h.next_deletion hcall hy
    | _ => exact hx
  · cases c <;> exact hx
  · exact hx

/-- The calls that a sweep among others makes are justified as it makes them. -/
theorem simulates_unruly : Setting.unruly.Simulates
    (fun _ _ history record => history.filterMap Moment.own? = record ∧
      AllJustified operator record) Recorded Eq (May operator) where
  own {s w h record op x v} hR hmay hanswer := by
    obtain ⟨rfl, hall⟩ := hR
    cases op with
    | call c =>
      have hcredible : Exchange.Credible ⟨c, x⟩ := by
        rcases hanswer with ⟨-, hanswer⟩ | ⟨-, ⟨e, hrefusal⟩, -⟩
        · exact World.credible_answer hanswer
        · rcases c with c | c | c
          · cases hrefusal
            cases c <;> trivial
          · trivial
          · trivial
      refine ⟨_, ⟨hcredible, rfl⟩, ?_, hall.concat hmay⟩
      rw [List.filterMap_append]
      rfl
    | log | record | poll | claim | release => exact ⟨_, rfl, by simp [Op.exchange?], hall⟩
  other hR _ := by
    obtain ⟨rfl, hall⟩ := hR
    exact ⟨_, rfl, by simp [List.filterMap_append, Moment.own?], hall⟩

/-- **Every write of a sweep is justified by what it read.** Whatever others do to the world between
the calls of a sweep, and whichever calls fail, each call that the sweep makes is justified by the
calls that it made before. -/
theorem justified_runOnce {c : Amid (Except ServiceError SweepOutcome) Unit Unit}
    (h : Setting.unruly.Reaches ⟨runOnce operator, (), w, []⟩ c) {before after : List Exchange}
    {x : Exchange} (hx : c.exchanges = before ++ x :: after) :
    Justified operator before x.call after := by
  obtain ⟨record, ⟨rfl, hall⟩, -⟩ :=
    simulates_unruly.reaches h ⟨rfl, fun _ _ _ heq => by simp at heq⟩ runOnce_honest
  exact (hx ▸ hall : AllJustified operator _).split

/-- A sweep that repairs something in every phase makes calls of every sort, and all of them are
justified. -/
theorem justified_runOnce_disordered :
    ∃ c, Setting.unruly.Reaches ⟨runOnce ⟨7⟩, (), disordered, []⟩ c ∧
      ∀ k ∈ [Call.store (.insert ⟨⟨5⟩, some ⟨1⟩, none, .full⟩),
          .store (.update ⟨⟨⟨5⟩, none, some ⟨2⟩, .full⟩, ⟨1⟩⟩), .registry (.assign .page ⟨2⟩ ⟨10⟩),
          .store (.insert ⟨⟨8⟩, some ⟨7⟩, none, .full⟩), .store (.deleteGroup ⟨9⟩),
          .store (.deleteEntry ⟨3⟩), .store (.deleteEntry ⟨8⟩)],
        ∃ before x after, c.exchanges = before ++ x :: after ∧ x.call = k ∧
          Justified ⟨7⟩ before k after := by
  obtain ⟨c, hreaches, hc⟩ :=
    Setting.unruly.reaches_watch (d := {}) (p := runOnce ⟨7⟩) () (w := disordered)
      (fun _ _ _ => trivial) (fun _ _ => trivial) undisturbed_disordered.spent fun _ _ _ => trivial
  refine ⟨c, hreaches, fun k hk => ?_⟩
  have hmade : k ∈ (disordered.watch {} (runOnce ⟨7⟩)).2.exchanges.map Exchange.call := by
    revert k
    decide +kernel
  obtain ⟨x, hx, rfl⟩ := List.mem_map.1 hmade
  obtain ⟨before, after, hsplit⟩ := List.append_of_mem (hc ▸ hx)
  exact ⟨before, x, after, hsplit, rfl, justified_runOnce hreaches hsplit⟩

end Sweep

end AccessGroups
