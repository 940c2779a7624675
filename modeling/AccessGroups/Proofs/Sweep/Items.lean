import AccessGroups.Proofs.Program.Asks
import AccessGroups.Proofs.Store.Numbering
import AccessGroups.Proofs.Sweep.Safe
import AccessGroups.Sweep.Run

/-!
# What the parts of a sweep ask for

The handling of an item makes calls and writes lines of the log. It does not ask whether the sweep
has been cancelled, and says nothing about it in the report. This is asked between items only, and
no part of a sweep touches the flag: it is taken before the scan and given back at the end.

## Main definitions

* `Sweep.Task`: a listing of the repairs, or an item to handle.
* `Sweep.Lists`: a phase begins with a listing.

## Main results

* `Sweep.uncut_handle`: the handling of an item.
* `Sweep.asks_scan`: the scan.
* `Sweep.asks_runHolding`: a whole sweep, without taking and giving back the flag.
-/

namespace AccessGroups.Sweep

open Prog

variable {operator : UserId} {s : Scan} {r : Summary} {group : GroupId}

/-! ### Items -/

/-- One piece of work of the repairs: a listing that finds items, or an item. -/
inductive Task where
  | listMixed
  | split (entry : Entry)
  | reassign (item : ResourceKind × ResourceId)
  | create (group : GroupId)
  | delete (group : GroupId)
  | listDuplicates
  | collapse (group : GroupId)

/-- Do one piece of work. What a listing has found is not looked at. -/
def Task.handle (operator : UserId) (s : Scan) : Task → Summary → Prog Summary
  | .listMixed, r => do
    match ← Prog.store .findMixed with
    | .error e => fail r .splitMixed "listing" e.message
    | .ok _ => return r
  | .split entry, r => splitItem entry r
  | .reassign item, r => reassignItem operator s item r
  | .create group, r => createItem operator group r
  | .delete group, r => deleteItem group r
  | .listDuplicates, r => do
    match ← Groups.findDuplicates with
    | .error e => fail r .collapseDuplicates "listing" e.message
    | .ok _ => return r
  | .collapse group, r => collapseItem group r

/-- The program does work only, and what it reports says the same about cancellation. -/
abbrev Uncut (r : Summary) (p : Prog Summary) : Prop :=
  p.Asks Op.IsWork fun r' => r'.cancelled = r.cancelled

theorem uncut_fail {phase : Phase} {target error : String} : Uncut r (fail r phase target error) :=
  asks_log (asks_pure rfl)

theorem uncut_splitItem (entry : Entry) : Uncut r (splitItem entry r) := by
  have hsplit : (splitEntry entry).Asks Op.IsWork fun _ => True := by
    rw [splitEntry]
    split
    · refine asks_store fun x => ?_
      cases x with
      | error e => exact asks_pure trivial
      | ok v => exact asks_store fun x => trivial
    · exact asks_pure trivial
  refine hsplit.bind fun x _ => ?_
  cases x with
  | error e => exact uncut_fail
  | ok v => exact asks_log (asks_pure rfl)

theorem asks_allocateFresh (referenced : List GroupId) (limit : Nat) :
    (allocateFresh referenced limit).Asks Op.IsWork fun _ => True := by
  induction limit with
  | zero => trivial
  | succ limit ih =>
    rw [allocateFresh_succ]
    refine asks_store fun x => ?_
    cases x with
    | error e => exact asks_pure trivial
    | ok g =>
      dsimp only
      split
      · exact asks_pure trivial
      · exact asks_log ih

theorem asks_readGroup (group : GroupId) :
    (readGroup group).Asks Op.IsWork fun _ => True := by
  rw [readGroup]
  split
  · exact asks_store fun _ => trivial
  · exact asks_pure trivial

theorem uncut_reassignItem (item : ResourceKind × ResourceId) :
    Uncut r (reassignItem operator s item r) := by
  have hreassign : (reassign operator s item.1 item.2).Asks Op.IsWork fun _ => True := by
    refine asks_registry fun x => ?_
    rcases x with (_ | _ | _) | current
    · exact asks_pure trivial
    · exact asks_pure trivial
    · exact asks_pure trivial
    · refine (asks_allocateFresh s.referenced _).bind fun x _ => ?_
      cases x with
      | error e => exact asks_pure trivial
      | ok fresh =>
        refine (asks_readGroup current).bind fun x _ => ?_
        cases x with
        | error e => exact asks_pure trivial
        | ok source =>
          refine asks_store fun x => ?_
          cases x with
          | error e => exact asks_pure trivial
          | ok v =>
            refine asks_registry fun x => ?_
            cases x with
            | error e => exact asks_pure trivial
            | ok v => exact asks_pure trivial
  refine hreassign.bind fun x _ => ?_
  rcases x with e | _ | ⟨old, fresh⟩
  · exact uncut_fail
  · exact asks_log (asks_pure rfl)
  · exact asks_log (asks_pure rfl)

theorem uncut_createItem (group : GroupId) : Uncut r (createItem operator group r) := by
  have hcreate : (createMissing operator group).Asks Op.IsWork fun _ => True := by
    refine asks_store fun x => ?_
    cases x with
    | error e => exact asks_pure trivial
    | ok entries =>
      dsimp only
      split
      · exact asks_pure trivial
      · rw [Groups.create]
        cases (fallback operator group).validate with
        | error e => exact asks_pure trivial
        | ok v =>
          refine asks_store fun x => ?_
          cases x with
          | error e => exact asks_pure trivial
          | ok stored => exact asks_log (asks_pure trivial)
  refine hcreate.bind fun x _ => ?_
  rcases x with e | _ | _
  · exact uncut_fail
  · exact asks_log (asks_pure rfl)
  · exact asks_log (asks_pure rfl)

theorem uncut_deleteItem (group : GroupId) : Uncut r (deleteItem group r) := by
  refine asks_store fun x => ?_
  rcases x with (_ | _ | _) | removed
  · exact asks_log (asks_pure rfl)
  · exact uncut_fail
  · exact uncut_fail
  · dsimp only
    split
    · exact asks_log (asks_pure rfl)
    · exact asks_log (asks_pure rfl)

theorem asks_deleteRepeated (kept : List Grant) (removed : Nat) (rows : List Entry) :
    (deleteRepeated kept removed rows).Asks Op.IsWork fun _ => True := by
  induction rows generalizing kept removed with
  | nil => exact asks_pure trivial
  | cons entry rest ih =>
    rw [deleteRepeated]
    split
    · exact ih _ _
    · refine asks_store fun x => ?_
      rcases x with (_ | _ | _) | v
      · exact ih _ _
      · exact asks_pure trivial
      · exact asks_pure trivial
      · exact ih _ _

theorem uncut_collapseItem (group : GroupId) : Uncut r (collapseItem group r) := by
  have hcollapse : (collapseGroup group).Asks Op.IsWork fun _ => True := by
    refine asks_store fun x => ?_
    cases x with
    | error e => exact asks_pure trivial
    | ok entries => exact asks_deleteRepeated _ _ _
  refine hcollapse.bind fun x _ => ?_
  cases x with
  | error e => exact uncut_fail
  | ok removed =>
    dsimp only
    split
    · exact asks_log (asks_pure rfl)
    · exact asks_pure rfl

/-- The handling of an item does work only. -/
theorem uncut_handle (task : Task) (r : Summary) : Uncut r (task.handle operator s r) := by
  cases task with
  | listMixed =>
    refine asks_store fun x => ?_
    cases x with
    | error e => exact uncut_fail
    | ok mixed => exact asks_pure rfl
  | split entry => exact uncut_splitItem entry
  | reassign item => exact uncut_reassignItem item
  | create group => exact uncut_createItem group
  | delete group => exact uncut_deleteItem group
  | listDuplicates =>
    refine asks_store fun x => ?_
    cases x with
    | error e => exact uncut_fail
    | ok groups => exact asks_pure rfl
  | collapse group => exact uncut_collapseItem group

/-! ### Listings -/

theorem forItems_map {ι κ : Type} (f : κ → ι) (handle : ι → Summary → Prog Summary)
    (items : List κ) (r : Summary) :
    forItems handle (items.map f) r = forItems (fun item => handle (f item)) items r := by
  induction items generalizing r with
  | nil => rfl
  | cons item rest ih =>
    simp only [List.map_cons, forItems]
    refine congrArg _ (funext fun r => ?_)
    split
    · rfl
    · exact congrArg _ (funext ih)

/-- A phase that begins with a listing handles what this found, unless it failed. As a task the
listing ends before that. -/
structure Lists (operator : UserId) (s : Scan) (c : StoreCall) (list : Task)
    (items : c.Value → List Task) (failed : StoreError → Summary → Prog Summary)
    (phase : Summary → Prog Summary) : Prop where
  phase_eq : ∀ r, phase r = checkpoint r >>= fun r => if r.cancelled then pure r else
    Prog.store c >>= fun
      | .error e => failed e r
      | .ok v => forItems (Task.handle operator s) (items v) r
  handle_eq : ∀ r, list.handle operator s r = Prog.store c >>= fun
    | .error e => failed e r
    | .ok _ => pure r

theorem lists_splitMixed (operator : UserId) (s : Scan) :
    Lists operator s .findMixed .listMixed (List.map .split)
      (fun e r => fail r .splitMixed "listing" e.message) splitMixed where
  phase_eq r := by
    simp only [forItems_map, splitMixed]
    refine congrArg _ (funext fun r => ?_)
    split
    · rfl
    · refine congrArg _ (funext fun x => ?_)
      cases x <;> rfl
  handle_eq r := by
    refine congrArg (Prog.step _) (funext fun x => ?_)
    cases x <;> rfl

theorem lists_collapseDuplicates (operator : UserId) (s : Scan) :
    Lists operator s .findDuplicateGroups .listDuplicates (List.map .collapse)
      (fun e r => fail r .collapseDuplicates "listing" (ServiceError.store e).message)
      collapseDuplicates where
  phase_eq r := by
    simp only [forItems_map, collapseDuplicates, Groups.findDuplicates, bind_assoc, pure_bind]
    refine congrArg _ (funext fun r => ?_)
    split
    · rfl
    · refine congrArg _ (funext fun x => ?_)
      cases x <;> rfl
  handle_eq r := by
    refine congrArg (Prog.step _) (funext fun x => ?_)
    cases x <;> rfl

/-- A listing of rows with two principals finds such rows only. -/
theorem isMixed_of_answer {w v : World} {rows : List Entry}
    (h : w.answer (.store .findMixed) = (some (.ok rows), v)) : ∀ e ∈ rows, e.isMixed = true := by
  rw [World.answer] at h
  rcases hperform : w.backend.performStore .findMixed with _ | ⟨x, b⟩ <;> rw [hperform] at h
  · cases h
  · cases h
    obtain ⟨rfl, -⟩ := Backend.alters_performStore hperform
    intro e he
    exact (List.mem_filter.1 he).2

/-! ### The scan -/

theorem asks_scanKinds {cancelled : Bool} (kinds : List ResourceKind) (s : Scan)
    (hr : r.cancelled = cancelled) :
    (scanKinds kinds s r).Asks Op.IsWork fun x => x.2.cancelled = cancelled := by
  induction kinds generalizing s r with
  | nil => exact asks_pure hr
  | cons kind kinds ih =>
    refine asks_registry fun x => ?_
    cases x with
    | error e =>
      refine asks_log (ih s.addFailure ?_)
      exact hr
    | ok refs =>
      refine ih (s.addListing kind refs) ?_
      exact hr

/-- The scan does work only, and does not report that it was cancelled. -/
theorem asks_scan : scan.Asks Op.IsWork fun x => ∀ s r, x = .ok (s, r) → r.cancelled = false := by
  refine asks_store fun x => ?_
  cases x with
  | error e => exact asks_pure nofun
  | ok entries =>
    have hreport (ids : List EntryId) :
        (reportUnrepairable ids).Asks Op.IsWork fun _ => True := by
      rw [reportUnrepairable]
      split
      · exact asks_log trivial
      · exact asks_pure trivial
    refine (hreport _).bind fun _ _ => (asks_scanKinds _ _ rfl).bind ?_
    rintro ⟨s, r⟩ hr
    have hdone : ∀ s' r', (Except.ok (s, { r with orphanPhaseSkipped := s.listingFailed }) :
        Except ServiceError (Scan × Summary)) = .ok (s', r') → r'.cancelled = false := by
      rintro _ _ ⟨⟩
      exact hr
    dsimp only
    split
    · exact asks_log (asks_log (asks_pure hdone))
    · exact asks_log (asks_pure hdone)

/-! ### Whole runs -/

theorem asks_checkpoint (r : Summary) : (checkpoint r).Asks Op.KeepsFlag fun _ => True := by
  refine asks_perform trivial fun cancelled => ?_
  cases cancelled with
  | false => exact asks_pure trivial
  | true =>
    rw [if_pos rfl]
    split
    · exact asks_perform trivial fun _ => asks_pure trivial
    · exact asks_pure trivial

/-- What is done unless the sweep has been cancelled leaves the flag alone if it does. -/
theorem asks_unlessCancelled {f : Summary → Prog Summary}
    (hf : ∀ r, (f r).Asks Op.KeepsFlag fun _ => True) (r : Summary) :
    (checkpoint r >>= fun r => if r.cancelled then pure r else f r).Asks Op.KeepsFlag
      fun _ => True := by
  refine (asks_checkpoint r).bind fun r _ => ?_
  split
  · exact asks_pure trivial
  · exact hf r

/-- A phase leaves the flag alone. -/
theorem asks_forItems {ι : Type} {handle : ι → Summary → Prog Summary}
    (hhandle : ∀ item r, Uncut r (handle item r)) (items : List ι) (r : Summary) :
    (forItems handle items r).Asks Op.KeepsFlag fun _ => True := by
  induction items generalizing r with
  | nil => exact asks_pure trivial
  | cons item rest ih =>
    refine asks_unlessCancelled (fun r => ?_) r
    exact ((hhandle item r).mono (fun _ => Op.IsWork.keepsFlag) fun _ _ => trivial).bind
      fun r _ => ih r

/-- The repairs leave the flag alone. -/
theorem asks_repair (operator : UserId) (s : Scan) (r : Summary) :
    (repair operator s r).Asks Op.KeepsFlag fun _ => True := by
  have hsplit (r : Summary) : (splitMixed r).Asks Op.KeepsFlag fun _ => True := by
    refine asks_unlessCancelled (fun r => ?_) r
    refine asks_perform trivial fun x => ?_
    cases x with
    | error e => exact asks_perform trivial fun _ => asks_pure trivial
    | ok mixed => exact asks_forItems (fun entry _ => uncut_splitItem entry) mixed r
  have hcollapse (r : Summary) : (collapseDuplicates r).Asks Op.KeepsFlag fun _ => True := by
    refine asks_unlessCancelled (fun r => ?_) r
    refine asks_perform trivial fun x => ?_
    cases x with
    | error e => exact asks_perform trivial fun _ => asks_pure trivial
    | ok groups => exact asks_forItems (fun group _ => uncut_collapseItem group) groups r
  refine (hsplit r).bind fun r _ => ?_
  refine (asks_forItems (fun item _ => uncut_reassignItem item) s.shared r).bind fun r _ => ?_
  refine (asks_forItems (fun group _ => uncut_createItem group) s.missing r).bind fun r _ => ?_
  exact (asks_forItems (fun group _ => uncut_deleteItem group) s.orphans r).bind
    fun r _ => hcollapse r

/-- A run that holds the flag leaves it alone, and does not say that it was skipped. -/
theorem asks_runHolding (operator : UserId) :
    (runHolding operator).Asks Op.KeepsFlag (· ≠ .ok .skipped) := by
  refine asks_perform trivial fun _ => ?_
  refine (asks_scan.mono (fun _ => Op.IsWork.keepsFlag) fun _ _ => trivial).bind fun x _ => ?_
  rcases x with e | ⟨s, r⟩
  · exact asks_perform trivial fun _ => asks_pure nofun
  · refine (asks_repair operator s r).bind fun r _ => ?_
    exact asks_perform trivial fun _ => asks_perform trivial fun _ => asks_pure nofun

end AccessGroups.Sweep
