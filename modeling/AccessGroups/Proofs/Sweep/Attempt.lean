import AccessGroups.Proofs.Program.Transcript
import AccessGroups.Proofs.Sweep.Groups
import AccessGroups.Proofs.Sweep.Items

/-!
# Attempts of a sweep

A sweep attempts its tasks one after another. What becomes of an attempt can be told from its calls
and their answers alone: it failed if a call did, except that some things may be gone by now; it was
moot if there turned out to be nothing to do; and otherwise it succeeded, and the calls that have
repaired something can be counted. What the sweep then puts into its report is exactly that, except
that an attempt that failed does not count, even if it has repaired something before.

## Main definitions

* `Sweep.Task.phase`, `Sweep.Task.target`, `Sweep.Task.opening`: what a task is called, and the call
  that it begins with.
* `Sweep.Task.Attempt`: a task with the calls that were made for it, with
  `Sweep.Task.Attempt.verdict`.
* `Summary.settle`: the report after an attempt.
* `Sweep.Handled`: what the handling of a task comes to.
* `Sweep.Starved`: the calls asked in vain for a group that is not referenced.

## Main results

* `Sweep.leaves_handle`: what the handling of a task leaves.
-/

namespace AccessGroups

/-- The call repaired something, as far as a phase is concerned. -/
def Exchange.mends : Phase → Exchange → Bool
  | .splitMixed, ⟨.store (.update _), .ok _⟩ => true
  | .reassignShared, ⟨.registry (.assign _ _ _), .ok _⟩ => true
  | .createMissing, ⟨.store (.insert _), .ok _⟩ => true
  | .deleteOrphans, ⟨.store (.deleteGroup _), .ok n⟩ => n > 0
  | .collapseDuplicates, ⟨.store (.deleteEntry _), .ok _⟩ => true
  | _, _ => false

/-- The rows that are listed as having two principals have them, and nothing is in a listing of the
store twice. -/
def StoreCall.Reliable : (c : StoreCall) → c.Value → Prop
  | .findMixed, rows => (∀ e ∈ rows, e.isMixed = true) ∧ rows.Nodup
  | .findDuplicateGroups, groups => groups.Nodup
  | _, _ => True

namespace Sweep

namespace Task

/-- The phase to which the task belongs. -/
def phase : Task → Phase
  | .listMixed | .split _ => .splitMixed
  | .reassign _ => .reassignShared
  | .create _ => .createMissing
  | .delete _ => .deleteOrphans
  | .listDuplicates | .collapse _ => .collapseDuplicates

theorem phase_ne_scan (task : Task) : task.phase ≠ .scan := by
  cases task <;> simp [phase]

/-- What a report calls the task if it fails. -/
def target : Task → String
  | .listMixed | .listDuplicates => "listing"
  | .split entry => "entry " ++ entry.id.text ++ " in group " ++ entry.group.text
  | .reassign item => item.1.name ++ " " ++ item.2.text
  | .create group | .delete group | .collapse group => "group " ++ group.text

/-- What a report says about a call that failed. -/
def message : Task → StoreError → String
  | .reassign _, e | .create _, e | .listDuplicates, e => (ServiceError.store e).message
  | .listMixed, e | .split _, e | .delete _, e | .collapse _, e => e.message

/-- The call that the task begins with. -/
def opening : Task → Call
  | .listMixed => .store .findMixed
  | .split entry => .store (.insert { entry.toGrant with unit := none })
  | .reassign item => .registry (.findRef item.1 item.2)
  | .create group | .collapse group => .store (.findGroup group)
  | .delete group => .store (.deleteGroup group)
  | .listDuplicates => .store .findDuplicateGroups

/-- The calls that are made for the task. -/
def makes : Task → Call → Bool
  | .listMixed, .store .findMixed => true
  | .split _, .store (.insert _) | .split _, .store (.update _) => true
  | .reassign _, .registry (.findRef _ _) | .reassign _, .store .allocateGroup
  | .reassign _, .store (.findGroup _) | .reassign _, .store (.replaceGroup _ _)
  | .reassign _, .registry (.assign _ _ _) => true
  | .create _, .store (.findGroup _) | .create _, .store (.insert _) => true
  | .delete _, .store (.deleteGroup _) => true
  | .listDuplicates, .store .findDuplicateGroups => true
  | .collapse _, .store (.findGroup _) | .collapse _, .store (.deleteEntry _) => true
  | _, _ => false

/-- What the call is about may be gone. -/
def pardons : Task → Call → Bool
  | .reassign _, .registry (.findRef _ _) => true
  | .delete _, .store (.deleteGroup _) => true
  | .collapse _, .store (.deleteEntry _) => true
  | _, _ => false

/-- The failure of a call that lets the task fail. -/
def refusal? (task : Task) : Exchange → Option StoreError
  | ⟨.store c, .error e⟩ => if e = .notFound ∧ task.pardons (.store c) then none else some e
  | ⟨.registry c, .error e⟩ => if e = .notFound ∧ task.pardons (.registry c) then none else some e
  | _ => none

/-- The answer says that there is nothing to do: the resource has vanished, the group has appeared,
or its rows are gone already. -/
def moot : Task → Exchange → Bool
  | .reassign _, ⟨.registry (.findRef _ _), .error .notFound⟩ => true
  | .create _, ⟨.store (.findGroup _), .ok rows⟩ => !rows.isEmpty
  | .delete _, ⟨.store (.deleteGroup _), .ok n⟩ => n = 0
  | .delete _, ⟨.store (.deleteGroup _), .error .notFound⟩ => true
  | _, _ => false

/-- A row to split has two principals, and a group to create is a valid one. -/
def Ready : Task → Prop
  | .split entry => entry.isMixed = true
  | .create group => group.IsValid
  | _ => True

end Task

/-- How an attempt ended. -/
inductive Verdict where
  | failed (e : StoreError)
  | skipped
  | succeeded (repairs : Nat)
  deriving DecidableEq

/-- A task with the calls that were made for it. -/
structure Task.Attempt where
  task : Task
  calls : List Exchange

namespace Task.Attempt

/-- How the attempt ended, as told by its calls. -/
def verdict (a : Task.Attempt) : Verdict :=
  match a.calls.findSome? a.task.refusal? with
  | some e => .failed e
  | none =>
    if a.calls.any a.task.moot then .skipped
    else .succeeded (a.calls.countP (Exchange.mends a.task.phase))

/-- What the report says about the attempt, if it failed. -/
def failure? (a : Task.Attempt) : Option RepairFailure :=
  match a.verdict with
  | .failed e => some ⟨a.task.phase, a.task.target, a.task.message e⟩
  | _ => none

/-- The repairs that the report counts. -/
def repairs (a : Task.Attempt) : Nat :=
  match a.verdict with
  | .succeeded n => n
  | _ => 0

end Task.Attempt

end Sweep

namespace Summary

open Sweep

/-- The report after more repairs of a phase. -/
def add (r : Summary) : Phase → Nat → Summary
  | .scan, _ => r
  | .splitMixed, n => { r with splitEntries := r.splitEntries + n }
  | .reassignShared, n => { r with reassignedResources := r.reassignedResources + n }
  | .createMissing, n => { r with createdGroups := r.createdGroups + n }
  | .deleteOrphans, n => { r with deletedOrphanGroups := r.deletedOrphanGroups + n }
  | .collapseDuplicates, n => { r with deletedDuplicateEntries := r.deletedDuplicateEntries + n }

/-- The report after a task that ended like this. -/
def note (r : Summary) (task : Task) : Verdict → Summary
  | .failed e => r.fail ⟨task.phase, task.target, task.message e⟩
  | .skipped => r
  | .succeeded n => r.add task.phase n

/-- The report after an attempt. -/
def settle (r : Summary) (a : Sweep.Task.Attempt) : Summary :=
  r.note a.task a.verdict

end Summary

namespace Sweep

open Prog

/-- Polls see a request for cancellation only if there may be one, and the listings of the store can
be relied on. -/
def Plausible (may : Prop) : (op : Op) → op.Answer → Prop
  | .poll, x => x = true → may
  | .call (.store c), .ok v => c.Reliable v
  | _, _ => True

/-- An answer stays plausible if there may be a request for cancellation. -/
theorem Plausible.sure {may : Prop} {op : Op} {x : op.Answer} (h : Plausible may op x) :
    Plausible True op x := by
  cases op with
  | poll => exact fun _ => trivial
  | call c => rcases c with c | c | c <;> cases x <;> exact h
  | log | record | claim | release => trivial

/-- The store has handed out this group identifier. -/
def handedOut (g : GroupId) : Exchange :=
  ⟨.store .allocateGroup, .ok g⟩

/-- The last calls have asked for more group identifiers in a row than there are references, and all
that were handed out are referenced. -/
def Starved (referenced : List GroupId) (calls : List Exchange) : Prop :=
  ∃ before, ∃ issued : List GroupId, calls = before ++ issued.map handedOut ∧
    referenced.length < issued.length ∧ ∀ g ∈ issued, g ∈ referenced

theorem Starved.append {referenced : List GroupId} {calls : List Exchange}
    (h : Starved referenced calls) (before : List Exchange) :
    Starved referenced (before ++ calls) := by
  obtain ⟨front, issued, rfl, hmore, hreferenced⟩ := h
  exact ⟨before ++ front, issued, (List.append_assoc _ _ _).symm, hmore, hreferenced⟩

/-- A call that neither fails nor decides how the task ends. -/
structure Task.Idle (task : Task) (x : Exchange) : Prop where
  refusal : task.refusal? x = none
  moot : task.moot x = false
  mends : x.mends task.phase = false
  makes : task.makes x.call = true

/-- An attempt whose calls are right: it begins as it should, makes no calls of other tasks, and has
repaired nothing if it has not succeeded, unless it deletes rows one after another. -/
structure Task.Attempt.Proper (a : Task.Attempt) : Prop where
  opened : ∃ x rest, a.calls = ⟨a.task.opening, x⟩ :: rest
  makes : ∀ x ∈ a.calls, a.task.makes x.call = true
  repairs : a.task.phase ≠ .collapseDuplicates → a.repairs = a.calls.countP (·.mends a.task.phase)

variable {may : Prop} {operator : UserId} {s : Scan} {r : Summary} {task : Task}
  {xs front : List Exchange} {x : Exchange}

/-- Calls that decide nothing do not count. -/
theorem verdict_append (hfront : ∀ x ∈ front, task.Idle x) (rest : List Exchange) :
    (⟨task, front ++ rest⟩ : Task.Attempt).verdict = (⟨task, rest⟩ : Task.Attempt).verdict := by
  have hrefusal : front.findSome? task.refusal? = none :=
    List.findSome?_eq_none_iff.2 fun x hx => (hfront x hx).refusal
  have hmoot : front.any task.moot = false :=
    List.any_eq_false.2 fun x hx => by simp [(hfront x hx).moot]
  have hmends : front.countP (Exchange.mends task.phase) = 0 :=
    List.countP_eq_zero.2 fun x hx => by simp [(hfront x hx).mends]
  simp only [Task.Attempt.verdict, List.findSome?_append, hrefusal, Option.none_or, List.any_append,
    hmoot, Bool.false_or, List.countP_append, hmends, Nat.zero_add]

/-- A call that lets a task fail repairs nothing. -/
theorem mends_of_refusal? {e : StoreError} {p : Phase} (h : task.refusal? x = some e) :
    x.mends p = false := by
  rcases x with ⟨c | c | c, x | x⟩
  · cases p <;> cases c <;> rfl
  · cases h
  · cases p <;> cases c <;> rfl
  · cases h
  · cases h
  · cases h

/-- A call that leaves nothing to do repairs nothing. -/
theorem mends_of_moot (h : task.moot x = true) : x.mends task.phase = false := by
  unfold Task.moot at h
  split at h
  · rfl -- the resource is gone
  · rfl -- the group has rows
  · next removed =>
    have hnone : removed = 0 := of_decide_eq_true h
    simp [Task.phase, Exchange.mends, hnone]
  · rfl -- the group is gone
  · cases h

theorem repairs_singleton (task : Task) (x : Exchange) :
    (⟨task, [x]⟩ : Task.Attempt).repairs = [x].countP (Exchange.mends task.phase) := by
  rw [Task.Attempt.repairs, Task.Attempt.verdict, List.findSome?_singleton]
  cases hrefusal : task.refusal? x with
  | some e => simp [mends_of_refusal? hrefusal]
  | none =>
    cases hmoot : task.moot x with
    | true => simp [hmoot, mends_of_moot hmoot]
    | false => simp [hmoot]

/-- The last one of the calls decides how the task ends. -/
def Task.Ends (task : Task) (calls : List Exchange) (v : Verdict) : Prop :=
  ∃ front x, calls = front ++ [x] ∧ (∀ y ∈ front, task.Idle y) ∧ task.makes x.call = true ∧
    (⟨task, [x]⟩ : Task.Attempt).verdict = v

namespace Task.Ends

variable {v : Verdict}

theorem single (hmakes : task.makes x.call = true) (hv : (⟨task, [x]⟩ : Task.Attempt).verdict = v) :
    task.Ends [x] v :=
  ⟨[], x, rfl, List.forall_mem_nil _, hmakes, hv⟩

theorem append (hfront : ∀ y ∈ front, task.Idle y) (h : task.Ends xs v) :
    task.Ends (front ++ xs) v := by
  obtain ⟨front', x, rfl, hfront', hmakes, hv⟩ := h
  exact ⟨front ++ front', x, (List.append_assoc _ _ _).symm,
    List.forall_mem_append.2 ⟨hfront, hfront'⟩, hmakes, hv⟩

theorem cons (hx : task.Idle x) (h : task.Ends xs v) : task.Ends (x :: xs) v :=
  append (List.forall_mem_singleton.2 hx) h

/-- A call to the store that fails ends the task, unless it may. -/
theorem store_error {c : StoreCall} {e : StoreError} (hmakes : task.makes (.store c) = true)
    (h : e = .notFound → task.pardons (.store c) = false) :
    task.Ends [⟨.store c, .error e⟩] (.failed e) := by
  refine single hmakes ?_
  have hrefusal : task.refusal? ⟨.store c, .error e⟩ = some e :=
    if_neg fun hpardoned => by simp [h hpardoned.1] at hpardoned
  simp [Task.Attempt.verdict, hrefusal]

/-- A call to the resources that fails ends the task, unless it may. -/
theorem registry_error {c : RegistryCall} {e : StoreError}
    (hmakes : task.makes (.registry c) = true)
    (h : e = .notFound → task.pardons (.registry c) = false) :
    task.Ends [⟨.registry c, .error e⟩] (.failed e) := by
  refine single hmakes ?_
  have hrefusal : task.refusal? ⟨.registry c, .error e⟩ = some e :=
    if_neg fun hpardoned => by simp [h hpardoned.1] at hpardoned
  simp [Task.Attempt.verdict, hrefusal]

theorem verdict_eq (h : task.Ends xs v) : (⟨task, xs⟩ : Task.Attempt).verdict = v := by
  obtain ⟨front, x, rfl, hfront, -, hx⟩ := h
  rw [verdict_append hfront, hx]

theorem proper (h : task.Ends xs v) (hopened : ∃ x rest, xs = ⟨task.opening, x⟩ :: rest) :
    (⟨task, xs⟩ : Task.Attempt).Proper := by
  refine ⟨hopened, ?_, fun _ => ?_⟩ <;> obtain ⟨front, x, rfl, hfront, hmakes, hx⟩ := h
  · exact List.forall_mem_append.2
      ⟨fun y hy => (hfront y hy).makes, List.forall_mem_singleton.2 hmakes⟩
  · have hidle : front.countP (Exchange.mends task.phase) = 0 :=
      List.countP_eq_zero.2 fun y hy => by simp [(hfront y hy).mends]
    rw [Task.Attempt.repairs, verdict_append hfront, List.countP_append, hidle, Nat.zero_add]
    exact repairs_singleton task x

end Task.Ends

/-! ### Single tasks -/

/-- The handling of a task made these calls and came to this end: it asked in vain for a group, or
it reports how the attempt ended. -/
def Handled (s : Scan) (task : Task) (r : Summary) (calls : List Exchange) (y : Option Summary) :
    Prop :=
  (y = none ∧ Starved s.referenced calls) ∨
    (y = some (r.settle ⟨task, calls⟩) ∧ (⟨task, calls⟩ : Task.Attempt).Proper)

variable {fair : (op : Op) → op.Answer → Prop} {y : Option Summary}

/-- A failure that is noted leaves no call. -/
theorem leaves_fail {phase : Phase} {target error : String}
    (h : (fail r phase target error).Leaves fair xs y) :
    xs = [] ∧ y = some (r.fail ⟨phase, target, error⟩) :=
  leaves_log h

/-- A task that has ended reports how it did, and makes no more calls. -/
theorem Task.Ends.handled {v : Verdict} {rest : List Exchange} (h : task.Ends xs v)
    (hopened : ∃ x rest, xs = ⟨task.opening, x⟩ :: rest)
    (hend : rest = [] ∧ y = some (r.note task v)) : Handled s task r (xs ++ rest) y := by
  obtain ⟨rfl, rfl⟩ := hend
  rw [List.append_nil]
  refine .inr ⟨?_, h.proper hopened⟩
  rw [Summary.settle, h.verdict_eq]

theorem handled_listing (hlist : task = .listMixed ∨ task = .listDuplicates)
    (h : (task.handle operator s r).Leaves fair xs y) : Handled s task r xs y := by
  rcases hlist with rfl | rfl
  all_goals
    obtain ⟨x, rest, -, rfl, hrest⟩ := leaves_call.1 h
    cases x with
    | error e =>
      exact (Task.Ends.store_error rfl fun _ => rfl).handled ⟨_, _, rfl⟩ (leaves_fail hrest)
    | ok v => exact (Task.Ends.single rfl rfl).handled ⟨_, _, rfl⟩ hrest

/-- The splitting of a row stores a new one and then overwrites it. -/
theorem leaves_splitEntry {entry : Entry} (hmixed : entry.isMixed = true)
    {y : Option (Except StoreError Unit)} (h : (splitEntry entry).Leaves fair xs y) :
    (∃ e, xs = [⟨(Task.split entry).opening, .error e⟩] ∧ y = some (.error e)) ∨
      ∃ v x, xs = [⟨(Task.split entry).opening, .ok v⟩,
        ⟨.store (.update { entry with user := none }), x⟩] ∧ y = some x := by
  obtain ⟨⟨group, _ | user, _ | unit, privileges⟩, id⟩ := entry
  · cases hmixed
  · cases hmixed
  · cases hmixed
  · obtain ⟨x, rest, -, rfl, hrest⟩ := leaves_call.1 h
    cases x with
    | error e =>
      obtain ⟨rfl, rfl⟩ := hrest
      exact .inl ⟨e, rfl, rfl⟩
    | ok v =>
      obtain ⟨x, rest, -, rfl, rfl, rfl⟩ := hrest
      exact .inr ⟨v, x, rfl, rfl⟩

theorem handled_split {entry : Entry} (hmixed : entry.isMixed = true)
    (h : ((Task.split entry).handle operator s r).Leaves fair xs y) :
    Handled s (.split entry) r xs y := by
  have hidle (v : Entry) : (Task.split entry).Idle ⟨(Task.split entry).opening, .ok v⟩ :=
    ⟨rfl, rfl, rfl, rfl⟩
  obtain ⟨front, rest, x, rfl, hsplit, hend⟩ | ⟨hsplit, -⟩ := (leaves_bind _ _).1 h
  · obtain ⟨e, rfl, hx⟩ | ⟨v, x', rfl, hx⟩ := leaves_splitEntry hmixed hsplit <;> cases hx
    · exact (Task.Ends.store_error rfl fun _ => rfl).handled ⟨_, _, rfl⟩ (leaves_fail hend)
    · cases x with
      | error e =>
        exact ((Task.Ends.store_error rfl fun _ => rfl).cons (hidle v)).handled ⟨_, _, rfl⟩
          (leaves_fail hend)
      | ok =>
        exact ((Task.Ends.single rfl rfl).cons (hidle v)).handled ⟨_, _, rfl⟩ (leaves_log hend)
  · obtain ⟨e, -, hx⟩ | ⟨v, x', -, hx⟩ := leaves_splitEntry hmixed hsplit <;> cases hx

/-- Asking for group identifiers comes to an end with the first one that is not referenced, unless
there are too many others. -/
theorem leaves_allocateFresh {referenced : List GroupId} {limit : Nat}
    {y : Option (Except ServiceError GroupId)}
    (h : (allocateFresh referenced limit).Leaves fair xs y) :
    ∃ issued : List GroupId, (∀ g ∈ issued, g ∈ referenced) ∧
      ((y = none ∧ xs = issued.map handedOut ∧ issued.length = limit) ∨
        ∃ x, xs = issued.map handedOut ++ [⟨.store .allocateGroup, x⟩] ∧
          y = some (Groups.ofAnswer x)) := by
  induction limit generalizing xs with
  | zero =>
    obtain ⟨rfl, rfl⟩ := h
    exact ⟨[], List.forall_mem_nil _, .inl ⟨rfl, rfl, rfl⟩⟩
  | succ limit ih =>
    rw [allocateFresh_succ] at h
    obtain ⟨x, rest, -, rfl, hrest⟩ := leaves_call.1 h
    cases x with
    | error e =>
      obtain ⟨rfl, rfl⟩ := hrest
      exact ⟨[], List.forall_mem_nil _, .inr ⟨_, rfl, rfl⟩⟩
    | ok g =>
      dsimp only at hrest
      split at hrest
      · obtain ⟨rfl, rfl⟩ := hrest
        exact ⟨[], List.forall_mem_nil _, .inr ⟨_, rfl, rfl⟩⟩
      · next hreferenced =>
        obtain ⟨issued, hissued, hend⟩ := ih (leaves_log hrest)
        refine ⟨g :: issued, List.forall_mem_cons.2 ⟨not_not.1 hreferenced, hissued⟩, ?_⟩
        rcases hend with ⟨rfl, rfl, hlength⟩ | ⟨x, rfl, rfl⟩
        · exact .inl ⟨rfl, rfl, congrArg (· + 1) hlength⟩
        · exact .inr ⟨x, rfl, rfl⟩

/-- The last part of moving a resource, after a fresh group was found for it. -/
def moveTo (operator : UserId) (item : ResourceKind × ResourceId) (current fresh : GroupId) :
    Prog (Except ServiceError (Option (GroupId × GroupId))) := do
  match ← readGroup current with
  | .error e => return .error (.store e)
  | .ok source =>
    match ← Prog.store (.replaceGroup fresh (copies operator source fresh)) with
    | .error e => return .error (.store e)
    | .ok _ =>
      match ← Prog.registry (.assign item.1 item.2 fresh) with
      | .error e => return .error (.store e)
      | .ok () => return .ok (some (current, fresh))

variable {item : ResourceKind × ResourceId}

/-- Moving a resource begins with a look at its group and the search for a fresh one. -/
theorem reassign_eq : reassign operator s item.1 item.2 =
    Prog.registry (.findRef item.1 item.2) >>= fun
      | .error .notFound => pure (.ok none)
      | .error e => pure (.error (.store e))
      | .ok current => allocateUnreferenced s.referenced >>= fun
        | .error e => pure (.error e)
        | .ok fresh => moveTo operator item current fresh := by
  rw [reassign]
  refine congrArg (Prog.registry _ >>= ·) (funext fun x => ?_)
  rcases x with (_ | _ | detail) | current <;> try rfl
  refine congrArg (allocateUnreferenced s.referenced >>= ·) (funext fun x => ?_)
  cases x with
  | error e => rfl
  | ok fresh =>
    refine congrArg (readGroup current >>= ·) (funext fun x => ?_)
    cases x with
    | error e => rfl
    | ok source =>
      refine congrArg (Prog.store _ >>= ·) (funext fun x => ?_)
      cases x with
      | error e => rfl
      | ok stored =>
        refine congrArg (Prog.registry _ >>= ·) (funext fun x => ?_)
        cases x <;> rfl

/-- What moving a resource returns, if the task ends like this. -/
def Moved : Except ServiceError (Option (GroupId × GroupId)) → Verdict → Prop
  | .error e, v => ∃ cause, e = .store cause ∧ v = .failed cause
  | .ok none, v => v = .skipped
  | .ok (some _), v => v = .succeeded 1

theorem leaves_moveTo {current fresh : GroupId}
    {y : Option (Except ServiceError (Option (GroupId × GroupId)))}
    (h : (moveTo operator item current fresh).Leaves fair xs y) :
    ∃ result v, y = some result ∧ (Task.reassign item).Ends xs v ∧ Moved result v := by
  have hwrite {source : List Entry} {calls : List Exchange}
      (h : (Prog.store (.replaceGroup fresh (copies operator source fresh)) >>= fun
        | .error e => pure (.error (.store e))
        | .ok _ => Prog.registry (.assign item.1 item.2 fresh) >>= fun
          | .error e => pure (.error (.store e))
          | .ok () => pure (.ok (some (current, fresh)))).Leaves fair calls y) :
      ∃ result v, y = some result ∧ (Task.reassign item).Ends calls v ∧ Moved result v := by
    obtain ⟨x, rest, -, rfl, hrest⟩ := leaves_call.1 h
    cases x with
    | error e =>
      obtain ⟨rfl, rfl⟩ := hrest
      exact ⟨_, _, rfl, .store_error rfl fun _ => rfl, e, rfl, rfl⟩
    | ok v =>
      obtain ⟨x, rest, -, rfl, hend⟩ := leaves_call.1 hrest
      cases x with
      | error e =>
        obtain ⟨rfl, rfl⟩ := hend
        exact ⟨_, _, rfl, .cons ⟨rfl, rfl, rfl, rfl⟩ (.registry_error rfl fun _ => rfl), e, rfl,
          rfl⟩
      | ok v =>
        obtain ⟨rfl, rfl⟩ := hend
        exact ⟨_, _, rfl, .cons ⟨rfl, rfl, rfl, rfl⟩ (.single rfl rfl), rfl⟩
  rw [moveTo, readGroup] at h
  split at h
  · obtain ⟨x, rest, -, rfl, hrest⟩ := leaves_call.1 h
    cases x with
    | error e =>
      obtain ⟨rfl, rfl⟩ := hrest
      exact ⟨_, _, rfl, .store_error rfl fun _ => rfl, e, rfl, rfl⟩
    | ok source =>
      obtain ⟨result, v, rfl, hends, hmoved⟩ := hwrite hrest
      exact ⟨result, v, rfl, hends.cons ⟨rfl, rfl, rfl, rfl⟩, hmoved⟩
  · exact hwrite h

theorem leaves_reassign {y : Option (Except ServiceError (Option (GroupId × GroupId)))}
    (h : (reassign operator s item.1 item.2).Leaves fair xs y) :
    (∃ x rest, xs = ⟨(Task.reassign item).opening, x⟩ :: rest) ∧
      ((y = none ∧ Starved s.referenced xs) ∨
        ∃ result v, y = some result ∧ (Task.reassign item).Ends xs v ∧ Moved result v) := by
  rw [reassign_eq] at h
  obtain ⟨x, rest, -, rfl, hrest⟩ := leaves_call.1 h
  refine ⟨⟨x, rest, rfl⟩, ?_⟩
  rcases x with (_ | _ | detail) | current
  · obtain ⟨rfl, rfl⟩ := hrest
    exact .inr ⟨_, _, rfl, .single rfl rfl, rfl⟩
  · obtain ⟨rfl, rfl⟩ := hrest
    exact .inr ⟨_, _, rfl, .registry_error rfl nofun, .conflict, rfl, rfl⟩
  · obtain ⟨rfl, rfl⟩ := hrest
    exact .inr ⟨_, _, rfl, .registry_error rfl nofun, .backend detail, rfl, rfl⟩
  -- The resource was found: the calls that follow ask for a fresh group and move it there.
  have hfound : (Task.reassign item).Idle ⟨.registry (.findRef item.1 item.2), .ok current⟩ :=
    ⟨rfl, rfl, rfl, rfl⟩
  have hhanded (g : GroupId) : (Task.reassign item).Idle (handedOut g) := ⟨rfl, rfl, rfl, rfl⟩
  obtain ⟨front, rest, x, rfl, hallocate, hend⟩ | ⟨hallocate, rfl⟩ := (leaves_bind _ _).1 hrest
  · obtain ⟨issued, -, ⟨hnone, -⟩ | ⟨x, rfl, hx⟩⟩ := leaves_allocateFresh hallocate
    · cases hnone
    have hissued : ∀ y ∈ issued.map handedOut, (Task.reassign item).Idle y :=
      List.forall_mem_map.2 fun g _ => hhanded g
    rw [List.append_assoc]
    cases x with
    | error e =>
      cases hx
      obtain ⟨rfl, rfl⟩ := hend
      exact .inr ⟨_, _, rfl, .cons hfound (.append hissued (.store_error rfl fun _ => rfl)), e, rfl,
        rfl⟩
    | ok fresh =>
      cases hx
      obtain ⟨result, v, rfl, hends, hmoved⟩ := leaves_moveTo hend
      exact .inr ⟨result, v, rfl, .cons hfound (.append hissued (.cons (hhanded fresh) hends)),
        hmoved⟩
  · obtain ⟨issued, hreferenced, ⟨-, rfl, hlength⟩ | ⟨x, -, hx⟩⟩ := leaves_allocateFresh hallocate
    · refine .inl ⟨rfl, [_], issued, rfl, ?_, hreferenced⟩
      rw [hlength]
      exact Nat.lt_add_of_pos_right (by decide)
    · cases hx

theorem handled_reassign (h : ((Task.reassign item).handle operator s r).Leaves fair xs y) :
    Handled s (.reassign item) r xs y := by
  obtain ⟨front, rest, x, rfl, hreassign, hend⟩ | ⟨hreassign, rfl⟩ := (leaves_bind _ _).1 h
  · obtain ⟨⟨first, others, hopened⟩, ⟨hnone, -⟩ | ⟨result, v, hx, hends, hmoved⟩⟩ :=
      leaves_reassign hreassign
    · cases hnone
    cases hx
    rcases x with e | _ | ⟨old, fresh⟩
    · obtain ⟨cause, rfl, rfl⟩ := hmoved
      exact hends.handled ⟨_, _, hopened⟩ (leaves_fail hend)
    · obtain rfl : v = .skipped := hmoved
      exact hends.handled ⟨_, _, hopened⟩ (leaves_log hend)
    · obtain rfl : v = .succeeded 1 := hmoved
      exact hends.handled ⟨_, _, hopened⟩ (leaves_log hend)
  · obtain ⟨-, ⟨-, hstarved⟩ | ⟨result, v, hx, -⟩⟩ := leaves_reassign hreassign
    · exact .inl ⟨rfl, hstarved⟩
    · cases hx

/-- A group is made up by one call after it was looked up. -/
theorem leaves_createMissing {group : GroupId} (hvalid : group.IsValid)
    {y : Option (Except ServiceError Bool)} (h : (createMissing operator group).Leaves fair xs y) :
    (∃ x rest, xs = ⟨(Task.create group).opening, x⟩ :: rest) ∧
      ∃ result v, y = some result ∧ (Task.create group).Ends xs v ∧ match result with
        | .error e => ∃ cause, e = .store cause ∧ v = .failed cause
        | .ok created => v = if created then .succeeded 1 else .skipped := by
  obtain ⟨x, rest, -, rfl, hrest⟩ := leaves_call.1 h
  refine ⟨⟨x, rest, rfl⟩, ?_⟩
  cases x with
  | error e =>
    obtain ⟨rfl, rfl⟩ := hrest
    exact ⟨_, _, rfl, .store_error rfl fun _ => rfl, e, rfl, rfl⟩
  | ok rows =>
    cases rows with
    | cons e rows =>
      obtain ⟨rfl, rfl⟩ := hrest
      exact ⟨_, _, rfl, .single rfl rfl, rfl⟩
    | nil =>
      have hlooked : (Task.create group).Idle ⟨.store (.findGroup group), .ok []⟩ :=
        ⟨rfl, rfl, rfl, rfl⟩
      dsimp only at hrest
      rw [Groups.create, validate_fallback operator hvalid] at hrest
      obtain ⟨x, rest, -, rfl, hend⟩ := leaves_call.1 hrest
      cases x with
      | error e =>
        obtain ⟨rfl, rfl⟩ := hend
        exact ⟨_, _, rfl, .cons hlooked (.store_error rfl fun _ => rfl), e, rfl, rfl⟩
      | ok stored =>
        obtain ⟨rfl, rfl⟩ := leaves_log hend
        exact ⟨_, _, rfl, .cons hlooked (.single rfl rfl), rfl⟩

theorem handled_create {group : GroupId} (hvalid : group.IsValid)
    (h : ((Task.create group).handle operator s r).Leaves fair xs y) :
    Handled s (.create group) r xs y := by
  obtain ⟨front, rest, x, rfl, hcreate, hend⟩ | ⟨hcreate, rfl⟩ := (leaves_bind _ _).1 h
  · obtain ⟨⟨first, others, hopened⟩, result, v, hx, hends, hv⟩ :=
      leaves_createMissing hvalid hcreate
    cases hx
    rcases x with e | _ | _
    · obtain ⟨cause, rfl, rfl⟩ := hv
      exact hends.handled ⟨_, _, hopened⟩ (leaves_fail hend)
    · obtain rfl : v = .skipped := hv
      exact hends.handled ⟨_, _, hopened⟩ (leaves_log hend)
    · obtain rfl : v = .succeeded 1 := hv
      exact hends.handled ⟨_, _, hopened⟩ (leaves_log hend)
  · obtain ⟨-, result, v, hx, -⟩ := leaves_createMissing hvalid hcreate
    cases hx

theorem handled_delete {group : GroupId}
    (h : ((Task.delete group).handle operator s r).Leaves fair xs y) :
    Handled s (.delete group) r xs y := by
  obtain ⟨x, rest, -, rfl, hrest⟩ := leaves_call.1 h
  rcases x with (_ | _ | detail) | removed
  · exact (Task.Ends.single rfl rfl).handled ⟨_, _, rfl⟩ (leaves_log hrest)
  · exact (Task.Ends.store_error (e := .conflict) rfl nofun).handled ⟨_, _, rfl⟩
      (leaves_fail hrest)
  · exact (Task.Ends.store_error (e := .backend detail) rfl nofun).handled ⟨_, _, rfl⟩
      (leaves_fail hrest)
  · have hverdict :
        (⟨.delete group, [⟨.store (.deleteGroup group), .ok removed⟩]⟩ : Task.Attempt).verdict =
        if removed = 0 then .skipped else .succeeded 1 := by
      by_cases hzero : removed = 0
      · simp [Task.Attempt.verdict, Task.refusal?, Task.moot, hzero]
      · simp [Task.Attempt.verdict, Task.refusal?, Task.moot, Task.phase, Exchange.mends, hzero,
          Nat.pos_iff_ne_zero]
    dsimp only at hrest
    split at hrest
    · next hzero =>
      rw [if_pos hzero] at hverdict
      exact (Task.Ends.single rfl hverdict).handled ⟨_, _, rfl⟩ (leaves_log hrest)
    · next hsome =>
      rw [if_neg hsome] at hverdict
      exact (Task.Ends.single rfl hverdict).handled ⟨_, _, rfl⟩ (leaves_log hrest)

/-- Rows that repeat others are deleted one after another, and those that are gone do not count. -/
theorem leaves_deleteRepeated (group : GroupId) {kept : List Grant} {removed : Nat}
    {rows : List Entry} {y : Option (Except StoreError Nat)}
    (h : (deleteRepeated kept removed rows).Leaves fair xs y) :
    (∀ x ∈ xs, (Task.collapse group).makes x.call = true) ∧
      ((∃ e, xs.findSome? (Task.collapse group).refusal? = some e ∧ y = some (.error e)) ∨
        (xs.findSome? (Task.collapse group).refusal? = none ∧
          y = some (.ok (removed + xs.countP (Exchange.mends .collapseDuplicates))))) := by
  induction rows generalizing kept removed xs with
  | nil =>
    obtain ⟨rfl, rfl⟩ := h
    exact ⟨List.forall_mem_nil _, .inr ⟨rfl, rfl⟩⟩
  | cons entry rest ih =>
    rw [deleteRepeated] at h
    split at h
    · exact ih h
    · obtain ⟨x, calls, -, rfl, hrest⟩ := leaves_call.1 h
      rcases x with (_ | _ | detail) | _
      · obtain ⟨hmakes, hend⟩ := ih hrest
        exact ⟨List.forall_mem_cons.2 ⟨rfl, hmakes⟩, hend⟩
      · obtain ⟨rfl, rfl⟩ := hrest
        exact ⟨List.forall_mem_singleton.2 rfl, .inl ⟨_, rfl, rfl⟩⟩
      · obtain ⟨rfl, rfl⟩ := hrest
        exact ⟨List.forall_mem_singleton.2 rfl, .inl ⟨_, rfl, rfl⟩⟩
      · obtain ⟨hmakes, ⟨e, he, rfl⟩ | ⟨hnone, rfl⟩⟩ := ih hrest
        · exact ⟨List.forall_mem_cons.2 ⟨rfl, hmakes⟩, .inl ⟨e, he, rfl⟩⟩
        · refine ⟨List.forall_mem_cons.2 ⟨rfl, hmakes⟩, .inr ⟨hnone, ?_⟩⟩
          rw [List.countP_cons_of_pos (by rfl), Nat.add_assoc, Nat.add_comm 1]

/-- The rows of a group are looked up before those that repeat others are deleted. -/
theorem leaves_collapseGroup {group : GroupId} {y : Option (Except StoreError Nat)}
    (h : (collapseGroup group).Leaves fair xs y) :
    (∃ x rest, xs = ⟨(Task.collapse group).opening, x⟩ :: rest) ∧
      (∀ x ∈ xs, (Task.collapse group).makes x.call = true) ∧
      ((∃ e, xs.findSome? (Task.collapse group).refusal? = some e ∧ y = some (.error e)) ∨
        (xs.findSome? (Task.collapse group).refusal? = none ∧
          y = some (.ok (xs.countP (Exchange.mends .collapseDuplicates))))) := by
  obtain ⟨x, rest, -, rfl, hrest⟩ := leaves_call.1 h
  refine ⟨⟨x, rest, rfl⟩, ?_⟩
  cases x with
  | error e =>
    obtain ⟨rfl, rfl⟩ := hrest
    have hrefusal : (Task.collapse group).refusal? ⟨.store (.findGroup group), .error e⟩ = some e :=
      if_neg fun hpardoned => Bool.false_ne_true hpardoned.2
    exact ⟨List.forall_mem_singleton.2 rfl, .inl ⟨e, by simp [hrefusal], rfl⟩⟩
  | ok rows =>
    obtain ⟨hmakes, hend⟩ := leaves_deleteRepeated group hrest
    rw [Nat.zero_add] at hend
    exact ⟨List.forall_mem_cons.2 ⟨rfl, hmakes⟩, hend⟩

/-- A group can have lost some rows when the deletion of another one fails. Then these do not
count. -/
theorem handled_collapse {group : GroupId}
    (h : ((Task.collapse group).handle operator s r).Leaves fair xs y) :
    Handled s (.collapse group) r xs y := by
  have hmoot (calls : List Exchange) : calls.any (Task.collapse group).moot = false :=
    List.any_eq_false.2 fun x _ => Bool.false_ne_true
  obtain ⟨front, rest, x, rfl, hcollapse, hend⟩ | ⟨hcollapse, rfl⟩ := (leaves_bind _ _).1 h
  · obtain ⟨hopened, hmakes, ⟨e, he, hx⟩ | ⟨hnone, hx⟩⟩ := leaves_collapseGroup hcollapse
    · cases hx
      obtain ⟨rfl, rfl⟩ := leaves_fail hend
      rw [List.append_nil]
      refine .inr ⟨?_, hopened, hmakes, fun hne => absurd rfl hne⟩
      simp only [Summary.settle, Task.Attempt.verdict, he]
      rfl
    · cases hx
      have hquiet : rest = [] ∧ y = some (r.add .collapseDuplicates
          (front.countP (Exchange.mends .collapseDuplicates))) := by
        dsimp only at hend
        split at hend
        · exact leaves_log hend
        · exact hend
      obtain ⟨rfl, rfl⟩ := hquiet
      rw [List.append_nil]
      refine .inr ⟨?_, hopened, hmakes, fun hne => absurd rfl hne⟩
      simp only [Summary.settle, Task.Attempt.verdict, hnone, hmoot]
      rfl
  · obtain ⟨-, -, ⟨e, -, hx⟩ | ⟨-, hx⟩⟩ := leaves_collapseGroup hcollapse <;> cases hx

/-- What the handling of a task leaves: the report is settled as its calls say. -/
theorem leaves_handle (hready : task.Ready)
    (h : (task.handle operator s r).Leaves fair xs y) : Handled s task r xs y := by
  cases task with
  | listMixed => exact handled_listing (.inl rfl) h
  | split entry => exact handled_split hready h
  | reassign item => exact handled_reassign h
  | create group => exact handled_create hready h
  | delete group => exact handled_delete h
  | listDuplicates => exact handled_listing (.inr rfl) h
  | collapse group => exact handled_collapse h

end Sweep

end AccessGroups
