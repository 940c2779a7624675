import AccessGroups.Proofs.Sweep.Attempt

/-!
# The agenda of a sweep

What is left to do for a sweep is a list of tasks. It attempts the first one, and what it finds by
that comes next: a listing puts what it has found before the rest. So every task is attempted once
and in its turn, whether the attempts before it have failed or not. The repairs come to an end when
nothing is left to do, or when they are cancelled between two attempts. They do not come to an end
if the store does not hand out the group identifier that an attempt waits for.

## Main definitions

* `Sweep.Task.Attempt.found`: the tasks that an attempt has found.
* `Sweep.WorksOff`: attempts lead from a list of tasks to what is left of it.
* `Sweep.Worked`: the repairs have made attempts in the order of a list of tasks.
* `Sweep.agenda`: the tasks that the repairs begin with.

## Main results

* `Sweep.Performs.bind`, `Sweep.performs_forItems`, `Sweep.Lists.performs`: the parts of the repairs
  work off what they should.
* `Sweep.performs_repair`: so do the repairs.
* `Sweep.Worked.attempts`: the attempts of repairs that have come to an end.
-/

namespace AccessGroups

namespace Summary

@[simp] theorem cancelled_settle (r : Summary) (a : Sweep.Task.Attempt) :
    (r.settle a).cancelled = r.cancelled := by
  rw [settle]
  cases a.verdict with
  | failed | skipped => rfl
  | succeeded n => cases h : a.task.phase <;> simp only [note, add, h]

/-- An attempt adds at most one failure. -/
theorem failures_settle (r : Summary) (a : Sweep.Task.Attempt) :
    (r.settle a).failures = r.failures ++ a.failure?.toList := by
  rw [settle, Sweep.Task.Attempt.failure?]
  cases a.verdict with
  | failed => rfl
  | skipped => exact (List.append_nil _).symm
  | succeeded n => cases h : a.task.phase <;> simp [note, add, h]

end Summary

namespace Sweep

open Prog

/-- The tasks that an answer brings with it. -/
def Task.finds : Task → Exchange → List Task
  | .listMixed, ⟨.store .findMixed, .ok rows⟩ => rows.map .split
  | .listDuplicates, ⟨.store .findDuplicateGroups, .ok groups⟩ => groups.map .collapse
  | _, _ => []

/-- The tasks that the attempt has found. -/
def Task.Attempt.found (a : Task.Attempt) : List Task :=
  a.calls.flatMap a.task.finds

/-- The attempt makes the right calls, and they are those that the sweep makes for its task. -/
structure Task.Attempt.Made (operator : UserId) (s : Scan) (a : Task.Attempt) : Prop
    extends a.Proper where
  handled : ∃ r, (a.task.handle operator s r).Leaves (Plausible True) a.calls (some (r.settle a))

/-- The attempts work off the first tasks and what they find themselves, and leave the last ones. -/
def WorksOff : List Task → List Task.Attempt → List Task → Prop
  | tasks, [], rest => rest = tasks
  | tasks, a :: attempts, rest => ∃ others, tasks = a.task :: others ∧
    WorksOff (a.found ++ others) attempts rest

/-- With these tasks and this report, the repairs make these calls and come to this end. There may
be a request for cancellation. -/
inductive Worked (may : Prop) (operator : UserId) (s : Scan) :
    List Task → Summary → List Exchange → Option Summary → Prop
  | finished (r : Summary) : Worked may operator s [] r [] (some r)
  | cut {r : Summary} (tasks : List Task) (h : r.cancelled = true ∨ may) :
      Worked may operator s tasks r [] (some { r with cancelled := true })
  | starved {tasks : List Task} {r : Summary} {calls : List Exchange} (hr : r.cancelled = false)
      (h : Starved s.referenced calls) : Worked may operator s tasks r calls none
  | attempted {a : Task.Attempt} {tasks : List Task} {r : Summary} {calls : List Exchange}
      {y : Option Summary} (hr : r.cancelled = false) (ha : a.Made operator s)
      (h : Worked may operator s (a.found ++ tasks) (r.settle a) calls y) :
      Worked may operator s (a.task :: tasks) r (a.calls ++ calls) y

variable {may : Prop} {operator : UserId} {s : Scan} {r m : Summary} {task : Task}
  {tasks more : List Task} {xs calls calls' : List Exchange} {y : Option Summary}

namespace Worked

/-- Once they are cancelled the repairs do nothing. -/
theorem of_cancelled (h : Worked may operator s tasks r calls y) (hr : r.cancelled = true) :
    calls = [] ∧ y = some r := by
  cases h with
  | finished => exact ⟨rfl, rfl⟩
  | cut => exact ⟨rfl, by rw [← hr]⟩
  | starved hr' => cases hr.symm.trans hr'
  | attempted hr' => cases hr.symm.trans hr'

/-- Repairs that do not come to an end have asked in vain for a group. -/
theorem starved_of_none (h : Worked may operator s tasks r calls none) :
    r.cancelled = false ∧ Starved s.referenced calls := by
  -- The end is an index of `Worked`, so the induction needs it to be a variable.
  generalize hy : (none : Option Summary) = y at h
  induction h with
  | finished => cases hy
  | cut => cases hy
  | starved hr hstarved => exact ⟨hr, hstarved⟩
  | attempted hr _ _ ih => exact ⟨hr, (ih hy).2.append _⟩

/-- Repairs that have worked off some tasks go on with others. -/
theorem append (h : Worked may operator s tasks r calls (some m))
    (h' : Worked may operator s more m calls' y) :
    Worked may operator s (tasks ++ more) r (calls ++ calls') y := by
  generalize hm : some m = y' at h
  induction h with
  | finished =>
    cases hm
    exact h'
  | cut tasks hmay =>
    cases hm
    obtain ⟨rfl, rfl⟩ := h'.of_cancelled rfl
    exact .cut _ hmay
  | starved => cases hm
  | @attempted a tasks r calls y hr ha _ ih =>
    have hrest := ih hm
    rw [List.append_assoc] at hrest ⊢
    exact .attempted hr ha hrest

/-- Repairs that have come to an end have made attempts in the order of the tasks, and all of them
if they were not cancelled. The report is what these attempts make of it. -/
theorem attempts (h : Worked may operator s tasks r calls (some m)) (hr : r.cancelled = false) :
    ∃ attempts rest, WorksOff tasks attempts rest ∧ (∀ a ∈ attempts, a.Made operator s) ∧
      calls = attempts.flatMap Task.Attempt.calls ∧
        (rest = [] ∧ m = attempts.foldl Summary.settle r ∨
          may ∧ m = { attempts.foldl Summary.settle r with cancelled := true }) := by
  generalize hm : some m = y at h
  induction h with
  | finished =>
    cases hm
    exact ⟨[], [], rfl, List.forall_mem_nil _, rfl, .inl ⟨rfl, rfl⟩⟩
  | cut tasks hmay =>
    cases hm
    have hmay := hmay.resolve_left (Bool.eq_false_iff.1 hr)
    exact ⟨[], tasks, rfl, List.forall_mem_nil _, rfl, .inr ⟨hmay, rfl⟩⟩
  | starved => cases hm
  | @attempted a tasks r calls y _ ha _ ih =>
    obtain ⟨attempts, rest, hworks, hmade, rfl, hend⟩ :=
      ih ((r.cancelled_settle a).trans hr) hm
    exact ⟨a :: attempts, rest, ⟨tasks, rfl, hworks⟩, List.forall_mem_cons.2 ⟨ha, hmade⟩, rfl,
      hend⟩

end Worked

/-! ### The parts of the repairs -/

/-- This part of the repairs works off these tasks. -/
def Performs (may : Prop) (operator : UserId) (s : Scan) (tasks : List Task)
    (p : Summary → Prog Summary) : Prop :=
  ∀ ⦃r xs y⦄, (p r).Leaves (Plausible may) xs y → Worked may operator s tasks r xs y

/-- Two parts work off their tasks one after another. -/
theorem Performs.bind {p q : Summary → Prog Summary} (hp : Performs may operator s tasks p)
    (hq : Performs may operator s more q) :
    Performs may operator s (tasks ++ more) fun r => p r >>= q := by
  intro r xs y h
  obtain ⟨front, rest, m, rfl, hfront, hrest⟩ | ⟨hnone, rfl⟩ := (leaves_bind _ _).1 h
  · exact (hp hfront).append (hq hrest)
  · obtain ⟨hr, hstarved⟩ := (hp hnone).starved_of_none
    exact .starved hr hstarved

/-- What is done unless the sweep has been cancelled works off its tasks. -/
theorem performs_unlessCancelled {f : Summary → Prog Summary}
    (hf : ∀ r xs y, r.cancelled = false → (f r).Leaves (Plausible may) xs y →
      Worked may operator s tasks r xs y) :
    Performs may operator s tasks fun r =>
      checkpoint r >>= fun r => if r.cancelled then pure r else f r := by
  intro r xs y h
  have hquiet : ∀ c, Op.poll ≠ .call c := fun _ => nofun
  dsimp only at h
  rw [checkpoint, bind_assoc] at h
  obtain ⟨x, hx, h⟩ := (leaves_quiet hquiet).1 h
  cases x with
  | false =>
    change (if r.cancelled then pure r else f r).Leaves (Plausible may) xs y at h
    split at h
    · next hr =>
      -- Nothing was asked for by this poll, but the sweep had been cancelled before.
      obtain ⟨rfl, rfl⟩ := h
      have hsame : ({ r with cancelled := true } : Summary) = r := by rw [← hr]
      have hcut : Worked may operator s tasks r [] (some { r with cancelled := true }) :=
        .cut tasks (.inl hr)
      rwa [hsame] at hcut
    · next hr => exact hf r xs y (Bool.eq_false_iff.2 hr) h
  | true =>
    obtain ⟨rfl, rfl⟩ : xs = [] ∧ y = some { r with cancelled := true } := by
      rw [if_pos rfl] at h
      split at h
      · exact leaves_log h
      · exact h
    exact .cut tasks (.inr (hx rfl))

/-- A task that begins with its own call and finds nothing is one that a phase can handle. -/
def Task.Single (task : Task) : Prop :=
  task.Ready ∧ ∀ x, task.finds x = []

theorem Task.Single.found {a : Task.Attempt} (h : a.task.Single) : a.found = [] :=
  List.flatMap_eq_nil_iff.2 fun x _ => h.2 x

theorem worked_handle (hready : task.Ready)
    (h : (task.handle operator s r).Leaves (Plausible may) xs y) :
    (y = none ∧ Starved s.referenced xs) ∨
      (y = some (r.settle ⟨task, xs⟩) ∧ (⟨task, xs⟩ : Task.Attempt).Made operator s) := by
  refine (leaves_handle hready h).imp_right ?_
  rintro ⟨rfl, hproper⟩
  exact ⟨rfl, hproper, r, h.mono fun _ _ => Plausible.sure⟩

/-- A phase works off its items. -/
theorem performs_forItems (htasks : ∀ task ∈ tasks, task.Single) :
    Performs may operator s tasks (forItems (Task.handle operator s) tasks) := by
  induction tasks with
  | nil =>
    rintro r xs y ⟨rfl, rfl⟩
    exact .finished r
  | cons task rest ih =>
    obtain ⟨htask, hrest⟩ := List.forall_mem_cons.1 htasks
    refine performs_unlessCancelled fun r xs y hr h => ?_
    obtain ⟨front, others, m, rfl, hfront, hothers⟩ | ⟨hnone, rfl⟩ := (leaves_bind _ _).1 h
    · obtain ⟨hy, -⟩ | ⟨hm, hmade⟩ := worked_handle htask.1 hfront
      · cases hy
      · cases hm
        have hfound : (⟨task, front⟩ : Task.Attempt).found = [] := Task.Single.found htask
        refine .attempted (a := ⟨task, front⟩) hr hmade ?_
        rw [hfound]
        exact ih hrest hothers
    · obtain ⟨-, hstarved⟩ | ⟨hy, -⟩ := worked_handle htask.1 hnone
      · exact .starved hr hstarved
      · cases hy

/-- A phase that begins with a listing works off this and what it has found. -/
theorem Lists.performs {c : StoreCall} {list : Task} {items : c.Value → List Task}
    {failed : StoreError → Summary → Prog Summary} {phase : Summary → Prog Summary}
    (h : Lists operator s c list items failed phase) (hready : list.Ready)
    (hfound : ∀ v, list.finds ⟨.store c, .ok v⟩ = items v)
    (hnone : ∀ e, list.finds ⟨.store c, .error e⟩ = [])
    (hfailed : ∀ e r xs y, (failed e r).Leaves (Plausible may) xs y → xs = [])
    (hitems : ∀ v, Plausible may (.call (.store c)) (.ok v) → ∀ task ∈ items v, task.Single) :
    Performs may operator s [list] phase := by
  have hsingle (x : Except StoreError c.Value) :
      (⟨list, [⟨.store c, x⟩]⟩ : Task.Attempt).found = list.finds ⟨.store c, x⟩ := List.append_nil _
  rw [funext h.phase_eq]
  refine performs_unlessCancelled fun r xs y hr hleaves => ?_
  obtain ⟨x, rest, hx, rfl, hrest⟩ := leaves_call.1 hleaves
  cases x with
  | error e =>
    obtain rfl : rest = [] := hfailed e r rest y hrest
    have hlist : (list.handle operator s r).Leaves (Plausible may) [⟨.store c, .error e⟩] y := by
      rw [h.handle_eq]
      exact leaves_call.2 ⟨.error e, [], hx, rfl, hrest⟩
    obtain ⟨rfl, hstarved⟩ | ⟨rfl, hmade⟩ := worked_handle hready hlist
    · exact .starved hr hstarved
    · refine .attempted (a := ⟨list, [⟨.store c, .error e⟩]⟩) hr hmade ?_
      rw [hsingle, hnone]
      exact .finished _
  | ok v =>
    have hlist : (list.handle operator s r).Leaves (Plausible may) [⟨.store c, .ok v⟩]
        (some r) := by
      rw [h.handle_eq]
      exact leaves_call.2 ⟨.ok v, [], hx, rfl, rfl, rfl⟩
    obtain ⟨hy, -⟩ | ⟨hr', hmade⟩ := worked_handle hready hlist
    · cases hy
    · refine .attempted (a := ⟨list, [⟨.store c, .ok v⟩]⟩) hr hmade ?_
      rw [hsingle, hfound, List.append_nil, ← Option.some.inj hr']
      exact performs_forItems (hitems v hx) hrest

/-! ### The repairs -/

/-- The tasks that the repairs begin with: two listings, and what the scan has found. -/
def agenda (s : Scan) : List Task :=
  .listMixed :: (s.shared.map .reassign ++ s.missing.map .create ++ s.orphans.map .delete ++
    [.listDuplicates])

theorem performs_splitMixed : Performs may operator s [.listMixed] splitMixed :=
  (lists_splitMixed operator s).performs trivial (fun _ => rfl) (fun _ => rfl)
    (fun _ _ _ _ h => (leaves_fail h).1)
    fun _ hmixed => List.forall_mem_map.2 fun entry hentry => ⟨hmixed.1 entry hentry, fun _ => rfl⟩

theorem performs_collapseDuplicates :
    Performs may operator s [.listDuplicates] collapseDuplicates :=
  (lists_collapseDuplicates operator s).performs trivial (fun _ => rfl) (fun _ => rfl)
    (fun _ _ _ _ h => (leaves_fail h).1)
    fun _ _ => List.forall_mem_map.2 fun _ _ => ⟨trivial, fun _ => rfl⟩

/-- The repairs work off their agenda. -/
theorem performs_repair (hmissing : ∀ g ∈ s.missing, g.IsValid) :
    Performs may operator s (agenda s) (repair operator s) := by
  have hitems {ι : Type} (f : ι → Task) (items : List ι) (hsingle : ∀ i ∈ items, (f i).Single) :
      Performs may operator s (items.map f)
        (forItems (fun i => (f i).handle operator s) items) := by
    have hphase := funext (forItems_map f (Task.handle operator s) items)
    exact hphase ▸ performs_forItems (List.forall_mem_map.2 hsingle)
  have hshared : Performs may operator s (s.shared.map .reassign) (reassignShared operator s) :=
    hitems Task.reassign s.shared fun _ _ => ⟨trivial, fun _ => rfl⟩
  have hcreated : Performs may operator s (s.missing.map .create)
      (createMissingGroups operator s) :=
    hitems Task.create s.missing fun g hg => ⟨hmissing g hg, fun _ => rfl⟩
  have hdeleted : Performs may operator s (s.orphans.map .delete) (deleteOrphans s) :=
    hitems Task.delete s.orphans fun _ _ => ⟨trivial, fun _ => rfl⟩
  have hall := (((performs_splitMixed.bind hshared).bind hcreated).bind hdeleted).bind
    performs_collapseDuplicates
  intro r xs y h
  refine hall ?_
  simp only [bind_assoc]
  exact h

end Sweep

end AccessGroups
