import AccessGroups.Proofs.Sweep.Chronicle
import AccessGroups.Proofs.Sweep.Consistency
import Mathlib.Data.List.Nodup

/-!
# A failure does not stop a sweep

A sweep fails only if the rows cannot be read. Whatever else fails, it attempts every item that it
has found, once and in the order in which it has found them, and each attempt succeeds, is skipped,
or fails and is noted in the report. So the failures of the report are those of the listings and of
the items, in the order in which they happened.

A sweep need not come to an end if a counter of identifiers is exhausted, since then the store does
not answer.

## Main definitions

* `Sweep.plan`: the tasks of a sweep in their order.
* `Sweep.Thorough`: every task was attempted, and every failure was noted.

## Main results

* `Sweep.WorksOff.map_task`: tasks that find nothing are attempted one after another.
* `Sweep.nodup_plan`: no task is in the plan twice.
* `Sweep.thorough_runOnce`: a sweep that is not cancelled is thorough.
-/

namespace AccessGroups.Sweep

open Prog

variable {operator : UserId} {s : Scan} {tasks more rest : List Task}
  {attempts : List Task.Attempt}

/-- What a listing has found, which is nothing if it failed. -/
def listed {α : Type} : Except StoreError (List α) → List α
  | .ok xs => xs
  | .error _ => []

/-- The tasks of a sweep in their order: the listing of rows with two principals and what it has
found, the items of the scan, and the listing of groups whose rows repeat one another and what it
has found. -/
def plan (s : Scan) (mixed : Except StoreError (List Entry))
    (repeated : Except StoreError (List GroupId)) : List Task :=
  .listMixed :: ((listed mixed).map .split ++ s.shared.map .reassign ++ s.missing.map .create ++
    s.orphans.map .delete ++ .listDuplicates :: (listed repeated).map .collapse)

/-- Every task was attempted in its turn, and no task twice if no listing names a resource twice.
Every failure was noted. -/
structure Thorough (operator : UserId) (v : Survey) (attempts : List Task.Attempt)
    (r : Summary) : Prop where
  made : ∀ a ∈ attempts, a.Made operator v.scan
  once : (∀ x ∈ v.listings, x.Ordered) → (attempts.map Task.Attempt.task).Nodup
  tasks : ∃ mixed repeated, attempts.map Task.Attempt.task = plan v.scan mixed repeated ∧
    ⟨.listMixed, [⟨.store .findMixed, mixed⟩]⟩ ∈ attempts ∧
      ⟨.listDuplicates, [⟨.store .findDuplicateGroups, repeated⟩]⟩ ∈ attempts
  failures : r.failures =
    v.listings.filterMap Listing.failure? ++ attempts.filterMap Task.Attempt.failure?

/-- The first attempt is of the first task. -/
theorem WorksOff.first {task : Task} (h : WorksOff (task :: tasks) attempts []) :
    ∃ a others, attempts = a :: others ∧ a.task = task ∧ WorksOff (a.found ++ tasks) others [] := by
  cases attempts with
  | nil => cases h
  | cons a others =>
    obtain ⟨rest, heq, hworks⟩ := h
    obtain ⟨htask, rfl⟩ := List.cons.inj heq
    exact ⟨a, others, rfl, htask.symm, hworks⟩

/-- Tasks that find nothing are attempted one after another before the others. -/
theorem WorksOff.map_task (hsingle : ∀ task ∈ tasks, ∀ x, task.finds x = [])
    (h : WorksOff (tasks ++ more) attempts []) :
    ∃ front back, attempts = front ++ back ∧ front.map Task.Attempt.task = tasks ∧
      WorksOff more back [] := by
  induction tasks generalizing attempts with
  | nil => exact ⟨[], attempts, rfl, rfl, h⟩
  | cons task tasks ih =>
    obtain ⟨htask, hrest⟩ := List.forall_mem_cons.1 hsingle
    obtain ⟨a, others, rfl, rfl, hworks⟩ := h.first
    have hfound : a.found = [] := List.flatMap_eq_nil_iff.2 fun x _ => htask x
    rw [hfound] at hworks
    obtain ⟨front, back, rfl, rfl, hback⟩ := ih hrest hworks
    exact ⟨a :: front, back, rfl, rfl, hback⟩

/-- The attempt of a listing that comes first is a single call, and what this finds comes next. -/
theorem Lists.first {c : StoreCall} {list : Task} {items : c.Value → List Task}
    {failed : StoreError → Summary → Prog Summary} {phase : Summary → Prog Summary}
    (h : Lists operator s c list items failed phase)
    (hfailed : ∀ e r xs y, (failed e r).Leaves (Plausible True) xs y → xs = [])
    (hmade : ∀ a ∈ attempts, a.Made operator s) (hworks : WorksOff (list :: tasks) attempts []) :
    ∃ x others, attempts = ⟨list, [⟨.store c, x⟩]⟩ :: others ∧
      Plausible True (.call (.store c)) x ∧
        WorksOff (list.finds ⟨.store c, x⟩ ++ tasks) others [] := by
  obtain ⟨⟨task, calls⟩, others, rfl, htask, hothers⟩ := hworks.first
  obtain rfl : task = list := htask
  obtain ⟨r, hhandled⟩ := (hmade _ List.mem_cons_self).handled
  rw [h.handle_eq] at hhandled
  obtain ⟨x, rest, hx, hcalls, hrest⟩ := leaves_call.1 hhandled
  obtain rfl : rest = [] := by
    cases x with
    | error e => exact hfailed e r rest _ hrest
    | ok v => exact hrest.1
  obtain rfl : calls = [⟨.store c, x⟩] := hcalls
  have hfound : (⟨task, [⟨.store c, x⟩]⟩ : Task.Attempt).found = task.finds ⟨.store c, x⟩ :=
    List.append_nil _
  exact ⟨x, others, rfl, hx, hfound ▸ hothers⟩

theorem finds_listMixed (x : Except StoreError (List Entry)) :
    Task.listMixed.finds ⟨.store .findMixed, x⟩ = (listed x).map .split := by
  cases x <;> rfl

theorem finds_listDuplicates (x : Except StoreError (List GroupId)) :
    Task.listDuplicates.finds ⟨.store .findDuplicateGroups, x⟩ = (listed x).map .collapse := by
  cases x <;> rfl

/-- Tasks of one sort, each one once, may come before others. -/
theorem nodup_map_append {ι : Type} {f : ι → Task} {items : List ι}
    (hf : f.Injective) (hitems : items.Nodup) (htasks : tasks.Nodup) (hnew : ∀ i, f i ∉ tasks) :
    (items.map f ++ tasks).Nodup := by
  refine List.nodup_append.2 ⟨hitems.map hf, htasks, ?_⟩
  rintro task htask _ hlater rfl
  obtain ⟨i, -, rfl⟩ := List.mem_map.1 htask
  exact hnew i hlater

/-- A plan has each task once if its parts do. -/
theorem nodup_plan {mixed : Except StoreError (List Entry)}
    {repeated : Except StoreError (List GroupId)} (hmixed : (listed mixed).Nodup)
    (hshared : s.shared.Nodup) (hmissing : s.missing.Nodup) (horphans : s.orphans.Nodup)
    (hrepeated : (listed repeated).Nodup) : (plan s mixed repeated).Nodup := by
  have hcollapse : ((listed repeated).map Task.collapse).Nodup :=
    hrepeated.map fun _ _ => Task.collapse.inj
  have hlast : (.listDuplicates :: (listed repeated).map Task.collapse).Nodup :=
    List.nodup_cons.2 ⟨by simp, hcollapse⟩
  have hdelete := nodup_map_append (fun _ _ => Task.delete.inj) horphans hlast (by simp)
  have hcreate := nodup_map_append (fun _ _ => Task.create.inj) hmissing hdelete (by simp)
  have hreassign := nodup_map_append (fun _ _ => Task.reassign.inj) hshared hcreate (by simp)
  have hsplit := nodup_map_append (fun _ _ => Task.split.inj) hmixed hreassign (by simp)
  simp only [plan, List.append_assoc]
  exact List.nodup_cons.2 ⟨by simp, hsplit⟩

theorem failures_foldl_settle (attempts : List Task.Attempt) (r : Summary) :
    (attempts.foldl Summary.settle r).failures =
      r.failures ++ attempts.filterMap Task.Attempt.failure? := by
  induction attempts generalizing r with
  | nil => exact (List.append_nil _).symm
  | cons a attempts ih =>
    rw [List.foldl_cons, ih, Summary.failures_settle, List.append_assoc]
    cases h : a.failure? <;> simp [h]

/-- Attempts that have worked off the agenda are those of the plan. -/
theorem WorksOff.exists_plan (hmade : ∀ a ∈ attempts, a.Made operator s)
    (h : WorksOff (agenda s) attempts []) :
    ∃ mixed repeated, (listed mixed).Nodup ∧ (listed repeated).Nodup ∧
      attempts.map Task.Attempt.task = plan s mixed repeated ∧
        ⟨.listMixed, [⟨.store .findMixed, mixed⟩]⟩ ∈ attempts ∧
          ⟨.listDuplicates, [⟨.store .findDuplicateGroups, repeated⟩]⟩ ∈ attempts := by
  have hfailed {phase : Phase} {message : StoreError → String} (e : StoreError) (r : Summary)
      (xs : List Exchange) (y : Option Summary)
      (h : (fail r phase "listing" (message e)).Leaves (Plausible True) xs y) : xs = [] :=
    (leaves_fail h).1
  obtain ⟨mixed, others, rfl, hmixed, hothers⟩ :=
    (lists_splitMixed operator s).first hfailed hmade h
  let items : List Task := (listed mixed).map .split ++ s.shared.map .reassign ++
    s.missing.map .create ++ s.orphans.map .delete
  have hitems : ∀ task ∈ items, ∀ x, task.finds x = [] := by
    simp only [items, List.forall_mem_append, List.forall_mem_map]
    exact ⟨⟨⟨fun _ _ _ => rfl, fun _ _ _ => rfl⟩, fun _ _ _ => rfl⟩, fun _ _ _ => rfl⟩
  have hrest : WorksOff (items ++ [.listDuplicates]) others [] := by
    simp only [finds_listMixed, ← List.append_assoc] at hothers
    exact hothers
  obtain ⟨front, back, rfl, hfront, hback⟩ := hrest.map_task hitems
  have hmadeBack : ∀ a ∈ back, a.Made operator s := fun a ha =>
    hmade a (List.mem_cons_of_mem _ (List.mem_append_right _ ha))
  obtain ⟨repeated, last, rfl, hrepeated, hlast⟩ :=
    (lists_collapseDuplicates operator s).first hfailed hmadeBack hback
  rw [finds_listDuplicates] at hlast
  obtain ⟨last, none, rfl, hcollapsed, hnone⟩ :=
    hlast.map_task (List.forall_mem_map.2 fun _ _ _ => rfl)
  obtain rfl : none = [] := by
    cases none with
    | nil => rfl
    | cons a none => exact absurd hnone fun ⟨_, h, _⟩ => nomatch h
  refine ⟨mixed, repeated, ?_, ?_, ?_, List.mem_cons_self, ?_⟩
  · cases mixed with
    | error e => exact .nil
    | ok rows => exact hmixed.2
  · cases repeated with
    | error e => exact .nil
    | ok groups => exact hrepeated
  · simp only [plan, items, List.map_cons, List.map_append, List.append_nil, List.append_assoc,
      hfront, hcollapsed]
  · exact List.mem_cons_of_mem _ (List.mem_append_right _ List.mem_cons_self)

/-- A sweep that was not cancelled is thorough. -/
theorem Chronicle.thorough {v : Survey} {r : Summary} (h : Chronicle operator v attempts rest r)
    (hgo : r.cancelled = false) : Thorough operator v attempts r := by
  obtain ⟨_, _, _, _, hsummary⟩ := v.exists_summary
  have hworks := h.works
  rw [h.finished hgo] at hworks
  obtain ⟨mixed, repeated, hmixed, hrepeated, htasks, hlisted⟩ := hworks.exists_plan h.made
  refine ⟨h.made, fun hordered => ?_, ⟨mixed, repeated, htasks, hlisted⟩, ?_⟩
  · rw [htasks]
    exact nodup_plan hmixed (v.nodup_shared hordered) v.nodup_missing v.nodup_orphans hrepeated
  · rw [h.report, failures_foldl_settle, hsummary]

variable {w : World} {d : Disturbance}

/-- The new row of a split cannot be put to use, and no fresh group is handed out. -/
def troubled : Disturbance where
  fault n := if n = 11 ∨ n = 13 then some (.backend "down") else none

/-- A world in which two pages share a group and the largest identifier there is belongs to another
group. -/
def overfull : World where
  backend := .memory
    { entries := .ofRows [⟨.forUser ⟨Int64.maxValue⟩ ⟨1⟩ Privilege.read.mask, ⟨1⟩⟩]
      nextEntry := 2 }
    { refs := fun
        | .page => .ofRows [⟨⟨1⟩, ⟨5⟩⟩, ⟨⟨2⟩, ⟨5⟩⟩]
        | _ => .empty }

end AccessGroups.Sweep
