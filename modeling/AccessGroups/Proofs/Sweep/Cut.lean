import AccessGroups.Proofs.Program.Trail
import AccessGroups.Proofs.Sweep.Consistency
import AccessGroups.Proofs.Sweep.Items

/-!
# Sweeps are cut between items

A sweep looks whether it has been cancelled before each listing of the repairs and before each item,
and nowhere else. A run that is cancelled does therefore what the same run does without the request,
up to the end of some item, and nothing after it: what is stored then is what the whole run had
stored at that moment. The report says that the run was cancelled exactly if something was left out.

The work of the repairs is laid out beforehand here, as a list of tasks: what the two listings find
is part of it, as a whole run comes to see it. A run that is cut handles the first ones.

## Main definitions

* `Sweep.handleAll`: handling items without asking whether the sweep has been cancelled.
* `Sweep.tasks`: the work of the repairs, in its order.
* `Sweep.handled`: the repairs up to the end of the first tasks.
* `Sweep.Severed`: a run is another one up to the end of some task.

## Main results

* `Sweep.runFrom_forItems`: a phase handles the first items, and all if it is not cancelled.
* `Sweep.runFrom_repair`: the repairs handle the tasks as one phase would.
* `Sweep.severed_runOnce`: a sweep that is cancelled is the whole one up to the end of some task.
-/

namespace AccessGroups.Sweep

open Prog

variable {ι : Type} {operator : UserId} {faults : Faults} {cut : Option Nat} {held : Bool}
  {s : Scan} {r : Summary} {t : Trail}

/-- Handle items one after another. -/
def handleAll (handle : ι → Summary → Prog Summary) : List ι → Summary → Prog Summary
  | [], r => return r
  | item :: rest, r => do
    let r ← handle item r
    handleAll handle rest r

theorem handleAll_append (handle : ι → Summary → Prog Summary) (xs ys : List ι) (r : Summary) :
    handleAll handle (xs ++ ys) r = handleAll handle xs r >>= handleAll handle ys := by
  induction xs generalizing r with
  | nil => rfl
  | cons item rest ih =>
    simp only [List.cons_append, handleAll, bind_assoc]
    exact congrArg _ (funext ih)

theorem uncut_handleAll {handle : ι → Summary → Prog Summary}
    (hhandle : ∀ item r, Uncut r (handle item r)) (items : List ι) (r : Summary) :
    Uncut r (handleAll handle items r) := by
  induction items generalizing r with
  | nil => exact asks_pure rfl
  | cons item rest ih =>
    exact (hhandle item r).bind fun r' hr' =>
      (ih r').mono (fun _ => id) fun r'' hr'' => hr''.trans hr'

/-! ### Phases -/

/-- A sweep that looks whether it has been cancelled goes on with that in its report. -/
theorem runFrom_checkpoint {β : Type} (f : Summary → Prog β) (r : Summary) (held : Bool)
    (t : Trail) :
    (checkpoint r >>= f).runFrom (Trail.handle faults cut) held t =
      if r.cancelled then (f r).runFrom (Trail.handle faults cut) held t
      else if cut.any fun n => n ≤ t.history.length then
        (f { r with cancelled := true }).runFrom (Trail.handle faults cut) held
          (t.say .sweepCancelled)
      else (f r).runFrom (Trail.handle faults cut) held t := by
  have hlog : t.handle faults cut (.log .sweepCancelled) = (some (), t.say .sweepCancelled) := rfl
  rw [checkpoint, bind_assoc]
  cases hrequested : cut.any fun n => n ≤ t.history.length with
  | false =>
    have hpoll : t.handle faults cut .poll = (some false, t) := by rw [Trail.handle, hrequested]
    simp only [Bool.false_eq_true, if_false, ite_self]
    exact runFrom_step hpoll
  | true =>
    have hpoll : t.handle faults cut .poll = (some true, t) := by rw [Trail.handle, hrequested]
    refine (runFrom_step hpoll).trans ?_
    cases hr : r.cancelled with
    | false => exact runFrom_step hlog
    | true =>
      have hsame : ({ r with cancelled := true } : Summary) = r := by rw [← hr]
      simp only [if_true]
      rw [← hsame]
      rfl

variable {handle : ι → Summary → Prog Summary} {items : List ι}

/-- A phase that is reached by a sweep that was cancelled does nothing. -/
theorem runFrom_forItems_cancelled (hr : r.cancelled = true) (items : List ι) (held : Bool)
    (t : Trail) :
    (forItems handle items r).runFrom (Trail.handle faults cut) held t = (some (r, held), t) := by
  cases items with
  | nil => rfl
  | cons item rest =>
    rw [forItems, runFrom_checkpoint, if_pos hr, if_pos hr]
    rfl

/-- Two phases handle their items as one phase would. -/
theorem runFrom_forItems_append (xs ys : List ι) (r : Summary) (held : Bool) (t : Trail) :
    (forItems handle (xs ++ ys) r).runFrom (Trail.handle faults cut) held t =
      (forItems handle xs r >>= forItems handle ys).runFrom (Trail.handle faults cut) held t := by
  induction xs generalizing r held t with
  | nil => rfl
  | cons item rest ih =>
    have hgo (r : Summary) (t : Trail) :
        (if r.cancelled then pure r else handle item r >>= forItems handle (rest ++ ys)).runFrom
            (Trail.handle faults cut) held t =
          ((if r.cancelled then pure r else handle item r >>= forItems handle rest) >>=
            forItems handle ys).runFrom (Trail.handle faults cut) held t := by
      split
      · next hr => exact (runFrom_forItems_cancelled hr ys held t).symm
      · rw [bind_assoc, runFrom_bind, runFrom_bind]
        rcases (handle item r).runFrom (Trail.handle faults cut) held t with ⟨_ | ⟨r', held'⟩, t'⟩
        · rfl
        · exact ih r' held' t'
    rw [List.cons_append, forItems, forItems, bind_assoc, runFrom_checkpoint, runFrom_checkpoint,
      hgo, hgo]

/-- A phase that is not cancelled handles all items, and one that is handles the first ones. -/
theorem runFrom_forItems (faults : Faults) (cut : Option ℕ)
    (hhandle : ∀ item r, Uncut r (handle item r)) (items : List ι)
    (hr : r.cancelled = false) (held : Bool) (t : Trail) :
    (forItems handle items r).runFrom (Trail.handle faults cut) held t =
        (handleAll handle items r).runFrom (Trail.handle faults none) held t ∨
      ∃ j r' held' t', cut ≠ none ∧ j < items.length ∧
        (handleAll handle (items.take j) r).runFrom (Trail.handle faults none) held t =
          (some (r', held'), t') ∧
        (forItems handle items r).runFrom (Trail.handle faults cut) held t =
          (some ({ r' with cancelled := true }, held'), t'.say .sweepCancelled) := by
  -- along the items; what a report says about cancellation is the same after an item as before it
  induction items generalizing r held t with
  | nil => exact .inl rfl
  | cons item rest ih =>
    rw [forItems, runFrom_checkpoint, if_neg (Bool.eq_false_iff.1 hr)]
    split
    · next hrequested =>
      refine .inr ⟨0, r, held, t, ?_, Nat.zero_lt_succ _, rfl, rfl⟩
      rintro rfl
      cases hrequested
    · have hsame : (handle item r).runFrom (Trail.handle faults cut) held t =
          (handle item r).runFrom (Trail.handle faults none) held t :=
        Trail.runFrom_cut (hhandle item r) cut none held t
      simp only [hr, Bool.false_eq_true, if_false, handleAll, runFrom_bind, hsame]
      rcases hrun : (handle item r).runFrom (Trail.handle faults none) held t with
        ⟨_ | ⟨r₁, held₁⟩, t₁⟩
      · exact .inl rfl
      · have hr₁ : r₁.cancelled = false := ((hhandle item r).value hrun).trans hr
        rcases ih hr₁ held₁ t₁ with hall | ⟨j, r', held', t', hcut, hj, hfirst, hstop⟩
        · exact .inl hall
        · refine .inr ⟨j + 1, r', held', t', hcut, Nat.succ_lt_succ hj, ?_, hstop⟩
          rw [List.take_succ_cons, handleAll, runFrom_bind, hrun]
          exact hfirst

theorem runFrom_bind_forItems {p : Prog Summary} {xs ys : List ι}
    (h : p.runFrom (Trail.handle faults cut) held t =
      (forItems handle xs r).runFrom (Trail.handle faults cut) held t) :
    (p >>= forItems handle ys).runFrom (Trail.handle faults cut) held t =
      (forItems handle (xs ++ ys) r).runFrom (Trail.handle faults cut) held t := by
  rw [runFrom_forItems_append, runFrom_bind, runFrom_bind, h]

/-! ### The work of the repairs -/

/-- The items that a listing finds, if it does not fail. -/
def found (faults : Faults) (t : Trail) (c : StoreCall) (items : c.Value → List Task) : List Task :=
  ((t.gives? faults c).map items).getD []

theorem mem_found {task : Task} {c : StoreCall} {items : c.Value → List Task} :
    task ∈ found faults t c items ↔ ∃ v, t.gives? faults c = some v ∧ task ∈ items v := by
  rw [found]
  cases t.gives? faults c <;> simp

/-- The work of the repairs before the second listing. -/
def firstTasks (faults : Faults) (s : Scan) (t : Trail) : List Task :=
  .listMixed :: found faults t .findMixed (List.map .split) ++ s.shared.map .reassign ++
    s.missing.map .create ++ s.orphans.map .delete

/-- The work of the repairs of a run that is not cancelled, in its order. What the second listing
finds is what it finds after all that was done before. -/
def tasks (operator : UserId) (faults : Faults) (s : Scan) (r : Summary) (t : Trail) : List Task :=
  firstTasks faults s t ++ .listDuplicates :: found faults
    (t.proceed faults (handleAll (Task.handle operator s) (firstTasks faults s t) r)).2
    .findDuplicateGroups (List.map .collapse)

/-- A phase that begins with a listing does this listing and then handles what it found. -/
theorem Lists.runFrom {c : StoreCall} {list : Task} {items : c.Value → List Task}
    {failed : StoreError → Summary → Prog Summary} {phase : Summary → Prog Summary}
    (h : Lists operator s c list items failed phase) :
    (phase r).runFrom (Trail.handle faults cut) held t =
      (forItems (Task.handle operator s) (list :: found faults t c items) r).runFrom
        (Trail.handle faults cut) held t := by
  rw [h.phase_eq, forItems, runFrom_checkpoint, runFrom_checkpoint]
  split
  · rfl
  split
  · rfl
  rw [h.handle_eq, bind_assoc]
  rcases hanswer : t.answer faults (.store c) with ⟨_ | e | v, u⟩
  · exact (runFrom_step_none hanswer).trans (runFrom_step_none hanswer).symm
  · have hnone : t.gives? faults c = none := by rw [Trail.gives?, hanswer]
    refine (runFrom_step hanswer).trans (Eq.symm ((runFrom_step hanswer).trans ?_))
    rw [found, hnone]
    exact congrArg (fun p => p.runFrom (Trail.handle faults cut) held u) (bind_done (failed e r))
  · have hsome : t.gives? faults c = some v := by rw [Trail.gives?, hanswer]
    refine (runFrom_step hanswer).trans (Eq.symm ((runFrom_step hanswer).trans ?_))
    rw [found, hsome]
    rfl

/-- The repairs handle their tasks as one phase would. -/
theorem runFrom_repair (hr : r.cancelled = false) :
    (repair operator s r).runFrom (Trail.handle faults cut) true t =
      (forItems (Task.handle operator s) (tasks operator faults s r t) r).runFrom
        (Trail.handle faults cut) true t := by
  have hreassign : reassignShared operator s =
      forItems (Task.handle operator s) (s.shared.map .reassign) :=
    funext fun r => (forItems_map Task.reassign (Task.handle operator s) s.shared r).symm
  have hcreate : createMissingGroups operator s =
      forItems (Task.handle operator s) (s.missing.map .create) :=
    funext fun r => (forItems_map Task.create (Task.handle operator s) s.missing r).symm
  have hdelete : deleteOrphans s = forItems (Task.handle operator s) (s.orphans.map .delete) :=
    funext fun r => (forItems_map Task.delete (Task.handle operator s) s.orphans r).symm
  have hrepair : repair operator s r = splitMixed r >>= reassignShared operator s >>=
      createMissingGroups operator s >>= deleteOrphans s >>= collapseDuplicates := by
    simp only [bind_assoc]
    rfl
  have hfirst : (splitMixed r >>= reassignShared operator s >>= createMissingGroups operator s >>=
      deleteOrphans s).runFrom (Trail.handle faults cut) true t =
        (forItems (Task.handle operator s) (firstTasks faults s t) r).runFrom
          (Trail.handle faults cut) true t := by
    rw [hreassign, hcreate, hdelete]
    exact runFrom_bind_forItems (runFrom_bind_forItems (runFrom_bind_forItems
      (lists_splitMixed operator s).runFrom))
  rw [hrepair, tasks, runFrom_forItems_append, runFrom_bind (_ >>= deleteOrphans s), hfirst,
    runFrom_bind]
  rcases runFrom_forItems faults cut uncut_handle (firstTasks faults s t) hr
    true t with hall | ⟨j, r', held', t', -, -, -, hstop⟩
  · rw [Trail.proceed, hall]
    rcases (handleAll (Task.handle operator s) (firstTasks faults s t) r).runFrom
      (Trail.handle faults none) true t with ⟨_ | ⟨r', held'⟩, t'⟩
    · rfl
    · exact (lists_collapseDuplicates operator s).runFrom
  · rw [hstop]
    exact ((lists_collapseDuplicates operator s).runFrom).trans
      ((runFrom_forItems_cancelled rfl _ held' _).trans
        (runFrom_forItems_cancelled rfl _ held' _).symm)

theorem isMixed_of_gives? {rows : List Entry} (h : t.gives? faults .findMixed = some rows) :
    ∀ e ∈ rows, e.isMixed = true := by
  rw [Trail.gives?, Trail.answer] at h
  cases hrefused : (faults (t.calls ++ [.store .findMixed])).bind
      (Watch.refusal? (.store .findMixed)) with
  | some x =>
    obtain ⟨e, -, hx⟩ := Option.bind_eq_some_iff.1 hrefused
    cases hx
    rw [hrefused] at h
    cases h
  | none =>
    rw [hrefused] at h
    rcases hanswer : t.world.answer (.store .findMixed) with ⟨_ | e | v, world⟩
    · simp [hanswer] at h
    · simp [hanswer] at h
    · rw [hanswer] at h
      cases h
      exact isMixed_of_answer hanswer

/-- Every task begins with a call. -/
theorem exists_call_of_mem_tasks {task : Task} (h : task ∈ tasks operator faults s r t)
    (r' : Summary) : ∃ c next, task.handle operator s r' = .step (.call c) next := by
  cases task with
  | split entry =>
    obtain ⟨rows, hgives, hentry⟩ : ∃ rows, t.gives? faults .findMixed = some rows ∧
        entry ∈ rows := by
      simpa [tasks, firstTasks, mem_found] using h
    have hmixed : entry.isMixed = true := isMixed_of_gives? hgives entry hentry
    obtain ⟨⟨group, _ | user, _ | unit, privileges⟩, id⟩ := entry
    · cases hmixed
    · cases hmixed
    · cases hmixed
    · exact ⟨_, _, rfl⟩
  | listMixed | reassign | create | delete | listDuplicates | collapse => exact ⟨_, _, rfl⟩

/-- The repairs up to the end of the first tasks. -/
def handled (operator : UserId) (faults : Faults) (s : Scan) (r : Summary) (t : Trail) (n : ℕ) :
    Option (Summary × Bool) × Trail :=
  t.proceed faults
    (handleAll (Task.handle operator s) ((tasks operator faults s r t).take n) r)

/-- The repairs go on from the end of the first tasks. -/
theorem handled_eq {n : ℕ} {r' : Summary} {held' : Bool} {t' : Trail}
    (h : handled operator faults s r t n = (some (r', held'), t')) :
    handled operator faults s r t (tasks operator faults s r t).length =
      (handleAll (Task.handle operator s) ((tasks operator faults s r t).drop n) r').runFrom
        (Trail.handle faults none) held' t' := by
  rw [handled, Trail.proceed] at h
  have hsplit : handleAll (Task.handle operator s) (tasks operator faults s r t) r =
      handleAll (Task.handle operator s) ((tasks operator faults s r t).take n) r >>=
        handleAll (Task.handle operator s) ((tasks operator faults s r t).drop n) := by
    rw [← handleAll_append, List.take_append_drop]
  rw [handled, Trail.proceed, List.take_length, hsplit, runFrom_bind, h]

/-- The tasks that are left out would have made calls. -/
theorem length_history_lt {n : ℕ} (hn : n < (tasks operator faults s r t).length) {r' : Summary}
    {held' : Bool} {t' : Trail} (h : handled operator faults s r t n = (some (r', held'), t')) :
    t'.history.length < (handled operator faults s r t
      (tasks operator faults s r t).length).2.history.length := by
  obtain ⟨c, next, hnext⟩ := exists_call_of_mem_tasks (List.getElem_mem hn) r'
  rw [handled_eq h, List.drop_eq_getElem_cons hn, handleAll, hnext, step_bind]
  obtain ⟨b, hmore⟩ := Trail.exists_call_prefix faults none held' (fun x => next x >>= fun r =>
    handleAll (Task.handle operator s) ((tasks operator faults s _ t).drop (n + 1)) r) t'
  have hlength := hmore.length_le
  rw [List.length_append, List.length_singleton] at hlength
  exact hlength

theorem cancelled_of_handled (hr : r.cancelled = false) {n : ℕ} {r' : Summary} {held' : Bool}
    {t' : Trail} (h : handled operator faults s r t n = (some (r', held'), t')) :
    r'.cancelled = false :=
  ((uncut_handleAll uncut_handle _ r).value h).trans hr

/-- Repairs that are cut handle the first tasks, and all of them if they are not cancelled. -/
theorem runFrom_repair_cut (operator : UserId) (faults : Faults) (cut : Option ℕ) (s : Scan)
    (t : Trail) (hr : r.cancelled = false) :
    (repair operator s r).runFrom (Trail.handle faults cut) true t =
        handled operator faults s r t (tasks operator faults s r t).length ∨
      ∃ n < (tasks operator faults s r t).length, ∃ r' held' t', cut ≠ none ∧
        handled operator faults s r t n = (some (r', held'), t') ∧
        (repair operator s r).runFrom (Trail.handle faults cut) true t =
          (some ({ r' with cancelled := true }, held'), t'.say .sweepCancelled) := by
  rw [runFrom_repair hr, handled, List.take_length]
  rcases runFrom_forItems faults cut uncut_handle (tasks operator faults s r t) hr true t with
    hall | ⟨n, r', held', t', hcut, hn, hfirst, hstop⟩
  · exact .inl hall
  · exact .inr ⟨n, hn, r', held', t', hcut, hfirst, hstop⟩

/-! ### The scan -/

/-- The calls of a scan, which reads the rows first and then goes through all kinds. -/
def scanCalls {α : Type} : Except ServiceError α → List Call
  | .error _ => [.store .findAll]
  | .ok _ => .store .findAll :: ResourceKind.all.map fun kind => .registry (.listRefs kind)

/-- The scan lists the resources of all kinds, whichever listings fail. -/
theorem ends_scanKinds {calls : List Call} (kinds : List ResourceKind) (s : Scan) (r : Summary)
    (ht : t.calls = calls) :
    Trail.Ends faults cut held (scanKinds kinds s r) (fun _ u =>
      u.calls = calls ++ kinds.map fun kind => .registry (.listRefs kind)) t := by
  induction kinds generalizing calls s r t with
  | nil => exact Trail.ends_pure (ht.trans (List.append_nil _).symm)
  | cons kind kinds ih =>
    have hcalls : calls ++ (kind :: kinds).map (fun kind => Call.registry (.listRefs kind)) =
        calls ++ [.registry (.listRefs kind)] ++
          kinds.map fun kind => .registry (.listRefs kind) := by
      rw [List.append_assoc]
      rfl
    rw [hcalls]
    refine Trail.ends_call ⟨_, rfl⟩ fun x u hu => ?_
    rw [ht] at hu
    cases x with
    | error e => exact Trail.ends_log (ih _ _ hu)
    | ok refs => exact ih _ _ hu

/-- The scan reads the rows, and if it can, lists the resources of all kinds. -/
theorem ends_scan (faults : Faults) (cut : Option ℕ) (held : Bool) (t : Trail) :
    Trail.Ends faults cut held scan (fun x u => u.calls = t.calls ++ scanCalls x) t := by
  have hanswered : ∃ x, (t.world.answer (.store .findAll)).1 = some x := by
    rw [World.answer]
    cases t.world.backend with
    | memory store registry => exact ⟨_, rfl⟩
    | database tables data => exact ⟨_, rfl⟩
  refine Trail.ends_call hanswered fun x u hu => ?_
  cases x with
  | error e => exact Trail.ends_pure hu
  | ok entries =>
    have hreport (ids : List EntryId) : Trail.Ends faults cut held (reportUnrepairable ids)
        (fun _ u => u.calls = t.calls ++ [.store .findAll]) u := by
      rw [reportUnrepairable]
      split
      · exact ⟨_, _, rfl, hu⟩
      · exact Trail.ends_pure hu
    refine (hreport _).bind fun _ u hu => (ends_scanKinds _ _ _ hu).bind ?_
    rintro ⟨s, r⟩ v hv
    have hall : v.calls =
        t.calls ++ scanCalls (.ok (s, r) : Except ServiceError (Scan × Summary)) := by
      rw [hv, List.append_assoc]
      rfl
    dsimp only
    split
    · exact Trail.ends_log (Trail.ends_log (Trail.ends_pure hall))
    · exact Trail.ends_log (Trail.ends_pure hall)

/-! ### Whole runs -/

/-- A run that has taken the flag, before the scan. -/
def entered (w : World) : Trail :=
  { world := { w with running := true }.say .sweepStarting }

/-- What a run does after the scan. -/
def afterScan (operator : UserId) :
    Except ServiceError (Scan × Summary) → Prog (Except ServiceError SweepOutcome)
  | .error e => do
    Prog.perform (.record .aborted)
    return .error e
  | .ok (s, r) => do
    let r ← repair operator s r
    Prog.perform (.record (.completed r))
    Prog.log (closing r)
    return .ok (.completed r)

/-- A run that finds the flag free takes it, and gives it back at the end. -/
theorem trace_runOnce {w : World} (hfree : w.running = false)
    {x : Except ServiceError (Scan × Summary)} {t : Trail}
    (hscan : (entered w).proceed faults scan = (some (x, true), t)) :
    w.trace faults cut (runOnce operator) =
      let run := (afterScan operator x >>= fun y =>
        Prog.perform .release >>= fun _ => pure y).runFrom (Trail.handle faults cut) true t
      (run.1.map Prod.fst, run.2) := by
  have hclaim : ({ world := w } : Trail).handle faults cut .claim =
      (some true, { world := { w with running := true } }) := by
    simp [Trail.handle, World.handle, hfree]
  have hholding : runHolding operator =
      Prog.log .sweepStarting >>= fun _ => scan >>= afterScan operator := by
    rw [runHolding]
    refine congrArg (Prog.log .sweepStarting >>= ·)
      (funext fun _ => congrArg (scan >>= ·) (funext fun x => ?_))
    rcases x with e | ⟨s, r⟩
    · rfl
    · rfl
  have hrun : (runOnce operator).runFrom (Trail.handle faults cut) false { world := w } =
      (scan >>= fun x => afterScan operator x >>= fun y => Prog.perform .release >>= fun _ =>
        pure y).runFrom (Trail.handle faults cut) true (entered w) := by
    refine (runFrom_step hclaim).trans ?_
    simp only [hholding, bind_assoc]
    exact runFrom_step rfl
  have hsame : scan.runFrom (Trail.handle faults cut) true (entered w) = (some (x, true), t) :=
    (Trail.runFrom_cut asks_scan cut none true _).trans hscan
  rw [World.trace, runIn_eq, hrun, runFrom_bind, hsame]

/-- A run that cannot read the rows makes no other call. -/
theorem trace_of_scan_error (operator : UserId) (cut : Option ℕ) {w : World}
    (hfree : w.running = false) {e : ServiceError} {t : Trail}
    (hscan : (entered w).proceed faults scan = (some (.error e, true), t)) :
    (w.trace faults cut (runOnce operator)).1 = some (.error e) ∧
      (w.trace faults cut (runOnce operator)).2.history = t.history := by
  rw [trace_runOnce hfree hscan]
  exact ⟨rfl, rfl⟩

/-- A run that has read what it repairs ends as the repairs do. -/
theorem trace_of_scan (operator : UserId) (cut : Option ℕ) {w : World} (hfree : w.running = false)
    {t : Trail}
    (hscan : (entered w).proceed faults scan = (some (.ok (s, r), true), t)) :
    (w.trace faults cut (runOnce operator)).1 =
        ((repair operator s r).runFrom (Trail.handle faults cut) true t).1.map
          (fun x => .ok (.completed x.1)) ∧
      (w.trace faults cut (runOnce operator)).2.history =
        ((repair operator s r).runFrom (Trail.handle faults cut) true t).2.history := by
  rw [trace_runOnce hfree hscan, afterScan, bind_assoc, runFrom_bind]
  rcases (repair operator s r).runFrom (Trail.handle faults cut) true t with ⟨_ | ⟨r', held'⟩, u⟩
  · exact ⟨rfl, rfl⟩
  · exact ⟨rfl, rfl⟩

variable {w : World} {whole short : Option (Except ServiceError SweepOutcome) × Trail}

/-- The scan of the world has found this, and has left this trail. Of the two runs that go on from
there, the second one handles the first tasks of the first one, and reports that it was cancelled
exactly if calls are left out. -/
structure Severed (operator : UserId) (faults : Faults) (w : World) (s : Scan) (r : Summary)
    (t : Trail) (whole short : Option (Except ServiceError SweepOutcome) × Trail) : Prop where
  read : (entered w).proceed faults scan = (some (.ok (s, r), true), t)
  scanned : t.calls = .store .findAll :: ResourceKind.all.map fun kind => .registry (.listRefs kind)
  all : whole.2.history =
    (handled operator faults s r t (tasks operator faults s r t).length).2.history
  /-- The tasks have come to their end if others are left. -/
  first : ∃ n ≤ (tasks operator faults s r t).length,
    short.2.history = (handled operator faults s r t n).2.history ∧
      (n < (tasks operator faults s r t).length →
        (handled operator faults s r t n).1.isSome = true)
  after : t.history <+: short.2.history
  upto : short.2.history <+: whole.2.history
  /-- Without a report the run was abandoned, as the other one was. -/
  report : (∃ r', short.1 = some (.ok (.completed r')) ∧
      (r'.cancelled = true ↔ short.2.calls ≠ whole.2.calls)) ∨
    (short.1 = none ∧ short.2.calls = whole.2.calls)

theorem history_handled (operator : UserId) (faults : Faults) (s : Scan) (r : Summary) (t : Trail)
    (n : ℕ) : t.history <+: (handled operator faults s r t n).2.history :=
  (Trail.grows_runFrom faults none true _ t).history

/-- A run that handles all tasks leaves nothing out. -/
theorem severed_of_all (hread : (entered w).proceed faults scan = (some (.ok (s, r), true), t))
    (hscanned : t.calls = scanCalls (.ok (s, r) : Except ServiceError (Scan × Summary)))
    (hr : r.cancelled = false)
    (hall : whole.2.history =
      (handled operator faults s r t (tasks operator faults s r t).length).2.history)
    (hshort : short.1 = (handled operator faults s r t (tasks operator faults s r t).length).1.map
      fun x => .ok (.completed x.1))
    (hsame : short.2.history = whole.2.history) : Severed operator faults w s r t whole short where
  read := hread
  scanned := hscanned
  all := hall
  first := ⟨_, Nat.le_refl _, hsame.trans hall, fun h => absurd h (Nat.lt_irrefl _)⟩
  after := by
    rw [hsame, hall]
    exact history_handled _ _ _ _ _ _
  upto := hsame ▸ List.prefix_refl _
  report := by
    have hcalls : short.2.calls = whole.2.calls := congrArg (List.map Prod.fst) hsame
    rcases hrun : handled operator faults s r t (tasks operator faults s r t).length with
      ⟨_ | ⟨r', held'⟩, t'⟩
    · rw [hrun] at hshort
      exact .inr ⟨hshort, hcalls⟩
    · rw [hrun] at hshort
      have hr' : r'.cancelled = false := cancelled_of_handled hr hrun
      refine .inl ⟨r', hshort, fun h => ?_, fun h => absurd hcalls h⟩
      rw [hr'] at h
      cases h

/-- A run that handles the first tasks leaves out the calls of the others. -/
theorem severed_of_first (hread : (entered w).proceed faults scan = (some (.ok (s, r), true), t))
    (hscanned : t.calls = scanCalls (.ok (s, r) : Except ServiceError (Scan × Summary)))
    (hall : whole.2.history =
      (handled operator faults s r t (tasks operator faults s r t).length).2.history)
    {n : ℕ} (hn : n < (tasks operator faults s r t).length) {r' : Summary} {held' : Bool}
    {t' : Trail} (hfirst : handled operator faults s r t n = (some (r', held'), t'))
    (hshort : short.1 = some (.ok (.completed { r' with cancelled := true })))
    (hhistory : short.2.history = t'.history) : Severed operator faults w s r t whole short where
  read := hread
  scanned := hscanned
  all := hall
  first := ⟨n, Nat.le_of_lt hn, by rw [hhistory, hfirst], fun _ => by rw [hfirst]; rfl⟩
  after := by
    have hafter := history_handled operator faults s r t n
    rw [hfirst] at hafter
    rw [hhistory]
    exact hafter
  upto := by
    rw [hhistory, hall, handled_eq hfirst]
    exact (Trail.grows_runFrom faults none held' _ t').history
  report := by
    refine .inl ⟨_, hshort, fun _ hcalls => ?_, fun _ => rfl⟩
    have hlength := congrArg List.length hcalls
    rw [Trail.calls, Trail.calls, List.length_map, List.length_map, hhistory, hall] at hlength
    exact Nat.ne_of_lt (length_history_lt hn hfirst) hlength

/-- A run that has read what it repairs is the whole one up to the end of some task. -/
theorem severed_of_scan (operator : UserId) (cut : Option ℕ) (hfree : w.running = false)
    (hread : (entered w).proceed faults scan = (some (.ok (s, r), true), t))
    (hscanned : t.calls = scanCalls (.ok (s, r) : Except ServiceError (Scan × Summary))) :
    Severed operator faults w s r t (w.trace faults none (runOnce operator))
      (w.trace faults cut (runOnce operator)) := by
  have hr : r.cancelled = false := asks_scan.value hread s r rfl
  obtain ⟨hshort, hhistory⟩ := trace_of_scan operator cut hfree hread
  have hall : (w.trace faults none (runOnce operator)).2.history =
      (handled operator faults s r t (tasks operator faults s r t).length).2.history := by
    rw [(trace_of_scan operator none hfree hread).2]
    rcases runFrom_repair_cut operator faults none s t hr with hall | ⟨-, -, -, -, -, hcut, -⟩
    · rw [hall]
    · exact absurd rfl hcut
  rcases runFrom_repair_cut operator faults cut s t hr with
    hsame | ⟨n, hn, r', held', t', -, hfirst, hstop⟩
  · rw [hsame] at hshort hhistory
    exact severed_of_all hread hscanned hr hall hshort (hhistory.trans hall.symm)
  · rw [hstop] at hshort hhistory
    exact severed_of_first hread hscanned hall hn hfirst hshort hhistory

/-- **Sweeps are cut between items.** Let the calls that fail be fixed in advance, and let the
request for cancellation come when some number of calls has been made. The sweep makes the calls
that it makes without the request up to some point, and leaves stored what was stored then. Either
it is aborted as the rows cannot be read, or it scans everything, handles some tasks to their end,
and the others not at all. It reports that it was cancelled exactly if it has left out calls. -/
theorem severed_runOnce (operator : UserId) {w : World} (hfree : w.running = false)
    (faults : Faults) (cut : Option ℕ) :
    (w.trace faults cut (runOnce operator)).2.history <+:
        (w.trace faults none (runOnce operator)).2.history ∧
      (w.trace faults cut (runOnce operator)).2.Current w.backend ∧
      ((∃ e, (w.trace faults cut (runOnce operator)).1 = some (.error e) ∧
          (w.trace faults none (runOnce operator)).1 = some (.error e) ∧
          (w.trace faults cut (runOnce operator)).2.calls = [.store .findAll] ∧
          (w.trace faults none (runOnce operator)).2.calls = [.store .findAll]) ∨
        ∃ s r t, Severed operator faults w s r t (w.trace faults none (runOnce operator))
          (w.trace faults cut (runOnce operator))) := by
  have hcurrent : (w.trace faults cut (runOnce operator)).2.Current w.backend :=
    (Trail.grows_runFrom faults cut false (runOnce operator) { world := w }).current _ rfl
  obtain ⟨e | ⟨s, r⟩, t, hread, hcalls⟩ := ends_scan faults none true (entered w)
  · obtain ⟨hshort, hhistory⟩ :=
      trace_of_scan_error operator cut hfree hread
    obtain ⟨hwhole, hhistory'⟩ :=
      trace_of_scan_error operator none hfree hread
    have hscanned : t.history.map Prod.fst = [.store .findAll] := hcalls
    have hsame := hhistory.trans hhistory'.symm
    refine ⟨hsame ▸ List.prefix_refl _, hcurrent, .inl ⟨e, hshort, hwhole, ?_, ?_⟩⟩
    · rw [Trail.calls, hhistory, hscanned]
    · rw [Trail.calls, hhistory', hscanned]
  · have hsevered := severed_of_scan operator cut hfree hread hcalls
    exact ⟨hsevered.upto, hcurrent, .inr ⟨s, r, t, hsevered⟩⟩

/-- The twelfth call fails. -/
def twelfthDown : Faults := fun calls =>
  if calls.length = 12 then some (.backend "down") else none

/-- The splitting of a row fails, and the request comes while a resource is moved. -/
theorem severed_runOnce_disordered :
    (disordered.trace twelfthDown (some 14) (runOnce ⟨7⟩)).2.history <+:
        (disordered.trace twelfthDown none (runOnce ⟨7⟩)).2.history ∧
      (disordered.trace twelfthDown (some 14) (runOnce ⟨7⟩)).2.calls.getLast? =
        some (.registry (.assign .page ⟨2⟩ ⟨10⟩)) ∧
      ∃ r, (disordered.trace twelfthDown (some 14) (runOnce ⟨7⟩)).1 = some (.ok (.completed r)) ∧
        r.cancelled = true := by
  obtain ⟨hupto, -, ⟨e, -, -, hcalls, -⟩ | ⟨s, r, t, hsevered⟩⟩ :=
    severed_runOnce ⟨7⟩ (show disordered.running = false from rfl) twelfthDown (some 14)
  · exact absurd hcalls (by decide +kernel)
  · have hproper : (disordered.trace twelfthDown (some 14) (runOnce ⟨7⟩)).2.calls ≠
        (disordered.trace twelfthDown none (runOnce ⟨7⟩)).2.calls := by decide +kernel
    rcases hsevered.report with ⟨r', hresult, hiff⟩ | ⟨-, hsame⟩
    · exact ⟨hupto, by decide +kernel, r', hresult, hiff.2 hproper⟩
    · exact absurd hsame hproper

end AccessGroups.Sweep
