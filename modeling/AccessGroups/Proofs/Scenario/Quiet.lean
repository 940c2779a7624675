import AccessGroups.Proofs.Scenario.Instant
import AccessGroups.Scenario.Scene

/-!
# Scenes in which a sweep takes no time

Watches may let calls fail, and they may run steps in the middle of a sweep. As long as those steps
do not sleep, do not start or stop a timetable and set no watches that would, everything that
happens on a scene takes no time. If in addition no watch requests cancellation, the task that runs
on the scene stays as it is: nobody cancels it, and it stays the current one.

## Main definitions

* `Scenario.Step.still`: a step that takes no time and leaves the current task alone.
* `Scenario.Watch.Harmless`: a watch that requests no cancellation and runs such steps only.
* `Scenario.Scene.Quiet`: a scene with harmless watches whose current task has not been cancelled.
* `Scenario.runOnce?`: how a sweep that a task runs on a scene ends.

## Main results

* `Scenario.instant_performWithin`: on quiet scenes such a step takes no time, and the scene stays
  quiet.
* `Scenario.calm_runNested`: such steps, with time passing between them, are calm.
* `Scenario.finish?_scheduledRun`: on a quiet scene a sweep takes no time, and the scene stays
  quiet.
-/

namespace AccessGroups.Scenario

open Act

namespace Step

mutual

/-- The step takes no time, neither starts nor stops a timetable, and sets only watches that
request no cancellation and run steps of this kind. -/
def still : Step → Bool
  | .watch _ _ _ _ _ cancels steps => !cancels && stillAll steps
  | .schedule _ _ _ => false
  | .sleep millis => millis = 0
  | .stop => false
  | _ => true

/-- All steps of a list are still. -/
def stillAll : List Step → Bool
  | [] => true
  | s :: rest => s.still && stillAll rest

end

end Step

/-- The watch requests no cancellation, and its steps are still. -/
def Watch.Harmless (w : Watch) : Prop :=
  w.cancels = false ∧ Step.stillAll w.steps = true

/-- The task is the current one and has not been cancelled, and the watches are harmless. -/
structure Scene.Quiet (task : Nat) (s : Scene) : Prop where
  current : s.current = some task
  uncancelled : s.isCancelled (.task task) = false
  harmless : ∀ w ∈ s.watches, w.Harmless

variable {task : Nat} {s t : Scene}

namespace Scene

/-- Whether a scene is quiet depends on the watches and on what is known of the tasks. -/
theorem Quiet.congr (h : s.Quiet task) (hwatches : t.watches = s.watches)
    (hcurrent : t.current = s.current) (hcancelled : t.cancelledTasks = s.cancelledTasks) :
    t.Quiet task where
  current := hcurrent ▸ h.current
  uncancelled := by simpa only [isCancelled, hcancelled] using h.uncancelled
  harmless := hwatches ▸ h.harmless

theorem Quiet.onWorld {α : Type} (h : s.Quiet task) (f : World → α × World) :
    (s.onWorld f).2.Quiet task :=
  h.congr rfl rfl rfl

theorem Quiet.say (h : s.Quiet task) (e : Event) : (s.say e).Quiet task :=
  h.congr rfl rfl rfl

theorem Quiet.watch (h : s.Quiet task) {w : Watch} (hw : w.Harmless) :
    Quiet task { s with watches := s.watches ++ [w] } where
  current := h.current
  uncancelled := h.uncancelled
  harmless := List.forall_mem_append.2 ⟨h.harmless, List.forall_mem_singleton.2 hw⟩

/-- Counting a call leaves the scene quiet, and the watches that fire on it are harmless. -/
theorem Quiet.observe (h : s.Quiet task) (c : Call) :
    (s.observe c).2.Quiet task ∧ ∀ w ∈ (s.observe c).1, w.Harmless := by
  have hcounted : ∀ w ∈ (s.observe c).2.watches, w.Harmless := by
    intro w hw
    obtain ⟨v, hv, rfl⟩ := List.mem_map.1 hw
    split
    · exact h.harmless v hv
    · exact h.harmless v hv
  exact ⟨⟨h.current, h.uncancelled, hcounted⟩, fun w hw => hcounted w (List.mem_filter.1 hw).1⟩

theorem Quiet.write (h : s.Quiet task) (step : Step) : (write step s).2.Quiet task := by
  rw [Scenario.write]
  split
  · exact h.congr rfl rfl rfl
  · exact h

theorem Quiet.reopen (h : s.Quiet task) : (reopen s).2.Quiet task := by
  rw [Scenario.reopen]
  split
  · split
    · exact h.congr rfl rfl rfl
    · exact h
  · exact h

end Scene

/-! ### Steps -/

section

variable {nested : Step → SceneAct Result}

/-- Steps of a kind take no time on quiet scenes. -/
abbrev Brief (task : Nat) (nested : Step → SceneAct Result) : Prop :=
  ∀ step, step.still = true → Instant (Scene.Quiet task) (fun _ => True) (nested step)

theorem instant_runNested (hnested : Brief task nested) {steps : List Step}
    (hsteps : Step.stillAll steps = true) :
    Instant (Scene.Quiet task) (fun _ => True) (runNested nested steps) := by
  induction steps with
  | nil => exact .pure trivial
  | cons step rest ih =>
    simp only [Step.stillAll, Bool.and_eq_true] at hsteps
    refine (hnested step hsteps.1).bind fun result _ => ?_
    exact .bind (.update fun s hs => hs.congr rfl rfl rfl) fun _ _ => ih hsteps.2

theorem stillAll_append {xs ys : List Step} :
    Step.stillAll (xs ++ ys) = (Step.stillAll xs && Step.stillAll ys) := by
  induction xs with
  | nil => rfl
  | cons x xs ih => simp only [List.cons_append, Step.stillAll, ih, Bool.and_assoc]

theorem instant_fire (hnested : Brief task nested) {firing : List Watch}
    (hfiring : ∀ w ∈ firing, w.Harmless) :
    Instant (Scene.Quiet task) (fun _ => True) (fire nested firing) := by
  have hcancels : firing.any (fun w => w.cancels) = false :=
    List.any_eq_false.2 fun w hw => by rw [(hfiring w hw).1]; decide
  have hsteps : Step.stillAll (firing.flatMap fun w => w.steps) = true := by
    induction firing with
    | nil => rfl
    | cons w rest ih =>
      rw [List.flatMap_cons, stillAll_append, (hfiring w List.mem_cons_self).2, Bool.true_and]
      exact ih (fun v hv => hfiring v (List.mem_cons_of_mem _ hv))
        (List.any_eq_false.2 fun v hv => List.any_eq_false.1 hcancels v (List.mem_cons_of_mem _ hv))
  rw [fire, hcancels]
  exact .bind (instant_runNested hnested hsteps) fun _ _ => .pure trivial

/-- Answering an operation takes no time. -/
theorem instant_handle (hnested : Brief task nested) (thread : Thread) (op : Op) :
    Instant (Scene.Quiet task) (fun _ => True) (handle nested thread op) := by
  have hworld {α : Type} (f : World → α × World) :
      Instant (Scene.Quiet task) (fun _ => True) (Act.modify (Scene.onWorld f)) :=
    .modify fun s hs => ⟨hs.onWorld f, trivial⟩
  cases op with
  | call c =>
    refine .bind (Q := fun firing => ∀ w ∈ firing, w.Harmless)
      (.modify fun s hs => hs.observe c) fun firing hfiring => ?_
    refine (instant_fire hnested hfiring).bind fun fault _ => ?_
    split
    · exact .pure trivial
    · exact hworld _
  | poll => exact .read fun s hs => trivial
  | log e => exact hworld _
  | record e => exact hworld _
  | claim => exact hworld _
  | release => exact hworld _

theorem instant_runProgram {α : Type} (hnested : Brief task nested) (thread : Thread)
    (p : Prog α) : Instant (Scene.Quiet task) (fun _ => True) (runProgram nested thread p) :=
  .exec (instant_handle hnested thread) p

theorem instant_perform (hnested : Brief task nested) (rounds : Nat) (thread : Thread) :
    Brief task (perform nested rounds thread) := by
  have hprogram {α : Type} (p : Prog α) (f : Option α → Result) :
      Instant (Scene.Quiet task) (fun _ => True)
        (runProgram nested thread p >>= fun r => pure (f r)) :=
    (instant_runProgram hnested thread p).bind fun _ _ => .pure trivial
  intro step hstill
  cases step with
  | reopen => exact .modify fun s hs => ⟨hs.reopen, trivial⟩
  | become user units =>
    exact .bind (.update fun s hs => hs.congr rfl rfl rfl) fun _ _ => .pure trivial
  | watch method arguments first times fault cancels steps =>
    simp only [Step.still, Bool.and_eq_true, Bool.not_eq_true'] at hstill
    exact .bind (.update fun s hs => hs.watch hstill) fun _ _ => .pure trivial
  | clearWatches =>
    refine .bind (.update fun s hs => ?_) fun _ _ => .pure trivial
    exact ⟨hs.current, hs.uncancelled, List.forall_mem_nil _⟩
  | store c => exact hprogram _ _
  | registry c => exact hprogram _ _
  | allocate count =>
    refine .bind (Q := fun _ => True) (.bind (.join _ _ fun act hact => ?_) fun _ _ =>
      .pure trivial) fun _ _ => .pure trivial
    rw [List.eq_of_mem_replicate hact]
    exact instant_runProgram hnested thread _
  | groups request => exact hprogram _ _
  | check mask group bypass => exact hprogram _ _
  | authenticate bypass => exact hprogram _ _
  | remove kind resource => exact hprogram _ _
  | sweep cancelled =>
    refine .bind (Q := fun _ => True) (.read fun _ _ => trivial) fun start _ => ?_
    refine .bind (.update fun s hs => hs.congr rfl rfl rfl) fun _ _ => ?_
    refine (instant_runProgram hnested .main _).bind fun outcome _ => ?_
    exact .bind (.update fun s hs => hs.congr rfl rfl rfl) fun _ _ => .pure trivial
  | metrics => exact .read fun _ _ => trivial
  | schedule interval delay jitter => cases hstill
  | sleep millis =>
    have hzero : millis = 0 := of_decide_eq_true hstill
    subst hzero
    exact .pure trivial
  | stop => cases hstill
  | _ => exact .modify fun s hs => ⟨hs.write _, trivial⟩

end

/-- On quiet scenes a still step takes no time. -/
theorem instant_performWithin (weight : Nat) (thread : Thread) :
    Brief task (performWithin weight thread) := by
  induction weight with
  | zero => exact instant_perform (fun _ _ => .pure trivial) 0 thread
  | succ weight ih => exact instant_perform ih (weight + 1) thread

/-- Steps that are still, and steps that let time pass, are calm one after the other. -/
theorem calm_runNested {weight : Nat} {thread : Thread} {steps : List Step}
    (h : ∀ step ∈ steps, step.still = true ∨ ∃ millis, step = .sleep millis)
    (hs : s.Quiet task) :
    (runNested (performWithin weight thread) steps).Calm (Scene.Quiet task) s := by
  induction steps generalizing s with
  | nil => exact hs
  | cons step rest ih =>
    obtain ⟨hstep, hrest⟩ := List.forall_mem_cons.1 h
    have hcalm : (performWithin weight thread step).Calm (Scene.Quiet task) s := by
      obtain hstill | ⟨millis, rfl⟩ := hstep
      · exact (instant_performWithin weight thread step hstill).calm hs
      · have hsleep : performWithin weight thread (.sleep millis) =
            .sleep millis (.done .done) := by cases weight <;> rfl
        rw [hsleep, Act.Calm]
        split
        · exact hs
        · exact ⟨hs, fun t ht => ht⟩
    refine hcalm.bind fun result t ht => ?_
    refine .bind (P := Scene.Quiet task) ?_ fun _ u hu => ih hrest hu
    exact (Instant.update fun _ hs => hs.congr rfl rfl rfl).calm ht

/-! ### Sweeps -/

/-- How a sweep that a task runs on a scene ends: with an outcome or a failure, unless it is
abandoned or takes time. -/
def runOnce? (weight task : Nat) (s : Scene) : Option (Except ServiceError SweepOutcome) :=
  ((runProgram (performWithin weight (.task task)) (.task task)
    (Sweep.runOnce s.operator)).finish? s).bind Prod.fst

/-- On a quiet scene the sweep of a task takes no time. It counts as abandoned if it has neither an
outcome nor a failure. -/
theorem finish?_scheduledRun (weight : Nat) (h : s.Quiet task) :
    ∃ t, (scheduledRun weight task).finish? s = some ((runOnce? weight task s).isNone, t) ∧
      t.Quiet task := by
  obtain ⟨outcome, t, hfinish, ht, -⟩ :=
    instant_runProgram (instant_performWithin weight (.task task)) (.task task)
      (Sweep.runOnce s.operator) s h
  simp only [scheduledRun, runOnce?, finish?_bind, finish?_read, Option.bind_some, hfinish]
  rcases outcome with _ | e | r | _
  · exact ⟨t, rfl, ht⟩
  · exact ⟨_, rfl, ht.say _⟩
  · exact ⟨_, rfl, ht.say _⟩
  · exact ⟨_, rfl, ht.say _⟩

end AccessGroups.Scenario
