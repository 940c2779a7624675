import AccessGroups.Proofs.Scenario.Standing

/-!
# Sweeps begin on time

The sweeps of a task on a timetable begin when the first delay is over and then once every period,
however they end: with a report, because another run is active, or with a failure. Only a sweep that
is abandoned ends the task before it is cancelled. Between the sweeps anything may happen that
neither ends the task nor lets sweeps take time.

## Main definitions

* `Scenario.OnGrid`: sweeps that begin at the times of a grid.
* `Scenario.Going`, `Scenario.Crashed`: a task that goes on after the sweeps that it has begun, and
  one whose last sweep was abandoned.
* `Scenario.Punctual`: sweeps that begin exactly when they are due before some time.
* `Scenario.Idle`: a machine without tasks.

## Main results

* `Scenario.Going.course_turnsWhile`, `Scenario.Course.course_runAct`: turns, and acts of the steps,
  begin the sweeps that are due until their end.
* `Scenario.punctual_runAct`: the sweeps of a task that is cancelled between its sweeps begin on
  time, and it ends when it is cancelled.
-/

namespace AccessGroups.Scenario

open Machine

/-- The sweeps are begun by a task, and they are the first ones of a grid of times. -/
structure OnGrid (number period first : Nat) (starts : List Start) : Prop where
  tasks : ∀ b ∈ starts, b.task = number
  times : starts.map Start.time = (List.range starts.length).map fun k => first + k * period

variable {j : Job} {ended : List (Nat × Bool)} {weight first target turns : Nat}
  {starts : List Start} {m : Machine}

theorem OnGrid.append {number period : Nat} (h : OnGrid number period first starts)
    (s : Scene) : OnGrid number period first
      (starts ++ [⟨number, first + starts.length * period, s⟩]) where
  tasks := List.forall_mem_append.2 ⟨h.tasks, by simp⟩
  times := by
    rw [List.map_append, h.times, List.length_append, List.length_singleton, List.range_succ,
      List.map_append]
    rfl

/-- At a time off the grid the sweeps that have begun are past. -/
theorem OnGrid.lt_of_past {number period now : Nat} (h : OnGrid number period first starts)
    (hpast : ∀ b ∈ starts, b.time ≤ now) (hbetween : ∀ k, now ≠ first + k * period) :
    ∀ b ∈ starts, b.time < now := by
  intro b hb
  obtain ⟨k, -, hk⟩ := List.mem_map.1 (h.times ▸ List.mem_map_of_mem (f := Start.time) hb)
  have hle := hpast b hb
  have hne := hbetween k
  omega

/-- The task has begun these sweeps, none of which was abandoned, and stands before the next one. -/
structure Going (weight : Nat) (j : Job) (ended : List (Nat × Bool)) (first : Nat)
    (starts : List Start) (turns : Nat) (m : Machine) : Prop where
  grid : OnGrid j.number j.period first starts
  past : ∀ b ∈ starts, b.time ≤ m.clock
  settled : ∀ b ∈ starts, (b.outcome? weight).isSome
  standing : Standing j ended (first + starts.length * j.period) turns m

/-- The task has begun these sweeps; the last one and no other was abandoned, which ended the
task. -/
structure Crashed (weight : Nat) (j : Job) (first : Nat) (starts : List Start) (m : Machine) :
    Prop where
  grid : OnGrid j.number j.period first starts
  past : ∀ b ∈ starts, b.time ≤ m.clock
  abandoned : ∃ earlier last, starts = earlier ++ [last] ∧
    (∀ b ∈ earlier, (b.outcome? weight).isSome) ∧ last.outcome? weight = none
  gone : Over j.number true m

/-- The task goes on or has crashed. -/
def Course (weight : Nat) (j : Job) (ended : List (Nat × Bool)) (first : Nat)
    (starts : List Start) (m : Machine) : Prop :=
  (∃ turns, Going weight j ended first starts turns m) ∨ Crashed weight j first starts m

/-! ### Turns -/

/-- Nothing more happens on a machine whose only task has ended. -/
theorem Over.turn?_eq_none {number : Nat} {crashed : Bool} (h : Over number crashed m) :
    turn? (scheduledRun weight) (some target) m = none := by
  simp [turn?, wakeCancelled, wake, h.ready, h.waiting]

/-- There are always turns enough for a task that sweeps every millisecond. -/
theorem le_turnBound (weight millis : Nat) : 16 * (millis + 2) ≤ turnBound weight millis :=
  Nat.mul_le_mul_right _ (by omega)

/-- While the clock comes to a target, the task begins the sweeps that are due before it, or crashes
on the way. -/
theorem Going.course_turnsWhile {fuel : Nat} (h : Going weight j ended first starts turns m)
    (hquiet : m.scene.Quiet j.number) (hperiod : 0 < j.period) (htarget : m.clock < target)
    (hfuel : 5 * (target - m.clock) + turns ≤ fuel) :
    let next := turnsWhile (scheduledRun weight) (some target) (fun _ => true) fuel m
    let begun := starts ++ turnStarts (scheduledRun weight) (some target) (fun _ => true) fuel m
    next.scene.Quiet j.number ∧ m.clock ≤ next.clock ∧ next.clock < target ∧
      (Going weight j ended first begun 0 next ∧ target ≤ first + begun.length * j.period ∨
        Crashed weight j first begun next) := by
  induction fuel using Nat.strongRecOn generalizing starts turns m with
  | ind fuel ih =>
    obtain ⟨fuel, rfl⟩ : ∃ n, fuel = n + 1 := ⟨fuel - 1, by omega⟩
    cases h.standing.turn weight hquiet hperiod htarget with
    | wait hturn hturns hdue =>
      subst hturns
      rw [turnsWhile_eq_self (.inr hturn), turnStarts_eq_nil (.inr hturn), List.append_nil]
      exact ⟨hquiet, Nat.le_refl _, htarget, .inl ⟨h, hdue⟩⟩
    | move next left hturn hbegins hnext hstanding hclock hbefore hleft =>
      have hgoing : Going weight j ended first starts left next :=
        ⟨h.grid, fun b hb => Nat.le_trans (h.past b hb) hclock, h.settled, hstanding⟩
      rw [turnsWhile_succ rfl hturn, turnStarts_succ rfl hturn, hbegins]
      obtain ⟨hq, hle, hlt, hcourse⟩ := ih fuel (by omega) hgoing hnext hbefore (by omega)
      exact ⟨hq, Nat.le_trans hclock hle, hlt, hcourse⟩
    | sweep begun next hturns hdue hturn hbegins hrest hnone hclock hnext hends =>
      obtain ⟨fuel, rfl⟩ : ∃ n, fuel = n + 1 := ⟨fuel - 1, by omega⟩
      have hgrid := h.grid.append m.scene
      have hpast : ∀ b ∈ starts ++ [⟨j.number, first + starts.length * j.period, m.scene⟩],
          b.time ≤ next.clock := by
        rw [hclock, ← hdue]
        exact List.forall_mem_append.2 ⟨h.past, by simp [hdue]⟩
      rw [turnsWhile_succ rfl hturn, turnStarts_succ rfl hturn, hbegins, turnsWhile_succ rfl hrest,
        turnStarts_succ rfl hrest, hnone]
      simp only [Option.toList_some, Option.toList_none, List.nil_append, ← List.append_assoc]
      obtain ⟨houtcome, hstanding⟩ | ⟨houtcome, hover⟩ := hends
      · have hgoing : Going weight j ended first
            (starts ++ [⟨j.number, first + starts.length * j.period, m.scene⟩]) 1 next := by
          refine ⟨hgrid, hpast, List.forall_mem_append.2
            ⟨h.settled, List.forall_mem_singleton.2 houtcome⟩, ?_⟩
          rw [List.length_append, List.length_singleton, Nat.add_one_mul, ← Nat.add_assoc]
          exact hstanding
        obtain ⟨hq, hle, hlt, hcourse⟩ := ih fuel (by omega) hgoing hnext (by omega) (by omega)
        exact ⟨hq, by omega, hlt, hcourse⟩
      · rw [turnsWhile_eq_self (.inr hover.turn?_eq_none),
          turnStarts_eq_nil (.inr hover.turn?_eq_none), List.append_nil]
        exact ⟨hnext, by omega, by omega, .inr ⟨hgrid, hpast,
          ⟨starts, _, rfl, h.settled, Option.isNone_iff_eq_none.1 houtcome⟩, hover⟩⟩

/-- After the clock has moved to a time up to which the task has nothing to do, it still stands
before its next sweep. -/
theorem Standing.moveClock {due : Nat} (h : Standing j ended due 0 m) (hdue : target ≤ due) :
    ∃ turns, Standing j ended due turns (m.moveClock target) := by
  cases h with
  | @asleep s now stage hstage hnow =>
    rw [moveClock_asleep]
    split
    · obtain ⟨turns, -, hstanding⟩ := Standing.of_due j ended s hstage hdue
      exact ⟨turns, hstanding⟩
    · exact ⟨0, .asleep hstage (by omega)⟩

theorem Over.moveClock {number : Nat} {crashed : Bool} (h : Over number crashed m) :
    Over number crashed (m.moveClock target) := by
  refine ⟨?_, ?_, h.outcome⟩ <;> simp [Machine.moveClock, wake, h.ready, h.waiting]

/-- While time passes the task begins the sweeps that are due before its end, or crashes on the
way. -/
theorem Course.course_advance {millis : Nat} (h : Course weight j ended first starts m)
    (hquiet : m.scene.Quiet j.number) (hperiod : 0 < j.period) (hmillis : 0 < millis) :
    let next := advance (scheduledRun weight) weight millis m
    next.scene.Quiet j.number ∧ next.clock = m.clock + millis ∧
      Course weight j ended first (starts ++ turnStarts (scheduledRun weight)
        (some (m.clock + millis)) (fun _ => true) (turnBound weight millis) m) next := by
  obtain ⟨turns, h⟩ | h := h
  · have hfuel : 5 * (m.clock + millis - m.clock) + turns ≤ turnBound weight millis := by
      have hturns := h.standing.turns_le
      have hbound := le_turnBound weight millis
      omega
    obtain ⟨hnext, -, hclock, hcourse⟩ := h.course_turnsWhile hquiet hperiod (by omega) hfuel
    refine ⟨hnext, rfl, ?_⟩
    obtain ⟨hgoing, hdue⟩ | hcrashed := hcourse
    · obtain ⟨left, hstanding⟩ := hgoing.standing.moveClock hdue
      exact .inl ⟨left, hgoing.grid, fun b hb => Nat.le_trans (hgoing.past b hb)
        (Nat.le_of_lt hclock), hgoing.settled, hstanding⟩
    · exact .inr ⟨hcrashed.grid, fun b hb => Nat.le_trans (hcrashed.past b hb)
        (Nat.le_of_lt hclock), hcrashed.abandoned, hcrashed.gone.moveClock⟩
  · rw [turnStarts_eq_nil (.inr h.gone.turn?_eq_none), List.append_nil, advance,
      turnsWhile_eq_self (.inr h.gone.turn?_eq_none)]
    refine ⟨hquiet, rfl, .inr ⟨h.grid, fun b hb => Nat.le_trans (h.past b hb) ?_, h.abandoned,
      h.gone.moveClock⟩⟩
    exact Nat.le_add_right _ _

/-! ### Acts of the steps -/

theorem Course.onScene (h : Course weight j ended first starts m) (s : Scene) :
    Course weight j ended first starts { m with scene := s } := by
  obtain ⟨turns, h⟩ | h := h
  · exact .inl ⟨turns, h.grid, h.past, h.settled, h.standing.onScene s⟩
  · exact .inr ⟨h.grid, h.past, h.abandoned, h.gone.ready, h.gone.waiting, h.gone.outcome⟩

/-- While a calm act is run the task begins the sweeps that are due until its end, or crashes on the
way. -/
theorem Course.course_runAct {α : Type} {act : SceneAct α}
    (h : Course weight j ended first starts m) (hcalm : act.Calm (Scene.Quiet j.number) m.scene)
    (hperiod : 0 < j.period) :
    let next := (runAct (scheduledRun weight) weight act m).2
    next.scene.Quiet j.number ∧ Course weight j ended first
      (starts ++ actStarts (scheduledRun weight) weight act m) next := by
  induction act generalizing starts m with
  | done a => exact ⟨hcalm, by rw [actStarts, List.append_nil]; exact h⟩
  | get next ih => exact ih m.scene h hcalm
  | set s next ih => exact ih (h.onScene s) hcalm
  | sleep millis next ih =>
    simp only [Act.Calm] at hcalm
    simp only [runAct, actStarts]
    split at hcalm
    · next hzero => simp only [if_pos hzero]; exact ih h hcalm
    · next hlong =>
      obtain ⟨hquiet, hafter⟩ := hcalm
      obtain ⟨hnext, -, hcourse⟩ := h.course_advance hquiet hperiod (Nat.pos_of_ne_zero hlong)
      simp only [if_neg hlong, ← List.append_assoc]
      exact ih hcourse (hafter _ hnext)
  | start number period delay next ih => cases hcalm
  | await number next ih => cases hcalm

/-! ### From the start of a task to its end -/

/-- A machine without tasks on which the next task has neither been cancelled nor ended and sweeps
take no time. -/
structure Idle (m : Machine) : Prop where
  ready : m.ready = []
  waiting : m.waiting = []
  uncancelled : m.scene.isCancelled (.task m.scene.started) = false
  outcome : m.outcome? m.scene.started = none
  harmless : ∀ w ∈ m.scene.watches, w.Harmless

/-- Sweeps that a task begins before it is cancelled at some time, and whether it crashed: unless it
crashed, they begin exactly when they are due before that time, and have an outcome or a failure;
if it crashed, they do so up to the last one, which was abandoned. -/
structure Punctual (weight number interval first stop : Nat) (starts : List Start)
    (crashed : Bool) : Prop where
  tasks : ∀ b ∈ starts, b.task = number
  times : starts.map Start.time = (List.range starts.length).map fun k => first + k * interval
  before : ∀ b ∈ starts, b.time < stop
  complete : crashed = false → ∀ k, first + k * interval < stop → k < starts.length
  settled : crashed = false → ∀ b ∈ starts, (b.outcome? weight).isSome
  abandoned : crashed = true → ∃ earlier last, starts = earlier ++ [last] ∧
    (∀ b ∈ earlier, (b.outcome? weight).isSome) ∧ last.outcome? weight = none

section

variable {α : Type} {t : Timetable} {draw : Fin (t.jitterMillis + 1)} {meanwhile : SceneAct α}

theorem actStarts_launch : actStarts (scheduledRun weight) weight (launch t draw) m = [] := rfl

/-- A task that is started on a machine without tasks stands before its first sweep. -/
theorem Idle.course_launch (weight : Nat) (draw : Fin (t.jitterMillis + 1)) (hidle : Idle m) :
    let next := (runAct (scheduledRun weight) weight (launch t draw) m).2
    let delay := (t.firstDelay draw).millis
    next.scene.Quiet m.scene.started ∧
      Course weight ⟨m.scene.started, t.interval.millis, delay⟩ m.ended (m.clock + delay) []
        next := by
  obtain ⟨s, now, ready, waiting, ended⟩ := m
  obtain ⟨rfl, rfl, huncancelled, -, hharmless⟩ := hidle
  refine ⟨⟨rfl, huncancelled, hharmless⟩, .inl ⟨5, ⟨by simp, rfl⟩, by simp, by simp, ?_⟩⟩
  rw [List.length_nil, Nat.zero_mul, Nat.add_zero]
  exact .fresh rfl

/-- The step that stops the current task cancels it and waits for its end. -/
theorem perform_stop {nested : Step → SceneAct Result} {thread : Thread} {rounds : Nat} :
    perform nested rounds thread .stop = .get fun s =>
      .set { s.cancelTask with current := none } <|
        match s.current with
        | none => .done .done
        | some number => .await number fun crashed =>
          .done (if crashed then .crashed else .done) := rfl

/-- Before the time at which the task is to begin its next sweep, its sweeps are the ones that were
due. -/
theorem Going.punctual (h : Going weight j ended first starts turns m)
    (hnow : m.clock < first + starts.length * j.period)
    (hbetween : ∀ k, m.clock ≠ first + k * j.period) :
    Punctual weight j.number j.period first m.clock starts false where
  tasks := h.grid.tasks
  times := h.grid.times
  before := h.grid.lt_of_past h.past hbetween
  complete _ k hk := by
    refine Nat.lt_of_not_le fun hle => ?_
    have hmul := Nat.mul_le_mul_right j.period hle
    omega
  settled _ := h.settled
  abandoned := by rintro ⟨⟩

theorem Crashed.punctual (h : Crashed weight j first starts m)
    (hbetween : ∀ k, m.clock ≠ first + k * j.period) :
    Punctual weight j.number j.period first m.clock starts true where
  tasks := h.grid.tasks
  times := h.grid.times
  before := h.grid.lt_of_past h.past hbetween
  complete := by rintro ⟨⟩
  settled := by rintro ⟨⟩
  abandoned _ := h.abandoned

/-- The step that stops a task which stands before its next sweep ends it at once; if the task has
crashed, the step says so. -/
theorem Course.stop (h : Course weight j ended first starts m)
    (hended : ended.find? (fun e => e.1 = j.number) = none) (hquiet : m.scene.Quiet j.number)
    (hbetween : ∀ k, m.clock ≠ first + k * j.period) :
    ∃ crashed, Punctual weight j.number j.period first m.clock starts crashed ∧
      actStarts (scheduledRun weight) weight (performWithin weight .main .stop) m = [] ∧
      (runAct (scheduledRun weight) weight (performWithin weight .main .stop) m).1 =
        (if crashed then .crashed else .done) ∧
      Over j.number crashed
        (runAct (scheduledRun weight) weight (performWithin weight .main .stop) m).2 ∧
      (runAct (scheduledRun weight) weight (performWithin weight .main .stop) m).2.clock =
        m.clock := by
  have hstop : performWithin weight .main .stop = .get fun s =>
      .set { s.cancelTask with current := none } <|
        match s.current with
        | none => .done .done
        | some number => .await number fun crashed =>
          .done (if crashed then .crashed else .done) := by
    cases weight <;> exact perform_stop
  have hcancelled : Scene.isCancelled { m.scene.cancelTask with current := none }
      (.task j.number) = true := by
    simp [Scene.isCancelled, Scene.cancelTask, hquiet.current]
  simp only [hstop, runAct, actStarts, hquiet.current]
  have hcourse := h.onScene { m.scene.cancelTask with current := none }
  generalize hm' : ({ m with scene := { m.scene.cancelTask with current := none } } : Machine) = m'
    at hcourse ⊢
  have hclock : m'.clock = m.clock := by rw [← hm']
  obtain ⟨turns, hgoing⟩ | hcrashed := hcourse
  · have hnow : m'.clock < first + starts.length * j.period :=
      Nat.lt_of_le_of_ne hgoing.standing.clock_le (hclock ▸ hbetween _)
    have houtcome : m'.outcome? j.number = none := by
      rw [hgoing.standing.outcome?_eq, hended]; rfl
    obtain ⟨n, hbound⟩ : ∃ n, turnBound weight weight = n + 2 :=
      Nat.exists_eq_add_of_le' (by have := le_turnBound weight weight; omega)
    obtain ⟨hstarts, hover, hsame⟩ := hgoing.standing.stop weight
      (by rw [← hm']; exact hcancelled) hnow houtcome n
    have hawait : await (scheduledRun weight) weight j.number m' =
        turnsWhile (scheduledRun weight) none (unsettled j.number) (n + 2) m' := by
      rw [await, hbound]; rfl
    refine ⟨false, hclock ▸ hgoing.punctual hnow (hclock ▸ hbetween), ?_⟩
    simp only [houtcome, Option.isSome_none, Bool.false_eq_true, if_false, hawait, hbound, hstarts,
      hover.outcome, Option.getD_some]
    exact ⟨rfl, trivial, hover, hsame.trans hclock⟩
  · refine ⟨true, hclock ▸ hcrashed.punctual (hclock ▸ hbetween), ?_⟩
    simp only [hcrashed.gone.outcome, Option.isSome_some, if_true]
    exact ⟨trivial, rfl, hcrashed.gone, hclock⟩

/-- A task is started on a timetable without a random share, with an interval and a delay of whole
milliseconds; meanwhile anything happens that leaves the task alone and lets time pass only while
sweeps take no time; and then the task is stopped, at a time at which no sweep is due. Its sweeps
begin exactly when they are due before that time, unless one of them is abandoned, which ends the
task. Stopping it takes no time and leaves nothing behind that could sweep later. -/
theorem punctual_runAct (weight : Nat) (draw : Fin (t.jitterMillis + 1)) {interval delay : Nat}
    (hidle : Idle m)
    (hinterval : t.interval.nanos = 1000000 * interval)
    (hdelay : t.initialDelay.nanos = 1000000 * delay) (hjitter : t.jitter = .zero)
    (hcalm : ∀ s, s.Quiet m.scene.started →
      meanwhile.Calm (Scene.Quiet m.scene.started) s) :
    let stop := performWithin weight .main .stop
    let begun := (runAct (scheduledRun weight) weight (launch t draw >>= fun _ => meanwhile) m).2
    let last := runAct (scheduledRun weight) weight stop begun
    (∀ k, begun.clock ≠ m.clock + delay + k * interval) →
      ∃ crashed,
        Punctual weight m.scene.started interval (m.clock + delay) begun.clock
          (actStarts (scheduledRun weight) weight
            (launch t draw >>= fun _ => meanwhile >>= fun _ => stop) m) crashed ∧
        last.1 = (if crashed then .crashed else .done) ∧
        Over m.scene.started crashed last.2 ∧ last.2.clock = begun.clock := by
  intro stop begun last hbetween
  have hpos : 0 < interval := by
    have := t.interval_pos
    omega
  have hperiod : t.interval.millis = interval := by rw [Duration.millis]; omega
  have hfirst : (t.firstDelay draw).millis = delay := by
    rw [Timetable.firstDelay_eq hjitter, Duration.millis]; omega
  obtain ⟨hquiet, hcourse⟩ := hidle.course_launch weight draw
  rw [hperiod, hfirst] at hcourse
  have hbegun : (runAct (scheduledRun weight) weight meanwhile
      (runAct (scheduledRun weight) weight (launch t draw) m).2).2 = begun :=
    congrArg Prod.snd (runAct_bind _ _ _ (fun _ => meanwhile) m).symm
  obtain ⟨hcalmed, hreached⟩ := hcourse.course_runAct (hcalm _ hquiet) hpos
  rw [hbegun] at hcalmed hreached
  obtain ⟨crashed, hpunctual, hnone, hresult, hover, hclock⟩ :=
    hreached.stop (Option.map_eq_none_iff.1 hidle.outcome) hcalmed hbetween
  have hstarts : actStarts (scheduledRun weight) weight
      (launch t draw >>= fun _ => meanwhile >>= fun _ => stop) m =
        [] ++ actStarts (scheduledRun weight) weight meanwhile
          (runAct (scheduledRun weight) weight (launch t draw) m).2 := by
    rw [actStarts_bind, actStarts_launch, actStarts_bind, hbegun, hnone, List.append_nil]
  exact ⟨crashed, hstarts ▸ hpunctual, hresult, hover, hclock⟩

end

/-- A timetable with a sweep every two milliseconds after one. -/
def everyOther : Timetable := ⟨.ofMillis 2, .ofMillis 1, .zero, by decide⟩

/-- A machine on which there is one page, and rows of the given groups. -/
def onePage (groups : List GroupId) : Machine where
  scene := {
    world := {
      backend := .memory
        { entries := .ofRows (groups.mapIdx fun i g =>
            ⟨.forUser g ⟨1⟩ Privilege.read.mask, ⟨Int64.ofNat (i + 1)⟩⟩)
          nextEntry := 9 }
        { refs := fun
            | .page => .ofRows [⟨⟨1⟩, ⟨0⟩⟩]
            | _ => .empty } }
    operator := ⟨7⟩ }

theorem idle_onePage (groups : List GroupId) : Idle (onePage groups) :=
  ⟨rfl, rfl, rfl, rfl, List.forall_mem_nil _⟩

/-- Time passes; then the next listing of the rows fails, and more time passes. -/
def disturbances : List Step :=
  [.sleep 2, .watch "find_all" none 1 1 (some (.store (.backend "down"))) false [], .sleep 4]

/-- A task on that timetable, with steps until it is stopped. -/
def patrol (steps : List Step) : SceneAct Result :=
  launch everyOther ⟨0, Nat.succ_pos _⟩ >>= fun _ =>
    runNested (performWithin 0 .main) steps >>= fun _ => performWithin 0 .main .stop

/-- The second of three sweeps fails, and the third one begins on time. -/
theorem punctual_runAct_disturbed :
    ∃ crashed, Punctual 0 0 2 1 6 (actStarts (scheduledRun 0) 0 (patrol disturbances) (onePage []))
        crashed ∧
      (actStarts (scheduledRun 0) 0 (patrol disturbances) (onePage [])).map Start.time = [1, 3, 5] ∧
      (actStarts (scheduledRun 0) 0 (patrol disturbances) (onePage [])).map (fun b =>
        match b.outcome? 0 with
        | some (.error _) => true
        | _ => false) = [false, true, false] := by
  have hcalm : ∀ s : Scene, s.Quiet 0 →
      (runNested (performWithin 0 .main) disturbances).Calm (Scene.Quiet 0) s := by
    refine fun s hs => calm_runNested ?_ hs
    simp [disturbances, Step.still, Step.stillAll]
  have hclock : (runAct (scheduledRun 0) 0 (launch everyOther ⟨0, Nat.succ_pos _⟩ >>= fun _ =>
      runNested (performWithin 0 .main) disturbances) (onePage [])).2.clock = 6 := by decide +kernel
  obtain ⟨crashed, hpunctual, -⟩ := punctual_runAct 0 (t := everyOther) ⟨0, Nat.succ_pos _⟩
    (idle_onePage []) (show _ = 1000000 * 2 from rfl) (show _ = 1000000 * 1 from rfl) rfl hcalm
    (by rw [hclock]; exact fun k => by change 6 ≠ 0 + 1 + k * 2; omega)
  rw [hclock] at hpunctual
  exact ⟨crashed, hpunctual, by decide +kernel, by decide +kernel⟩

/-- There is no identifier left for a page without a group: the first sweep is abandoned, and the
one that is due at three does not begin, although the task is stopped only at four. -/
theorem not_punctual_onePage :
    Idle (onePage [⟨Int64.maxValue⟩]) ∧
      (runAct (scheduledRun 0) 0 (launch everyOther ⟨0, Nat.succ_pos _⟩ >>= fun _ =>
        runNested (performWithin 0 .main) [.sleep 4]) (onePage [⟨Int64.maxValue⟩])).2.clock = 4 ∧
      ¬ ∀ k, 1 + k * 2 < 4 → 1 + k * 2 ∈
        (actStarts (scheduledRun 0) 0 (patrol [.sleep 4]) (onePage [⟨Int64.maxValue⟩])).map
          Start.time := by
  have hstarts : (actStarts (scheduledRun 0) 0 (patrol [.sleep 4])
      (onePage [⟨Int64.maxValue⟩])).map Start.time = [1] := by decide +kernel
  refine ⟨idle_onePage _, by decide +kernel, fun h => ?_⟩
  have hthree := h 1 (by decide)
  rw [hstarts] at hthree
  revert hthree
  decide

end AccessGroups.Scenario
