import AccessGroups.Proofs.Program.Account
import AccessGroups.Proofs.Program.Answer

/-!
# Watched runs

A program is run in a world while its calls and their answers are recorded. The run can be disturbed
from outside: a call can fail before it reaches the store, and cancellation can be requested at any
time. What holds at the end of all runs of a program on an account holds at the end of a watched
run, as long as only those calls failed that may fail and no counter of identifiers was exhausted.

## Main definitions

* `Disturbance`: the calls that fail and the polls that see a request for cancellation.
* `Exchange`: a call with its answer.
* `Watch`: a world with the record of what a program asked of it, with `Watch.Undisturbed`.
* `World.watch`: a watched run.
* `Watch.Follows`: the record and the world are those of an account.

## Main results

* `World.watch_calm`: without disturbance a watched run is a run.
* `World.watch_meets`, `World.watch_undisturbed`: the end of a watched run.
-/

namespace AccessGroups

/-- What disturbs a run from outside. -/
structure Disturbance where
  /-- The failure of the call with this number, the first one having number zero. -/
  fault : Nat → Option StoreError := fun _ => none
  /-- The poll with this number sees a request for cancellation. -/
  cancelled : Nat → Bool := fun _ => false

/-- A call with its answer. -/
structure Exchange where
  call : Call
  answer : call.Answer

namespace Exchange

/-- The call failed. -/
def failed : Exchange → Bool
  | ⟨.store _, .error _⟩ | ⟨.registry _, .error _⟩ | ⟨.principal _, .error _⟩ => true
  | _ => false

/-- The group identifier that the call handed out. -/
def issued? : Exchange → Option GroupId
  | ⟨.store .allocateGroup, .ok g⟩ => some g
  | _ => none

end Exchange

/-- A world with the record of what a program asked of it. -/
structure Watch where
  world : World
  exchanges : List Exchange := []
  polls : Nat := 0
  /-- Some call took a counter of identifiers to its largest value. -/
  spent : Bool := false

namespace Watch

/-- The group identifiers handed out. -/
def issued (w : Watch) : List GroupId :=
  w.exchanges.filterMap Exchange.issued?

/-- Some call failed. -/
def failed (w : Watch) : Bool :=
  w.exchanges.any Exchange.failed

/-- No call failed, and no counter of identifiers was exhausted. -/
structure Undisturbed (w : Watch) : Prop where
  spent : w.spent = false
  failed : w.failed = false

/-- Record a call with its answer. -/
def note (w : Watch) (c : Call) (answer : c.Answer) : Watch :=
  { w with exchanges := w.exchanges ++ [⟨c, answer⟩] }

/-- The answer to a call to a store or to the resources that fails. -/
def refusal? : (c : Call) → StoreError → Option c.Answer
  | .store _, e => some (.error e)
  | .registry _, e => some (.error e)
  | .principal _, _ => none

theorem failed_of_refusal? {c : Call} {e : StoreError} {x : c.Answer}
    (h : refusal? c e = some x) : Exchange.failed ⟨c, x⟩ = true := by
  cases c with
  | store => cases h; rfl
  | registry => cases h; rfl
  | principal => cases h

/-- Let the world answer a call. -/
def reach (w : Watch) (c : Call) : Option c.Answer × Watch :=
  let spent := w.spent || w.world.backend.idCounters.exhaustedBy c
  match w.world.answer c with
  | (some answer, world) => (some answer, { w with world, spent }.note c answer)
  | (none, world) => (none, { w with world, spent })

/-- Answer a call, which fails without an effect if it is disturbed. -/
def answer (d : Disturbance) (w : Watch) (c : Call) : Option c.Answer × Watch :=
  match (d.fault w.exchanges.length).bind (refusal? c) with
  | some answer => (some answer, w.note c answer)
  | none => w.reach c

/-- Answer an operation. -/
def handle (d : Disturbance) (w : Watch) (op : Op) : Option op.Answer × Watch :=
  match op with
  | .call c => w.answer d c
  | .poll => (some (w.world.cancelled || d.cancelled w.polls), { w with polls := w.polls + 1 })
  | op => ((w.world.handle op).1, { w with world := (w.world.handle op).2 })

/-- Go on with a program that holds the flag or does not. -/
def execFrom {α : Type} (d : Disturbance) (held : Bool) (p : Prog α) (w : Watch) :
    Option (α × Bool) × Watch :=
  (p.execFrom (m := StateM Watch) (fun op w => w.handle d op) held).run w

end Watch

/-- Run a program and watch it. -/
def World.watch {α : Type} (w : World) (d : Disturbance) (p : Prog α) : Option α × Watch :=
  (p.exec (m := StateM Watch) fun op w => w.handle d op).run { world := w }

/-! ### One operation after another -/

namespace Watch

variable {α : Type} {d : Disturbance} {held : Bool} {w v : Watch}

/-- After an answer the run goes on with the rest of the program. -/
theorem execFrom_step_some {op : Op} {next : op.Answer → Prog α} {x : op.Answer}
    (h : w.handle d op = (some x, v)) :
    execFrom d held (.step op next) w = execFrom d (op.holds x held) (next x) v := by
  have hrun : StateT.run (m := Id) (fun w : Watch => w.handle d op) w = pure (some x, v) := h
  simp only [execFrom, Prog.execFrom_step, StateT.run_bind, hrun]
  rfl

/-- Without an answer the program is abandoned. -/
theorem execFrom_step_none {op : Op} {next : op.Answer → Prog α}
    (h : w.handle d op = (none, v)) :
    execFrom d held (.step op next) w = execFrom d held .abandon v := by
  have hrun : StateT.run (m := Id) (fun w : Watch => w.handle d op) w = pure (none, v) := h
  simp only [execFrom, Prog.execFrom_step, StateT.run_bind, hrun]
  rfl

/-- An abandoned program gives the flag back if it holds it. -/
theorem execFrom_abandon (w : Watch) :
    execFrom d held (.abandon : Prog α) w =
      (none, if held then (w.handle d .release).2 else w) := by
  cases held <;> rfl

/-- An operation without an answer leaves no record. -/
theorem exchanges_of_handle_none {op : Op} (h : w.handle d op = (none, v)) :
    v.exchanges = w.exchanges := by
  cases op with
  | call c =>
    rw [handle, answer] at h
    cases hq : (d.fault w.exchanges.length).bind (refusal? c) with
    | some x =>
      rw [hq] at h
      cases h
    | none =>
      rw [hq, reach] at h
      rcases hanswer : w.world.answer c with ⟨_ | y, world⟩ <;> rw [hanswer] at h <;> cases h
      rfl
  | log | record | poll | claim | release => cases h

/-! ### What only grows -/

/-- Nothing is taken back from the record. -/
def Grows (w v : Watch) : Prop :=
  w.exchanges <+: v.exchanges ∧ (w.spent = true → v.spent = true)

theorem Grows.refl (w : Watch) : w.Grows w :=
  ⟨List.prefix_refl _, id⟩

theorem Grows.trans {u : Watch} (h : w.Grows v) (h' : v.Grows u) : w.Grows u :=
  ⟨h.1.trans h'.1, h'.2 ∘ h.2⟩

theorem grows_reach (w : Watch) (c : Call) : w.Grows (w.reach c).2 := by
  rw [reach]
  rcases w.world.answer c with ⟨_ | x, world⟩
  · exact ⟨List.prefix_refl _, fun h => by simp [h]⟩
  · exact ⟨List.prefix_append _ _, fun h => by simp [note, h]⟩

theorem grows_handle (d : Disturbance) (w : Watch) (op : Op) : w.Grows (w.handle d op).2 := by
  cases op with
  | call c =>
    rw [handle, answer]
    cases (d.fault w.exchanges.length).bind (refusal? c) with
    | some x => exact ⟨List.prefix_append _ _, id⟩
    | none => exact grows_reach w c
  | log => exact .refl _
  | record => exact .refl _
  | poll => exact .refl _
  | claim => exact .refl _
  | release => exact .refl _

theorem grows_execFrom (d : Disturbance) (held : Bool) (p : Prog α) (w : Watch) :
    w.Grows (execFrom d held p w).2 := by
  have habandon (held : Bool) (w : Watch) :
      w.Grows (execFrom d held (.abandon : Prog α) w).2 := by
    rw [execFrom_abandon]
    cases held
    · exact .refl w
    · exact grows_handle d w .release
  induction p generalizing held w with
  | done a => exact .refl w
  | step op next ih =>
    have hgrows := grows_handle d w op
    rcases hq : w.handle d op with ⟨_ | x, v⟩
    · rw [execFrom_step_none hq]
      rw [hq] at hgrows
      exact hgrows.trans (habandon held v)
    · rw [execFrom_step_some hq]
      rw [hq] at hgrows
      exact hgrows.trans (ih x _ v)
  | abandon => exact habandon held w

/-! ### Following an account -/

/-- The world keeps the ledger of the account, and the record is that of its calls. Before the
record began some group identifiers had been handed out. -/
structure Follows (before : List GroupId) (w : Watch) (a : Account) : Prop where
  shows : w.world.backend.Shows a.ledger
  issued : a.ledger.issued = before ++ w.issued
  made : a.made = w.exchanges.map Exchange.call
  running : a.running = w.world.running

variable {k : Conditions} {a : Account} {before : List GroupId}

/-- What a call to the store hands out is what its answer says. -/
theorem issued_eq {l t : Ledger} {c : StoreCall} {v : c.Value} (h : l.Gives c v t) :
    t.issued = l.issued ++ (Exchange.issued? ⟨.store c, .ok v⟩).toList := by
  cases c with
  | findAll => simp [h.2, Exchange.issued?]
  | findGroup => simp [h.2, Exchange.issued?]
  | findDuplicateGroups => simp [h.2.2, Exchange.issued?]
  | findMixed => simp [h.2, Exchange.issued?]
  | insert => obtain ⟨-, -, rfl⟩ := h; simp [Exchange.issued?]
  | update => obtain ⟨-, -, rfl⟩ := h; simp [Exchange.issued?]
  | deleteEntry => obtain ⟨-, -, rfl⟩ := h; simp [Exchange.issued?]
  | deleteGroup => obtain ⟨-, -, rfl⟩ := h; simp [Exchange.issued?]
  | replaceGroup => obtain ⟨-, -, -, rfl⟩ := h; simp [Exchange.issued?]
  | allocateGroup => obtain ⟨-, -, -, rfl⟩ := h; simp [Exchange.issued?]

theorem issued_note (w : Watch) (c : Call) (x : c.Answer) :
    (w.note c x).issued = w.issued ++ (Exchange.issued? ⟨c, x⟩).toList := by
  cases h : Exchange.issued? ⟨c, x⟩ <;> simp [issued, note, h]

theorem issued?_of_failed {x : Exchange} (h : x.failed = true) : x.issued? = none := by
  rcases x with ⟨(c | c | c), x⟩
  · cases x with
    | error e => cases c <;> rfl
    | ok v => cases h
  · rfl
  · rfl

/-- A failing call leaves the account as it is but for the record. -/
theorem Follows.note_failed (h : w.Follows before a) {c : Call} {x : c.Answer}
    (hx : Exchange.failed ⟨c, x⟩ = true) : (w.note c x).Follows before (a.after c a.ledger) where
  shows := h.shows
  issued := by
    rw [issued_note, issued?_of_failed hx, Option.toList_none, List.append_nil]
    exact h.issued
  made := by simp [note, h.made]
  running := h.running

/-- A call that reaches the world has an answer that it can have on the account. -/
theorem reach_step (h : w.Follows before a) (c : Call) (hspent : (w.reach c).2.spent = false)
    (hfail : ∀ x, (w.reach c).1 = some x → Exchange.failed ⟨c, x⟩ = true → k.mayFail c) :
    ∃ x v b, w.reach c = (some x, v) ∧ v.Follows before b ∧ a.Step k (.call c) x b ∧
      v.world.cancelled = w.world.cancelled := by
  cases c with
  | store c =>
    have hroom : w.world.backend.idCounters.exhaustedBy (.store c) = false := by
      rw [reach] at hspent
      rcases hq : w.world.answer (.store c) with ⟨_ | x, world⟩ <;> rw [hq] at hspent
      · exact (Bool.or_eq_false_iff.1 hspent).2
      · exact (Bool.or_eq_false_iff.1 hspent).2
    rcases World.answer_store h.shows c hroom with ⟨v, b', t, hanswer, hgives, hshows⟩ |
      ⟨e, hanswer⟩
    · have hreach : w.reach (.store c) = (some (.ok v), { w with
          world := { w.world with backend := b' }
          spent := w.spent || w.world.backend.idCounters.exhaustedBy (.store c) }.note
            (.store c) (.ok v)) := by
        rw [reach, hanswer]
      refine ⟨.ok v, _, a.after (.store c) t, hreach, ⟨hshows, ?_, ?_, h.running⟩,
        ⟨t, hgives, rfl⟩, rfl⟩
      · rw [issued_note, Account.ledger_after, issued_eq hgives, h.issued, List.append_assoc]
        rfl
      · simp [note, h.made]
    · have hreach : w.reach (.store c) = (some (.error e), { w with
          spent := w.spent || w.world.backend.idCounters.exhaustedBy (.store c) }.note
            (.store c) (.error e)) := by
        rw [reach, hanswer]
      have hfollows : Watch.Follows before { w with
          spent := w.spent || w.world.backend.idCounters.exhaustedBy (.store c) } a :=
        ⟨h.shows, h.issued, h.made, h.running⟩
      exact ⟨_, _, _, hreach, hfollows.note_failed rfl,
        ⟨hfail _ (by rw [hreach]) rfl, rfl⟩, rfl⟩
  | registry c =>
    rcases World.answer_registry h.shows c with ⟨v, b', log, t, hanswer, hgives, hshows⟩ |
      ⟨e, log, hanswer⟩
    · have hreach : w.reach (.registry c) = (some (.ok v), { w with
          world := { w.world with backend := b', log }
          spent := w.spent || w.world.backend.idCounters.exhaustedBy (.registry c) }.note
            (.registry c) (.ok v)) := by
        rw [reach, hanswer]
      refine ⟨.ok v, _, a.after (.registry c) t, hreach, ⟨hshows, ?_, ?_, h.running⟩,
        ⟨t, hgives, rfl⟩, rfl⟩
      · rw [issued_note, Account.ledger_after, hgives.frame.2.2, h.issued]
        simp [issued, Exchange.issued?]
      · simp [note, h.made]
    · have hreach : w.reach (.registry c) = (some (.error e), { w with
          world := { w.world with log }
          spent := w.spent || w.world.backend.idCounters.exhaustedBy (.registry c) }.note
            (.registry c) (.error e)) := by
        rw [reach, hanswer]
      have hfollows : Watch.Follows before { w with
          world := { w.world with log }
          spent := w.spent || w.world.backend.idCounters.exhaustedBy (.registry c) } a :=
        ⟨h.shows, h.issued, h.made, h.running⟩
      exact ⟨_, _, _, hreach, hfollows.note_failed rfl,
        ⟨hfail _ (by rw [hreach]) rfl, rfl⟩, rfl⟩
  | principal c =>
    refine ⟨_, _, a.after (.principal c) a.ledger, rfl, ⟨h.shows, ?_, ?_, h.running⟩, rfl, rfl⟩
    · rw [issued_note, Account.ledger_after, h.issued]
      simp [issued, Exchange.issued?]
    · simp [note, h.made]

theorem mem_exchanges_reach {c : Call} {x : c.Answer} (h : (w.reach c).1 = some x) :
    ⟨c, x⟩ ∈ (w.reach c).2.exchanges := by
  rw [reach] at h ⊢
  rcases hq : w.world.answer c with ⟨_ | y, world⟩ <;> rw [hq] at h
  · cases h
  · cases h
    exact List.mem_append_right _ (List.mem_singleton_self _)

/-- Every operation is answered as it can be on the account. -/
theorem handle_step (h : w.Follows before a) {op : Op}
    (hcancel : ∀ n, (w.world.cancelled || d.cancelled n) = true → k.mayCancel)
    (hspent : (w.handle d op).2.spent = false)
    (hfail : ∀ x ∈ (w.handle d op).2.exchanges, x.failed = true → k.mayFail x.call) :
    ∃ x v b, w.handle d op = (some x, v) ∧ v.Follows before b ∧ a.Step k op x b ∧
      v.world.cancelled = w.world.cancelled := by
  cases op with
  | call c =>
    cases hq : (d.fault w.exchanges.length).bind (refusal? c) with
    | some x =>
      obtain ⟨e, -, hrefusal⟩ := Option.bind_eq_some_iff.1 hq
      have hx : Exchange.failed ⟨c, x⟩ = true := failed_of_refusal? hrefusal
      have hanswer : w.handle d (.call c) = (some x, w.note c x) := by
        rw [handle, answer, hq]
      have hmay : k.mayFail c := by
        refine hfail ⟨c, x⟩ ?_ hx
        rw [hanswer]
        exact List.mem_append_right _ (List.mem_singleton_self _)
      refine ⟨x, _, a.after c a.ledger, hanswer, h.note_failed hx, ?_, rfl⟩
      rcases c with c | c | c
      · cases x with
        | error e => exact ⟨hmay, rfl⟩
        | ok v => cases hx
      · cases x with
        | error e => exact ⟨hmay, rfl⟩
        | ok v => cases hx
      · exact rfl
    | none =>
      have hanswer : w.handle d (.call c) = w.reach c := by
        rw [handle, answer, hq]
      rw [hanswer] at hspent hfail ⊢
      exact reach_step h c hspent fun x hx => hfail _ (mem_exchanges_reach hx)
  | log e => exact ⟨_, _, a, rfl, ⟨h.shows, h.issued, h.made, h.running⟩, rfl, rfl⟩
  | record e => exact ⟨_, _, a, rfl, ⟨h.shows, h.issued, h.made, h.running⟩, rfl, rfl⟩
  | poll =>
    exact ⟨_, _, a, rfl, ⟨h.shows, h.issued, h.made, h.running⟩, ⟨hcancel w.polls, rfl⟩, rfl⟩
  | claim =>
    refine ⟨!w.world.running, _, { a with running := true }, rfl,
      ⟨h.shows, h.issued, h.made, rfl⟩, ⟨?_, rfl⟩, rfl⟩
    rw [h.running]
  | release =>
    exact ⟨_, _, { a with running := false }, rfl, ⟨h.shows, h.issued, h.made, rfl⟩, rfl, rfl⟩

/-- A run that follows an account ends as some run of the program on the account does. -/
theorem execFrom_meets {p : Prog α} {Q : α → Account → Prop}
    (hp : p.Meets (Account.Step k) Q a) (h : w.Follows before a)
    (hcancel : ∀ n, (w.world.cancelled || d.cancelled n) = true → k.mayCancel)
    (hspent : (execFrom d held p w).2.spent = false)
    (hfail : ∀ x ∈ (execFrom d held p w).2.exchanges, x.failed = true → k.mayFail x.call) :
    ∃ y held' b, (execFrom d held p w).1 = some (y, held') ∧
      (execFrom d held p w).2.Follows before b ∧ Q y b ∧
        (execFrom d held p w).2.world.cancelled = w.world.cancelled := by
  induction p generalizing a w held with
  | done y => exact ⟨y, held, a, rfl, h, hp, rfl⟩
  | step op next ih =>
    have hgrows : (w.handle d op).2.Grows (execFrom d held (.step op next) w).2 := by
      rcases hq : w.handle d op with ⟨_ | x, v⟩
      · rw [execFrom_step_none hq]
        exact grows_execFrom d held _ v
      · rw [execFrom_step_some hq]
        exact grows_execFrom d _ _ v
    obtain ⟨x, v, b, hhandle, hfollows, hstep, hsame⟩ := handle_step h hcancel
      (Bool.eq_false_iff.2 fun hs => Bool.eq_false_iff.1 hspent (hgrows.2 hs))
      fun x hx => hfail x (hgrows.1.subset hx)
    rw [execFrom_step_some hhandle] at hspent hfail ⊢
    rw [← hsame] at hcancel ⊢
    exact ih x (hp x b hstep) hfollows hcancel hspent hfail
  | abandon => exact hp.elim

end Watch

namespace World

variable {α : Type} {d : Disturbance} {w : World} {k : Conditions} {a : Account}

theorem watch_eq (w : World) (d : Disturbance) (p : Prog α) :
    w.watch d p = ((Watch.execFrom d false p { world := w }).1.map Prod.fst,
      (Watch.execFrom d false p { world := w }).2) :=
  rfl

/-- An operation that nothing disturbs is answered as if nobody watched. -/
theorem handle_calm (u : Watch) (op : Op) :
    u.world.handle op = ((u.handle {} op).1, (u.handle {} op).2.world) := by
  cases op with
  | call c =>
    change u.world.answer c = ((u.reach c).1, (u.reach c).2.world)
    rw [Watch.reach]
    rcases u.world.answer c with ⟨_ | x, world⟩ <;> rfl
  | poll => simp [Watch.handle, handle]
  | log => rfl
  | record => rfl
  | claim => rfl
  | release => rfl

theorem execFrom_calm (held : Bool) (p : Prog α) (u : Watch) :
    (p.execFrom (m := StateM World) (fun op w => w.handle op) held).run u.world =
      ((Watch.execFrom {} held p u).1, (Watch.execFrom {} held p u).2.world) := by
  induction p generalizing held u with
  | done y => rfl
  | step op next ih =>
    rw [Prog.execFrom_step, StateT.run_bind]
    rcases hq : u.handle {} op with ⟨_ | x, v⟩
    · have hrun : StateT.run (m := Id) (fun w : World => w.handle op) u.world =
          pure (none, v.world) := by
        have := handle_calm u op
        rw [hq] at this
        exact this
      simp only [hrun, Watch.execFrom_step_none hq, Watch.execFrom_abandon]
      cases held <;> rfl
    · have hrun : StateT.run (m := Id) (fun w : World => w.handle op) u.world =
          pure (some x, v.world) := by
        have := handle_calm u op
        rw [hq] at this
        exact this
      simp only [hrun, Watch.execFrom_step_some hq]
      exact ih x _ v
  | abandon =>
    rw [Watch.execFrom_abandon]
    cases held <;> rfl

/-- Without disturbance a watched run is a run. -/
theorem watch_calm (w : World) (p : Prog α) :
    w.run p = ((w.watch {} p).1, (w.watch {} p).2.world) := by
  have h := execFrom_calm false p { world := w }
  rw [run, Prog.exec, StateT.run_bind]
  simp only [h]
  rfl

/-- A watched run in a world that keeps the ledger of an account ends as some run of the program on
the account does, if only those calls fail that may fail and no counter is exhausted. -/
theorem watch_meets {p : Prog α} {Q : α → Account → Prop} (hp : p.Meets (Account.Step k) Q a)
    (hshows : w.backend.Shows a.ledger) (hmade : a.made = []) (hrunning : a.running = w.running)
    (hcancel : ∀ n, (w.cancelled || d.cancelled n) = true → k.mayCancel)
    (hspent : (w.watch d p).2.spent = false)
    (hfail : ∀ x ∈ (w.watch d p).2.exchanges, x.failed = true → k.mayFail x.call) :
    ∃ y b, (w.watch d p).1 = some y ∧ (w.watch d p).2.Follows a.ledger.issued b ∧ Q y b ∧
      (w.watch d p).2.world.cancelled = w.cancelled := by
  have hfollows : Watch.Follows a.ledger.issued { world := w } a :=
    ⟨hshows, (List.append_nil _).symm, hmade, hrunning⟩
  rw [watch_eq] at hspent hfail ⊢
  obtain ⟨y, held, b, hresult, hb, hQ, hsame⟩ :=
    Watch.execFrom_meets hp hfollows hcancel hspent hfail
  exact ⟨y, b, by rw [hresult]; rfl, hb, hQ, hsame⟩

/-- The end of a watched run that nothing disturbs. -/
theorem watch_undisturbed {p : Prog α} {Q : α → Account → Prop}
    (hp : p.Meets (Account.Step .quiet) Q a) (hshows : w.backend.Shows a.ledger)
    (hmade : a.made = []) (hrunning : a.running = w.running) (hgo : w.cancelled = false)
    (h : (w.watch {} p).2.Undisturbed) :
    ∃ y b, (w.watch {} p).1 = some y ∧ (w.watch {} p).2.Follows a.ledger.issued b ∧ Q y b ∧
      (w.watch {} p).2.world.cancelled = w.cancelled := by
  refine watch_meets hp hshows hmade hrunning (fun n hn => ?_) h.spent fun x hx hfailed => ?_
  · simp [hgo] at hn
  · exact (List.any_eq_false.1 h.failed x hx hfailed).elim

end World

end AccessGroups
