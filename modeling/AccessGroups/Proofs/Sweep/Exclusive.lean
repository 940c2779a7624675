import AccessGroups.Proofs.Program.Exclusion
import AccessGroups.Proofs.Sweep.Items

/-!
# One sweep at a time

Sweeps can begin at any time, also while another one waits for a call, and while the sweep that then
began waits for one. A sweep that finds the flag taken is skipped: it makes no call, and as it never
got the flag it does not give it back either, so that those that begin after it are skipped as well.
A sweep that got the flag gives it back before it ends, whether it is completed, cannot read the
rows, or is broken off within a call.

Every run is followed on its course, from mark to mark. That the run keeps to its course is known
from what its program asks for; that it gets the flag exactly if no other run is active, from the
flag itself.

## Main definitions

* `Sweep.Course`: how far a run has come, with `Sweep.Course.Goes` from mark to mark.
* `Sweep.Course.Meets`: what is left of the program of a run.
* `Sweep.Orderly`: the invariant of a crowd of sweeps.
* `Sweep.Exclusive`: what a history of sweeps is like.

## Main results

* `Sweep.Course.Meets.advances`: a run keeps to its course.
* `Sweep.Orderly.step`: one move keeps the invariant.
* `Sweep.exclusive_of_reaches`: at most one sweep runs at a time, however many there are.
-/

namespace AccessGroups

namespace Sweep

open Crowd Prog

/-- What a run of the sweep returns. -/
abbrev Result : Type :=
  Except ServiceError SweepOutcome

/-! ### The course of a run -/

/-- How far a run has come: it waits for its turn, it has found the flag taken, or it has got the
flag, made calls, given the flag back, and ended. -/
inductive Course where
  | waiting
  | skipping
  | skipped
  | holding (calls : List Call)
  | released (calls : List Call)
  | closed (calls : List Call) (result : Option Result) (h : result ≠ some (.ok .skipped))

namespace Course

variable {operator : UserId} {course course' : Course} {a b : Attempt Result} {w v : World}
  {m : Mark Result} {mark : Option (Mark Result)}

/-- All marks that the run has left. -/
def marks : Course → List (Mark Result)
  | .waiting => []
  | .skipping => [.claimed false]
  | .skipped => [.claimed false, .ended (some (.ok .skipped))]
  | .holding calls => .claimed true :: calls.map .called
  | .released calls => .claimed true :: calls.map .called ++ [.released]
  | .closed calls result _ => .claimed true :: calls.map .called ++ [.released, .ended result]

/-- The marks that lead on. -/
inductive Goes : Course → Mark Result → Course → Prop
  | claim : Goes .waiting (.claimed true) (.holding [])
  | refuse : Goes .waiting (.claimed false) .skipping
  | skip : Goes .skipping (.ended (some (.ok .skipped))) .skipped
  | call {calls : List Call} (c : Call) :
      Goes (.holding calls) (.called c) (.holding (calls ++ [c]))
  | release {calls : List Call} : Goes (.holding calls) .released (.released calls)
  | finish {calls : List Call} {result : Option Result} (h : result ≠ some (.ok .skipped)) :
      Goes (.released calls) (.ended result) (.closed calls result h)

theorem Goes.marks_eq (h : course.Goes m course') : course'.marks = course.marks ++ [m] := by
  cases h <;> simp [marks]

/-- A run is active while it holds the flag. -/
theorem active_iff {history : List (ℕ × Mark Result)} {i : ℕ}
    (h : marksOf history i = course.marks) :
    Active history i ↔ ∃ calls, course = .holding calls := by
  rw [Active, ← mem_marksOf, ← mem_marksOf, h]
  cases course <;> simp [marks]

/-- The end of a run that held the flag. -/
def giveBack (x : Result) : Prog Result :=
  Prog.perform .release >>= fun _ => pure x

/-- What a run that is skipped goes through. -/
def farewell : List (Prog Result) :=
  [do Prog.log .sweepRunning; Prog.perform (.record .skipped); return .ok .skipped,
    do Prog.perform (.record .skipped); return .ok .skipped,
    return .ok .skipped]

/-- What is left of a run that has come so far. -/
inductive Meets (operator : UserId) : Course → Attempt Result → Prop
  | waiting : Meets operator .waiting (.ready (runOnce operator) false)
  | skipping {rest : Prog Result} (h : rest ∈ farewell) :
      Meets operator .skipping (.ready rest false)
  | skipped : Meets operator .skipped .closed
  | holding {calls : List Call} {p : Prog Result} (h : p.Asks Op.KeepsFlag (· ≠ .ok .skipped)) :
      Meets operator (.holding calls) (.ready (p >>= giveBack) true)
  | calling {calls : List Call} {c : Call} {next : c.Answer → Prog Result}
      (h : ∀ x, (next x).Asks Op.KeepsFlag (· ≠ .ok .skipped)) :
      Meets operator (.holding calls) (.calling c (fun x => next x >>= giveBack) true)
  | released {calls : List Call} {rest : Prog Result}
      (h : rest.Asks (fun _ => False) (· ≠ .ok .skipped)) :
      Meets operator (.released calls) (.ready rest false)
  | closed {calls : List Call} {result : Option Result} (h : result ≠ some (.ok .skipped)) :
      Meets operator (.closed calls result h) .closed

/-- A run stays where it is on its course without a mark, and goes on with one. -/
def Advances (operator : UserId) (course : Course) (mark : Option (Mark Result))
    (b : Attempt Result) : Prop :=
  match mark with
  | none => course.Meets operator b
  | some m => ∃ course', course.Goes m course' ∧ course'.Meets operator b

theorem advances_waiting (h : (Attempt.ready (runOnce operator) false).Moves w mark b v) :
    waiting.Advances operator mark b := by
  have hclaim : runOnce operator = .step .claim fun taken =>
      if taken then runHolding operator >>= giveBack
      else do Prog.log .sweepRunning; Prog.perform (.record .skipped); return .ok .skipped := rfl
  rw [hclaim] at h
  cases h with
  | @perform _ _ _ _ _ taken _ _ _ =>
    cases taken with
    | true => exact ⟨_, .claim, .holding (asks_runHolding operator)⟩
    | false => exact ⟨_, .refuse, .skipping (.head _)⟩

theorem advances_skipping {rest : Prog Result} (hrest : rest ∈ farewell)
    (h : (Attempt.ready rest false).Moves w mark b v) : skipping.Advances operator mark b := by
  cases hrest with
  | head =>
    cases h with
    | perform => exact .skipping (.tail _ (.head _))
  | tail _ hrest =>
    cases hrest with
    | head =>
      cases h with
      | perform => exact .skipping (.tail _ (.tail _ (.head _)))
    | tail _ hrest =>
      obtain rfl := List.mem_singleton.1 hrest
      cases h with
      | finish => exact ⟨_, .skip, .skipped⟩

theorem advances_holding {calls : List Call} {p : Prog Result}
    (hp : p.Asks Op.KeepsFlag (· ≠ .ok .skipped))
    (h : (Attempt.ready (p >>= giveBack) true).Moves w mark b v) :
    (holding calls).Advances operator mark b := by
  -- the flag is given back only where the program ends, be it with a value or abandoned
  cases p with
  | done x =>
    have h : (Attempt.ready (.step .release fun _ => .done x) true).Moves w mark b v := h
    cases h with
    | perform => exact ⟨_, .release, .released hp⟩
  | abandon =>
    have h : (Attempt.ready (.abandon : Prog Result) true).Moves w mark b v := h
    cases h with
    | unwind => exact ⟨_, .release, .released trivial⟩
  | step op next =>
    have h : (Attempt.ready (.step op fun x => next x >>= giveBack) true).Moves w mark b v := h
    cases h with
    | @perform _ _ _ _ _ x hcall hpoll _ =>
      cases op with
      | log | record => exact .holding (hp.2 x)
      | call c => exact absurd rfl (hcall c)
      | poll => exact absurd rfl hpoll
      | claim | release => exact hp.1.elim
    | poll cancelled => exact .holding (hp.2 cancelled)
    | call => exact ⟨_, .call _, .calling hp.2⟩

theorem advances_calling {calls : List Call} {c : Call} {next : c.Answer → Prog Result}
    (hnext : ∀ x, (next x).Asks Op.KeepsFlag (· ≠ .ok .skipped))
    (h : (Attempt.calling c (fun x => next x >>= giveBack) true).Moves w mark b v) :
    (holding calls).Advances operator mark b := by
  cases h with
  | answer x => exact .holding (hnext x)
  | lose =>
    have habandon : (Prog.abandon : Prog Result) = .abandon >>= giveBack := rfl
    rw [habandon]
    exact .holding trivial

theorem advances_released {calls : List Call} {rest : Prog Result}
    (hrest : rest.Asks (fun _ => False) (· ≠ .ok .skipped))
    (h : (Attempt.ready rest false).Moves w mark b v) :
    (released calls).Advances operator mark b := by
  cases h with
  | perform => exact hrest.1.elim
  | poll => exact hrest.1.elim
  | call => exact hrest.1.elim
  | fail =>
    have hresult : (none : Option Result) ≠ some (.ok .skipped) := nofun
    exact ⟨_, .finish hresult, .closed hresult⟩
  | @finish x =>
    have hresult : some x ≠ some (.ok .skipped) := fun heq => hrest (Option.some.inj heq)
    exact ⟨_, .finish hresult, .closed hresult⟩

/-- A run keeps to its course. -/
theorem Meets.advances (h : course.Meets operator a) (hmove : a.Moves w mark b v) :
    course.Advances operator mark b := by
  cases h with
  | waiting => exact advances_waiting hmove
  | skipping h => exact advances_skipping h hmove
  | skipped => cases hmove
  | holding h => exact advances_holding h hmove
  | calling h => exact advances_calling h hmove
  | released h => exact advances_released h hmove
  | closed h => cases hmove

end Course

/-! ### Crowds of sweeps -/

variable {operator : UserId} {s t : Crowd Result}

/-- Every run keeps to its course, the flag is taken exactly if some run is active, and all that
happened fits to what happened before it. -/
structure Orderly (operator : UserId) (s : Crowd Result) : Prop where
  meets : ∀ i a, s.attempts[i]? = some a →
    ∃ course : Course, course.Meets operator a ∧ marksOf s.history i = course.marks
  beyond : ∀ i, s.attempts.length ≤ i → marksOf s.history i = []
  flag : s.world.running = true ↔ ∃ i, Active s.history i
  ordered : Ordered s.history

theorem orderly_start {w : World} (hfree : w.running = false) :
    Orderly operator { world := w } where
  meets i a h := by cases h
  beyond i _ := rfl
  flag := by
    rw [hfree]
    refine ⟨nofun, ?_⟩
    rintro ⟨i, hi, -⟩
    cases hi
  ordered := ordered_nil

namespace Orderly

variable {i : ℕ} {a b : Attempt Result} {course course' : Course} {m : Mark Result} {w : World}

/-- A mark fits if it leads on from where the run is, and the flag is turned as it should be. -/
theorem fits (h : Orderly operator s) (hmarks : marksOf s.history i = course.marks)
    (hgoes : course.Goes m course') (hturns : Attempt.Turns (some m) s.world.running w.running) :
    Fits s.history (i, m) := by
  have hactive := Course.active_iff hmarks
  have hfree : (!s.world.running) = true ↔ ∀ j, ¬ Active s.history j := by
    rw [← not_exists, ← h.flag, Bool.not_eq_true', Bool.not_eq_true]
  cases hgoes with
  | claim | refuse => exact hturns.1 ▸ hfree
  | call | release => exact hactive.2 ⟨_, rfl⟩
  | skip | finish => exact fun hi => nomatch hactive.1 hi

/-- The flag is taken exactly if some run is active, also after the mark. -/
theorem flag_concat (h : Orderly operator s) (hmarks : marksOf s.history i = course.marks)
    (hgoes : course.Goes m course') (hturns : Attempt.Turns (some m) s.world.running w.running) :
    w.running = true ↔ ∃ j, Active (s.history ++ [(i, m)]) j := by
  have hactive := Course.active_iff hmarks
  cases hgoes with
  | claim =>
    refine ⟨fun _ => ⟨i, active_concat_claimed.2 (.inr ⟨rfl, fun hreleased => ?_⟩)⟩,
      fun _ => hturns.2⟩
    rw [← mem_marksOf, hmarks] at hreleased
    cases hreleased
  | refuse =>
    have htaken : s.world.running = true := by simpa using hturns.1
    have htaken' : w.running = true ↔ ∃ j, Active s.history j :=
      ⟨fun _ => h.flag.1 htaken, fun _ => hturns.2⟩
    exact htaken'.trans (exists_active_concat_of_ne (by nofun) (by nofun)).symm
  | release =>
    rw [hturns]
    refine ⟨nofun, ?_⟩
    -- another active run would have been active before as well, next to this one
    rintro ⟨j, hj⟩
    rw [active_concat_released] at hj
    exact absurd (h.ordered.alone hj.1 (hactive.2 ⟨_, rfl⟩)) hj.2
  | call | skip | finish =>
    have hsame : w.running = s.world.running := hturns
    exact (hsame ▸ h.flag).trans (exists_active_concat_of_ne (by nofun) (by nofun)).symm

/-- A move of one run leaves the others where they are. -/
theorem meets_moved (h : Orderly operator s) (ha : s.attempts[i]? = some a)
    {mark : Option (Mark Result)} (hmeets : course.Meets operator b)
    (hmarks : marksOf (s.moved i mark b w).history i = course.marks) {j : ℕ} {c : Attempt Result}
    (hc : (s.moved i mark b w).attempts[j]? = some c) :
    ∃ course : Course, course.Meets operator c ∧
      marksOf (s.moved i mark b w).history j = course.marks := by
  by_cases hij : i = j
  · subst hij
    rw [getElem?_moved ha] at hc
    cases hc
    exact ⟨course, hmeets, hmarks⟩
  · have hsame : marksOf (s.moved i mark b w).history j = marksOf s.history j := by
      cases mark with
      | none => simp [moved]
      | some m => exact marksOf_concat_of_ne hij
    rw [hsame]
    refine h.meets j c ?_
    rw [← hc, moved, List.getElem?_set_ne hij]

/-- One move keeps the crowd orderly. -/
theorem step (h : Orderly operator s) (hstep : Step (runOnce operator) s t) :
    Orderly operator t := by
  cases hstep with
  | arrive =>
    refine ⟨fun i a ha => ?_, fun i hi => h.beyond i ?_, h.flag, h.ordered⟩
    · rcases Nat.lt_trichotomy i s.attempts.length with hi | rfl | hi
      · rw [List.getElem?_append_left hi] at ha
        exact h.meets i a ha
      · rw [List.getElem?_concat_length] at ha
        cases ha
        exact ⟨.waiting, .waiting, h.beyond _ (Nat.le_refl _)⟩
      · rw [List.getElem?_eq_none (by rw [List.length_append]; exact hi)] at ha
        cases ha
    · rw [List.length_append] at hi
      exact Nat.le_trans (Nat.le_add_right _ _) hi
  | change hrunning => exact ⟨h.meets, h.beyond, hrunning ▸ h.flag, h.ordered⟩
  | @move i a b mark v ha hmove =>
    obtain ⟨course, hmeets, hmarks⟩ := h.meets i a ha
    have hadvances := hmeets.advances hmove
    have hturns := hmove.turns
    have hlength : (s.moved i mark b v).attempts.length = s.attempts.length := List.length_set
    cases mark with
    | none =>
      have hsame : (s.moved i none b v).history = s.history := List.append_nil _
      refine ⟨fun j c hc => h.meets_moved ha hadvances (hsame ▸ hmarks) hc, fun j hj => ?_, ?_, ?_⟩
      · rw [hsame]
        exact h.beyond j (hlength ▸ hj)
      · have hrunning : v.running = s.world.running := hturns
        rw [hsame]
        exact hrunning ▸ h.flag
      · rw [hsame]
        exact h.ordered
    | some m =>
      obtain ⟨course', hgoes, hmeets'⟩ := hadvances
      have hmarks' : marksOf (s.moved i (some m) b v).history i = course'.marks := by
        rw [hgoes.marks_eq, ← hmarks]
        exact marksOf_concat_self
      refine ⟨fun j c hc => h.meets_moved ha hmeets' hmarks' hc, fun j hj => ?_,
        h.flag_concat hmarks hgoes hturns, h.ordered.concat (h.fits hmarks hgoes hturns)⟩
      rw [hlength] at hj
      have hi : i < s.attempts.length := (List.getElem?_eq_some_iff.1 ha).1
      have hne : i ≠ j := Nat.ne_of_lt (Nat.lt_of_lt_of_le hi hj)
      exact (marksOf_concat_of_ne hne).trans (h.beyond j hj)

/-- Any number of moves keep the crowd orderly. -/
theorem of_reaches (h : Orderly operator s) (hreaches : Reaches (runOnce operator) s t) :
    Orderly operator t := by
  induction hreaches with
  | refl => exact h
  | tail _ hstep ih => exact ih.step hstep

end Orderly

/-- At most one run at a time is active. The marks of every run are those of a course, and what
happens fits to what happened before it. -/
structure Exclusive (history : List (ℕ × Mark Result)) : Prop where
  ordered : Ordered history
  alone : ∀ before, before <+: history → ∀ i j, Active before i → Active before j → i = j
  apart : ∀ i j c d, i ≠ j → (i, .called c) ∈ history → (j, .called d) ∈ history →
    Precedes history i j ∨ Precedes history j i
  next : ∀ before i between j taken after,
    history = before ++ (i, .released) :: between ++ (j, .claimed taken) :: after →
      (∀ k taken, (k, .claimed taken) ∉ between) → taken = true
  course : ∀ i, ∃ course : Course, marksOf history i = course.marks

theorem Orderly.exclusive (h : Orderly operator s) : Exclusive s.history where
  ordered := h.ordered
  alone before hbefore i j hi hj := (h.ordered.of_prefix hbefore).alone hi hj
  apart i j c d hne hi hj := h.ordered.apart hne hi hj
  next before i between j taken after heq hbetween := h.ordered.next heq hbetween
  course i := by
    by_cases hi : i < s.attempts.length
    · obtain ⟨course, -, hmarks⟩ := h.meets i _ (List.getElem?_eq_getElem hi)
      exact ⟨course, hmarks⟩
    · exact ⟨.waiting, h.beyond i (Nat.le_of_not_lt hi)⟩

/-- A run that has come to its end has left the mark of it. -/
theorem Orderly.exists_ended {i : ℕ} (h : Orderly operator s)
    (hclosed : s.attempts[i]? = some .closed) : ∃ result, (i, .ended result) ∈ s.history := by
  obtain ⟨course, hmeets, hmarks⟩ := h.meets i .closed hclosed
  simp only [← mem_marksOf, hmarks]
  cases hmeets with
  | skipped => exact ⟨_, .tail _ (.head _)⟩
  | closed => exact ⟨_, List.mem_append_right _ (.tail _ (.head _))⟩

/-- A run that was refused the flag can only end as skipped. -/
theorem Exclusive.eq_skipped {history : List (ℕ × Mark Result)} {i : ℕ} {result : Option Result}
    (h : Exclusive history) (hrefused : (i, .claimed false) ∈ history)
    (hended : (i, .ended result) ∈ history) : result = some (.ok .skipped) := by
  obtain ⟨course, hmarks⟩ := h.course i
  rw [← mem_marksOf, hmarks] at hrefused hended
  cases course with
  | skipping => simp [Course.marks] at hended
  | skipped => simpa [Course.marks] using hended
  | waiting | holding | released | closed => simp [Course.marks] at hrefused

/-- **One sweep at a time.** Let any number of sweeps begin in a world whose flag is free, and go on
in any order, with any answers to their calls, some of which can be broken off. A sweep gets the
flag exactly if no other one is active, only active sweeps make calls, and those that make calls do
not overlap. A sweep that does not get the flag leaves no other mark than that it was skipped. One
that gets it gives it back before it ends, however it ends, and the next one that asks for it gets
it. Every sweep can come to its end without the others, and one that was refused the flag is skipped
then. -/
theorem exclusive_of_reaches (operator : UserId) {w : World} (hfree : w.running = false)
    {s : Crowd Result} (h : Reaches (runOnce operator) { world := w } s) :
    Exclusive s.history ∧
      ∀ i < s.attempts.length, (∀ result, (i, .ended result) ∉ s.history) →
        ∃ result v, s.EndsAlone (runOnce operator) i result v ∧
          ((i, .claimed false) ∈ s.history → result = some (.ok .skipped)) := by
  have horderly : Orderly operator s := (orderly_start hfree).of_reaches h
  refine ⟨horderly.exclusive, fun i hi hunended => ?_⟩
  have ha : s.attempts[i]? = some s.attempts[i] := List.getElem?_eq_getElem hi
  have hopen : s.attempts[i] ≠ .closed := fun hclosed => by
    obtain ⟨result, hended⟩ := horderly.exists_ended (hclosed ▸ ha)
    exact hunended result hended
  obtain ⟨result, v, hends⟩ := exists_endsAlone (p := runOnce operator) ha hopen
  refine ⟨result, v, hends, fun hrefused => ?_⟩
  obtain ⟨n, marks, hplay⟩ := hends
  have hexclusive := (horderly.of_reaches (reaches_play _ (List.replicate n (.go i)) s)).exclusive
  rw [hplay] at hexclusive
  exact hexclusive.eq_skipped (List.mem_append_left _ hrefused) (by simp)

/-- Two runs come and go while the first one waits for a call. The call is broken off, and then
another run gets the flag. -/
def collision : Crowd Result :=
  Crowd.play (runOnce ⟨7⟩)
    [.arrive, .go 0, .go 0, .go 0, .arrive, .go 1, .go 1, .go 1, .go 1, .arrive, .go 2, .go 2,
      .go 2, .go 2, .lose 0, .go 0, .go 0, .arrive, .go 3]
    { world := { backend := .memory {} {} } }

theorem exclusive_of_reaches_collision :
    collision.history = [(0, .claimed true), (0, .called (.store .findAll)), (1, .claimed false),
      (1, .ended (some (.ok .skipped))), (2, .claimed false),
      (2, .ended (some (.ok .skipped))), (0, .released), (0, .ended none),
      (3, .claimed true)] ∧ Exclusive collision.history :=
  ⟨rfl, (exclusive_of_reaches ⟨7⟩ rfl (reaches_play _ _ _)).1⟩

end Sweep

end AccessGroups
