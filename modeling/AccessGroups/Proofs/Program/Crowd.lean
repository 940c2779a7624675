import AccessGroups.Proofs.Program.Stateful
import AccessGroups.Program.World
import Mathlib.Logic.Relation

/-!
# Runs in any number

Any number of runs of one program go on in one world at the same time, and any of them may make the
next move. A call takes two moves, so that other runs can begin, go on and end while one waits for
the answer, and while it does others again. The answer can be any; if the call is broken off there
is none, and the run is abandoned. The flag belongs to the runs. Everything else in the world can
change at any time.

## Main definitions

* `Attempt`: a run under way, with `Attempt.Moves`.
* `Mark`: what a run does to the flag, the calls it makes, and its end.
* `Crowd`: the runs with what happened so far.
* `Crowd.Step`, `Crowd.Reaches`: one move, and any number of them.
* `Crowd.play`: moves in a given order, with the answers of the world.

## Main results

* `Crowd.reaches_play`: moves in a given order are moves.
* `Crowd.endsAlone`: a run that goes on alone ends as the program does.
-/

namespace AccessGroups

/-- What a run does to the flag, a call that it makes, and its end. -/
inductive Mark (α : Type) where
  | claimed (taken : Bool)
  | released
  | called (c : Call)
  | ended (result : Option α)
  deriving DecidableEq

/-- What answering an operation does to the flag. -/
def Op.mark? {α : Type} : (op : Op) → op.Answer → Option (Mark α)
  | .claim, taken => some (.claimed taken)
  | .release, _ => some .released
  | _, _ => none

/-- A run that can go on, waits for a call, or has ended. It may hold the flag. -/
inductive Attempt (α : Type) where
  | ready (rest : Prog α) (held : Bool)
  | calling (c : Call) (next : c.Answer → Prog α) (held : Bool)
  | closed

namespace Attempt

variable {α : Type}

/-- One move of a run, which changes the world and can leave a mark. -/
inductive Moves : Attempt α → World → Option (Mark α) → Attempt α → World → Prop
  | perform {op : Op} {next : op.Answer → Prog α} {held : Bool} {w v : World} {x : op.Answer}
      (hcall : ∀ c, op ≠ .call c) (hpoll : op ≠ .poll) (h : w.handle op = (some x, v)) :
      Moves (.ready (.step op next) held) w (op.mark? x) (.ready (next x) (op.holds x held)) v
  | poll {next : Bool → Prog α} {held : Bool} {w : World} (cancelled : Bool) :
      Moves (.ready (.step .poll next) held) w none (.ready (next cancelled) held) w
  | call {c : Call} {next : c.Answer → Prog α} {held : Bool} {w : World} :
      Moves (.ready (.step (.call c) next) held) w (some (.called c)) (.calling c next held) w
  | answer {c : Call} {next : c.Answer → Prog α} {held : Bool} {w v : World} (x : c.Answer)
      (h : v.running = w.running) : Moves (.calling c next held) w none (.ready (next x) held) v
  /-- The call panics, or the run is dropped while it waits. -/
  | lose {c : Call} {next : c.Answer → Prog α} {held : Bool} {w v : World}
      (h : v.running = w.running) : Moves (.calling c next held) w none (.ready .abandon held) v
  /-- A run that is abandoned gives the flag back if it holds it. -/
  | unwind {w : World} : Moves (.ready .abandon true) w (some .released) (.ready .abandon false)
      (w.handle .release).2
  | fail {w : World} : Moves (.ready .abandon false) w (some (.ended none)) .closed w
  | finish {x : α} {held : Bool} {w : World} :
      Moves (.ready (.done x) held) w (some (.ended (some x))) .closed w

/-- The next move of a run with the answers of the world. -/
def next? : Attempt α → World → Option (Option (Mark α) × Attempt α × World)
  | .ready (.done x) _, w => some (some (.ended (some x)), .closed, w)
  | .ready .abandon true, w => some (some .released, .ready .abandon false, (w.handle .release).2)
  | .ready .abandon false, w => some (some (.ended none), .closed, w)
  | .ready (.step (.call c) next) held, w => some (some (.called c), .calling c next held, w)
  | .ready (.step op next) held, w =>
    match w.handle op with
    | (some x, v) => some (op.mark? x, .ready (next x) (op.holds x held), v)
    | (none, _) => none
  | .calling c next held, w =>
    match w.answer c with
    | (some x, v) => some (none, .ready (next x) held, v)
    | (none, v) => some (none, .ready .abandon held, v)
  | .closed, _ => none

/-- How a move changes the flag, given the mark that it leaves. -/
def Turns : Option (Mark α) → Bool → Bool → Prop
  | some (.claimed taken), running, running' => (taken = !running) ∧ running' = true
  | some .released, _, running' => running' = false
  | _, running, running' => running' = running

theorem Moves.turns {a b : Attempt α} {w v : World} {mark : Option (Mark α)}
    (h : a.Moves w mark b v) : Turns mark w.running v.running := by
  cases h with
  | @perform op next held w v x hcall hpoll h =>
    cases op with
    | call c => exact absurd rfl (hcall c)
    | poll => exact absurd rfl hpoll
    | claim =>
      cases h
      exact ⟨rfl, rfl⟩
    | log | record | release =>
      cases h
      rfl
  | answer x h => exact h
  | lose h => exact h
  | poll | call | unwind | fail | finish => rfl

end Attempt

/-- The runs, in the order in which they arrived, in their world, with the marks that they left and
which of them did. -/
structure Crowd (α : Type) where
  world : World
  attempts : List (Attempt α) := []
  history : List (Nat × Mark α) := []

namespace Crowd

variable {α : Type}

/-- The crowd after a move of a run. -/
def moved (s : Crowd α) (i : Nat) (mark : Option (Mark α)) (b : Attempt α) (v : World) :
    Crowd α where
  world := v
  attempts := s.attempts.set i b
  history := s.history ++ mark.toList.map fun m => (i, m)

theorem getElem?_moved {s : Crowd α} {i : Nat} {a b : Attempt α} {mark : Option (Mark α)}
    {v : World} (h : s.attempts[i]? = some a) : (s.moved i mark b v).attempts[i]? = some b := by
  obtain ⟨hi, -⟩ := List.getElem?_eq_some_iff.1 h
  exact List.getElem?_set_self hi

/-- One move in a crowd of runs of a program. -/
inductive Step (p : Prog α) : Crowd α → Crowd α → Prop
  | arrive {s : Crowd α} : Step p s { s with attempts := s.attempts ++ [.ready p false] }
  | move {s : Crowd α} {i : Nat} {a b : Attempt α} {mark : Option (Mark α)} {v : World}
      (ha : s.attempts[i]? = some a) (h : a.Moves s.world mark b v) : Step p s (s.moved i mark b v)
  /-- Something changes that is not the flag. -/
  | change {s : Crowd α} {v : World} (h : v.running = s.world.running) :
      Step p s { s with world := v }

/-- Any number of moves. -/
abbrev Reaches (p : Prog α) : Crowd α → Crowd α → Prop :=
  Relation.ReflTransGen (Step p)

/-! ### Moves in a given order -/

/-- Whose turn it is: a new run arrives, a run makes its next move, or its call is broken off. -/
inductive Turn where
  | arrive
  | go (i : Nat)
  | lose (i : Nat)

/-- Take a turn; a run that cannot do so does nothing. -/
def turn (p : Prog α) (s : Crowd α) : Turn → Crowd α
  | .arrive => { s with attempts := s.attempts ++ [.ready p false] }
  | .go i =>
    match s.attempts[i]?.bind fun a => a.next? s.world with
    | some (mark, b, v) => s.moved i mark b v
    | none => s
  | .lose i =>
    match s.attempts[i]? with
    | some (.calling _ _ held) => s.moved i none (.ready .abandon held) s.world
    | _ => s

/-- Take turns. -/
def play (p : Prog α) (turns : List Turn) (s : Crowd α) : Crowd α :=
  turns.foldl (turn p) s

end Crowd

theorem Attempt.next?_of_answer {α : Type} {c : Call} {next : c.Answer → Prog α} {held : Bool}
    {w v : World} {x : c.Answer} (h : w.answer c = (some x, v)) :
    (Attempt.calling c next held).next? w = some (none, .ready (next x) held, v) := by
  rw [next?, h]

theorem Attempt.next?_of_no_answer {α : Type} {c : Call} {next : c.Answer → Prog α} {held : Bool}
    {w v : World} (h : w.answer c = (none, v)) :
    (Attempt.calling c next held).next? w = some (none, .ready .abandon held, v) := by
  rw [next?, h]

/-- A call does not touch the flag. -/
theorem World.running_answer (w : World) (c : Call) : (w.answer c).2.running = w.running := by
  have hsay (events : List Event) (w : World) : (events.foldl World.say w).running = w.running := by
    induction events generalizing w with
    | nil => rfl
    | cons e events ih => exact ih _
  cases c with
  | store c =>
    rw [answer]
    cases w.backend.performStore c with
    | none => rfl
    | some x => rfl
  | registry c => exact hsay _ _
  | principal c => rfl

theorem Attempt.moves_of_next? {α : Type} {a b : Attempt α} {w v : World} {mark : Option (Mark α)}
    (h : a.next? w = some (mark, b, v)) : a.Moves w mark b v := by
  cases a with
  | closed => cases h
  | calling c next held =>
    have hrunning := w.running_answer c
    rw [next?] at h
    rcases hanswer : w.answer c with ⟨_ | x, u⟩
    · rw [hanswer] at h hrunning
      cases h
      exact .lose hrunning
    · rw [hanswer] at h hrunning
      cases h
      exact .answer x hrunning
  | ready rest held =>
    cases rest with
    | done x =>
      cases h
      exact .finish
    | abandon =>
      cases held with
      | false =>
        cases h
        exact .fail
      | true =>
        cases h
        exact .unwind
    | step op next =>
      cases op with
      | call c =>
        cases h
        exact .call
      | poll =>
        cases h
        exact .poll w.cancelled
      | log | record | claim | release =>
        cases h
        exact .perform (fun _ => nofun) nofun rfl

namespace Crowd

variable {α : Type} {p : Prog α} {s : Crowd α} {i : Nat} {a b : Attempt α} {w v : World}
  {mark : Option (Mark α)} {result : Option α}

theorem reaches_turn (p : Prog α) (s : Crowd α) (t : Turn) : Reaches p s (s.turn p t) := by
  cases t with
  | arrive => exact .single .arrive
  | go i =>
    rw [turn]
    split
    · next mark b v hnext =>
      obtain ⟨a, ha, hmove⟩ := Option.bind_eq_some_iff.1 hnext
      exact .single (.move ha (Attempt.moves_of_next? hmove))
    · exact .refl
  | lose i =>
    rw [turn]
    split
    · next ha => exact .single (.move ha (.lose rfl))
    · exact .refl

/-- Moves in a given order are moves. -/
theorem reaches_play (p : Prog α) (turns : List Turn) (s : Crowd α) :
    Reaches p s (s.play p turns) := by
  induction turns generalizing s with
  | nil => exact .refl
  | cons t turns ih => exact (reaches_turn p s t).trans (ih _)

/-! ### Runs that go on alone -/

/-- The run comes to its end if only it goes on, whatever the others are at. -/
def EndsAlone (p : Prog α) (i : Nat) (s : Crowd α) (result : Option α) (v : World) : Prop :=
  ∃ n marks, s.play p (List.replicate n (.go i)) =
    { world := v
      attempts := s.attempts.set i .closed
      history := s.history ++ (marks ++ [.ended result]).map fun m => (i, m) }

theorem EndsAlone.of_next? (ha : s.attempts[i]? = some a)
    (hnext : a.next? s.world = some (mark, b, w))
    (h : (s.moved i mark b w).EndsAlone p i result v) : s.EndsAlone p i result v := by
  have hturn : s.turn p (.go i) = s.moved i mark b w := by rw [turn, ha, Option.bind_some, hnext]
  obtain ⟨n, marks, hplay⟩ := h
  refine ⟨n + 1, mark.toList ++ marks, ?_⟩
  rw [List.replicate_succ, play, List.foldl_cons, hturn]
  refine hplay.trans ?_
  simp [moved]

theorem endsAlone_of_end (ha : s.attempts[i]? = some a)
    (hnext : a.next? s.world = some (some (.ended result), .closed, v)) :
    s.EndsAlone p i result v := by
  refine ⟨1, [], ?_⟩
  simp [play, turn, ha, hnext, moved]

theorem endsAlone_of_abandon {held : Bool} (h : s.attempts[i]? = some (.ready .abandon held)) :
    s.EndsAlone p i
      (((Prog.abandon : Prog α).runFrom (fun w op => w.handle op) held s.world).1.map Prod.fst)
      ((Prog.abandon : Prog α).runFrom (fun w op => w.handle op) held s.world).2 := by
  rw [Prog.runFrom_abandon]
  cases held with
  | false => exact endsAlone_of_end h rfl
  | true => exact .of_next? h rfl (endsAlone_of_end (getElem?_moved h) rfl)

/-- A run that goes on alone ends as the program does in the world. -/
theorem endsAlone (rest : Prog α) (held : Bool) (h : s.attempts[i]? = some (.ready rest held)) :
    s.EndsAlone p i ((rest.runFrom (fun w op => w.handle op) held s.world).1.map Prod.fst)
      (rest.runFrom (fun w op => w.handle op) held s.world).2 := by
  induction rest generalizing s held with
  | done x => exact endsAlone_of_end h rfl
  | abandon => exact endsAlone_of_abandon h
  | step op next ih =>
    cases op with
    | call c =>
      refine .of_next? h rfl ?_
      have hcalling : (s.moved i (some (.called c)) (.calling c next held) s.world).attempts[i]? =
          some (.calling c next held) := getElem?_moved h
      rcases hanswer : s.world.answer c with ⟨_ | x, v⟩
      · rw [Prog.runFrom_step_none hanswer]
        exact .of_next? hcalling (Attempt.next?_of_no_answer hanswer)
          (endsAlone_of_abandon (getElem?_moved hcalling))
      · rw [Prog.runFrom_step hanswer]
        exact .of_next? hcalling (Attempt.next?_of_answer hanswer)
          (ih x held (getElem?_moved hcalling))
    | poll | log | record | claim | release =>
      rw [Prog.runFrom_step rfl]
      exact .of_next? h rfl (ih _ _ (getElem?_moved h))

/-- Every run can come to its end without the others. -/
theorem exists_endsAlone (h : s.attempts[i]? = some a) (hopen : a ≠ .closed) :
    ∃ result v, s.EndsAlone p i result v := by
  cases a with
  | ready rest held => exact ⟨_, _, endsAlone rest held h⟩
  | calling c next held =>
    rcases hanswer : s.world.answer c with ⟨_ | x, v⟩
    · exact ⟨_, _, .of_next? h (Attempt.next?_of_no_answer hanswer)
        (endsAlone_of_abandon (getElem?_moved h))⟩
    · exact ⟨_, _, .of_next? h (Attempt.next?_of_answer hanswer)
        (endsAlone (next x) held (getElem?_moved h))⟩
  | closed => exact absurd rfl hopen

end Crowd

end AccessGroups
