import AccessGroups.Program.Basic
import AccessGroups.Service.Principals
import AccessGroups.Store.Backend

/-!
# A world that answers programs

Everything that a program can ask for, kept in one place: a store with its resources, a source of
principals, the sweep flag, a request for cancellation, the log and the metrics. Runs take no time.

## Main definitions

* `World`: the parts, with `World.handle`.
* `World.run`: running a program in a world.
-/

namespace AccessGroups

/-- The parts that programs ask for. -/
structure World where
  backend : Backend
  principals : Principals := {}
  /-- A run of the sweep holds the flag. -/
  running : Bool := false
  /-- Cancellation has been requested. -/
  cancelled : Bool := false
  /-- The events of the log, the last one first. -/
  log : List Event := []
  recorder : Recorder := {}

namespace World

/-- Add an event to the log. -/
def say (w : World) (e : Event) : World :=
  { w with log := e :: w.log }

/-- Answer a call. -/
def answer (w : World) : (c : Call) → Option c.Answer × World
  | .store c =>
    match w.backend.performStore c with
    | some (answer, backend) => (some answer, { w with backend })
    | none => (none, w)
  | .registry c =>
    let (answer, backend) := w.backend.performRegistry c
    (some answer, (w.backend.remarks c answer).foldl say { w with backend })
  | .principal c => (some (w.principals.perform c), w)

/-- Answer an operation. -/
def handle (w : World) : (op : Op) → Option op.Answer × World
  | .call c => w.answer c
  | .log e => (some (), w.say e)
  | .record e => (some (), { w with recorder := w.recorder.record (e.after .zero) })
  | .poll => (some w.cancelled, w)
  | .claim => (some !w.running, { w with running := true })
  | .release => (some (), { w with running := false })

/-- Run a program; there is no value if it is abandoned. -/
def run {α : Type} (w : World) (p : Prog α) : Option α × World :=
  (p.exec (m := StateM World) fun op w => w.handle op).run w

variable {α : Type} {w v : World}

@[simp] theorem run_done (w : World) (a : α) : w.run (.done a) = (some a, w) := rfl

/-- After the answer to a call the rest of the program is run. -/
theorem run_call {c : Call} {x : c.Answer} (next : c.Answer → Prog α)
    (h : w.answer c = (some x, v)) : w.run (.step (.call c) next) = v.run (next x) := by
  have hhandle : StateT.run (m := Id) (fun w : World => w.handle (.call c)) w =
      pure (some x, v) := h
  simp only [run, Prog.exec, Prog.execFrom_step, bind_assoc]
  rw [StateT.run_bind, hhandle]
  rfl

end World

end AccessGroups
