/-
FiberEngine.World.Step — one step of the thread that runs.

A step looks at the top frame only: it starts the next operation of a block, or
goes on in the way that the frame says. `settle` turns the outcome of an
operation into what the thread does next: it records an answer, lets a panic
unwind to the frame that stops it, or leaves a body with a value.

The operations of a demonstration are not recorded. An answer that is an error
is taken there for a panic.
-/
import FiberEngine.World.Request

namespace FiberEngine.World

/-- What a step leads to. -/
inductive Signal where
  /-- The thread goes on. -/
  | running
  /-- The thread's script has ended. -/
  | ended (e : Ending)
  /-- Another thread runs first. -/
  | started (child : Thread)

/-- Go on with other frames. -/
def goOn (w : World) (frames : List Frame) : World :=
  w.onThread fun t => t.goOn frames

/-! ## 1. Demonstrations -/

/-- The output of a demonstration as it is recorded. -/
def finalOutput (d : Demo) (o : Output) : Output :=
  if d.racing then
    let lines := (o.stdout.splitOn "\n").dropLast.mergeSort (fun a b => a ≤ b)
    { o with stdout := String.join (lines.map (· ++ "\n")) }
  else o

/-- End a demonstration: its task is released and its output recorded. -/
def endDemo (w : World) (d : Demo) (panic : Option Payload) : World :=
  let own := w.thread.slot? .own
  let w := (w.onThread fun t => t.clearSlot .own).release own.toList
  let o := w.process.program.elim ⟨"", ""⟩ Program.output
  let w := { w with process := { w.process with program := none } }
  w.emit (.completed (Op.demo d).name (.printed (finalOutput d o) panic))

/-! ## 2. Leaving frames -/

/-- Let a panic unwind to the innermost frame that stops it. -/
def unwind (w : World) (p : Payload) : World × Signal :=
  match w.thread.frames.dropWhile fun f => !f.stopsPanic with
  | .catching :: k =>
    ((w.goOn k).emit (.completed (Op.attempt []).name (.panicked p.text?)), .running)
  | .program d :: k => ((w.goOn k).endDemo d (some p), .running)
  | .task f tag keep :: _ => (w.finish f tag keep (.faulted p), .running)
  | _ => (w, .ended (.panicked p))

/-- Leave the whole body with a value. -/
def leave (w : World) (v : Datum) : World × Signal :=
  match w.thread.frames.dropWhile fun f => !f.isBase with
  | .task f tag keep :: _ => (w.finish f tag keep (.returned v), .running)
  | _ => (w, .ended .completed)

/-- Record the answer to an operation. -/
def conclude (w : World) (name : String) (r : Reply) : World × Signal :=
  match w.process.program with
  | none => (w.emit (.completed name r), .running)
  | some _ =>
    match r.complaint? with
    | none => (w, .running)
    | some e => w.unwind (.text (Demo.expectation name ++ ": " ++ e))

/-- What the thread does after an operation. -/
def settle (name : String) : World × Outcome → World × Signal
  | (w, .done r) => w.conclude name r
  | (w, .next) => (w, .running)
  | (w, .panicked p) => w.unwind p
  | (w, .left v) => w.leave v
  | (w, .aborted) => (w, .running)
  | (w, .started child) => (w, .started child)

/-! ## 3. Steps -/

def step (w : World) : World × Signal :=
  match w.thread.frames with
  | .ops [] :: k => (w.goOn k, .running)
  | .ops (op :: rest) :: k => settle op.name ((w.goOn (.ops rest :: k)).perform op)
  | .loop 0 _ :: k => (w.goOn k, .running)
  | .loop (n + 1) body :: k => (w.goOn (.ops body :: .loop n body :: k), .running)
  | .catching :: k => (w.goOn k).conclude (Op.attempt []).name .fine
  | .program d :: k => ((w.goOn k).endDemo d none, .running)
  | .waiting p :: k => settle p.name ((w.goOn k).carryOn p)
  | .task f tag keep :: _ => (w.finish f tag keep (.returned .null), .running)
  | .script :: _ => (w, .ended .completed)
  | [] => (w, .ended .completed)

/-! ## 4. The end of a thread -/

/-- Release the slots of the thread, in the order of their names. -/
def releaseSlots (w : World) : World :=
  let ids := w.thread.slots.map Prod.snd
  (w.onThread fun t => { t with slots := [] }).release ids

/-- Tear the thread down once its slots are released: it leaves its span and
gives up its main fiber. What is still alive will never be released. -/
def retire (w : World) : World :=
  let main := w.thread.main
  let w := w.onThread fun t => { t with span := none, main := none }
  let w := w.release main.toList
  { w with process := { w.process with leaked := w.process.leaked ++ w.thread.fibers } }

end FiberEngine.World
