/-
FiberEngine.Machine — running a script from start to end.

A machine is the world of the thread that runs and the threads that wait for it,
innermost first: a thread that starts another one waits for its end. `step`
makes one step of the running thread and passes control between threads; `run`
steps until the script has ended or the process is aborted.

No run is longer than `budget`: every operation is performed at most as often as
the loops around it say, and a resumed fiber makes progress before it switches
back.
-/
import FiberEngine.World.Step

namespace FiberEngine

/-! ## 1. How long a script can run -/

/-- What a demonstration counts for. -/
def demoWeight : Nat :=
  400

mutual

/-- A bound on the steps that an operation leads to. -/
def Op.weight : Op → Nat
  | .loop times body => 4 + times * (4 + Op.weightAll body)
  | .attempt body => 8 + Op.weightAll body
  | .create _ _ _ body _ _ => 8 + Op.weightAll body
  | .reset _ _ body _ _ => 8 + Op.weightAll body
  | .thread _ body => 8 + Op.weightAll body
  | .entry _ _ body => 12 + Op.weightAll body
  | .demo _ => demoWeight
  | _ => 8

/-- A bound on the steps that a block leads to. -/
def Op.weightAll : List Op → Nat
  | [] => 1
  | op :: rest => op.weight + Op.weightAll rest

end

/-- A bound on the steps of a script. -/
def budget (script : List Op) : Nat :=
  Op.weightAll script + 8

/-! ## 2. The machine -/

structure Machine where
  world : World
  /-- Threads that wait for the end of the one they started. -/
  spawners : List Thread
  finished : Bool

namespace Machine

/-- The name of the first thread of a process. -/
def firstThread : String :=
  "main"

/-- A fresh process with a script to run. -/
def start (level : Option Level) (hook : ReportHook) (script : List Op) : Machine where
  world := ⟨.start level hook, .start none (some firstThread) none script⟩
  spawners := []
  finished := false

/-- End the script of the first thread. Its main fiber stays. -/
def finishFirst (m : Machine) (e : Ending) : Machine :=
  let w := match e with
    | .completed => m.world
    | .panicked p => m.world.emit (.panicked p.text?)
  let w := w.releaseSlots
  { m with world := w.emit (.finished w.process.live), finished := true }

/-- Tell a waiting thread how the one it started ended. -/
def hear (t : Thread) (e : Ending) : Thread :=
  match t.frames with
  | .waiting (.join kind _) :: k => t.goOn (.waiting (.join kind (some e)) :: k)
  | _ => t

/-- End the running thread, and go on with the one that waits for it. -/
def finishThread (m : Machine) (e : Ending) : Machine :=
  match m.spawners with
  | [] => m.finishFirst e
  | parent :: rest =>
    let w := m.world.releaseSlots.retire
    { m with world := ⟨w.process, hear parent e⟩, spawners := rest }

/-- One step of the running thread. -/
def step (m : Machine) : Machine :=
  match m.world.step with
  | (w, .running) => { m with world := w }
  | (w, .ended e) => { m with world := w }.finishThread e
  | (w, .started child) =>
    { m with world := ⟨w.process, child⟩, spawners := w.thread :: m.spawners }

/-- Nothing happens any more. -/
def done (m : Machine) : Bool :=
  m.finished || m.world.process.halted

/-- At most so many steps. -/
def steps : Nat → Machine → Machine
  | 0, m => m
  | n + 1, m => if m.done then m else steps n m.step

end Machine

/-- The trace of a script in a fresh process. -/
def run (level : Option Level) (hook : ReportHook) (script : List Op) : List Entry :=
  ((Machine.start level hook script).steps (budget script)).world.process.trace.toList

end FiberEngine
