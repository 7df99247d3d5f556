/-
FiberEngine.World.Basic — a thread in its process, and what it may do to both.

A `World` is the process together with the one thread that runs. Every request
is a function from worlds to worlds. This module holds the ones that all others
are built from: writing an entry, logging, reporting and ending by a fatal
report.

A report may not come back: a hook that panics unwinds through whoever reports,
also through a fatal report, which then does not end the process.
-/
import FiberEngine.Process
import FiberEngine.Report

namespace FiberEngine

structure World where
  process : Process
  thread : Thread

/-- What a request comes to. -/
inductive Outcome where
  /-- It is complete, with this answer. -/
  | done (r : Reply)
  /-- There is nothing to answer (yet): the thread goes on with its frames. -/
  | next
  /-- A panic leaves it. -/
  | panicked (p : Payload)
  /-- The body that it stands in is left with a value. -/
  | left (v : Datum)
  /-- The process has ended. -/
  | aborted
  /-- A thread is started, and the request waits for its end. -/
  | started (child : Thread)

namespace World

/-! ## 1. Writing entries -/

/-- Write an entry. A process that has been aborted writes none. -/
def emit (w : World) (e : Event) : World :=
  if w.process.halted then w
  else
    { w with process := { w.process with trace := w.process.trace.push ⟨w.thread, e⟩ } }

/-- The span of a log entry: the log knows spans from level `debug` on. -/
def span? (w : World) : Option String :=
  if Level.admits w.process.level .debug then w.thread.span else none

/-- Log an event, if the log takes events of its level. -/
def log (w : World) (n : Notice) : World :=
  if Level.admits w.process.level n.level then w.emit (.logged n w.span?) else w

/-! ## 2. Demonstrations -/

/-- Change what is kept of the demonstration that is going on, if one is. -/
def onProgram (w : World) (change : Program → Program) : World :=
  { w with process := { w.process with program := w.process.program.map change } }

/-- Print to the output of the demonstration that is going on. -/
def print (w : World) (text : String) : World :=
  w.onProgram fun p => { p with output := { p.output with stdout := p.output.stdout ++ text } }

/-- Print to the error output of the demonstration that is going on. -/
def printError (w : World) (text : String) : World :=
  w.onProgram fun p => { p with output := { p.output with stderr := p.output.stderr ++ text } }

/-! ## 3. Reports -/

/-- What a panicking hook panics with. -/
def hookPanic (tag : String) : Payload :=
  .text ("hook " ++ tag ++ " panics")

/-- Hand a text to the report hook. The payload is that of a hook that panicked. -/
def report (w : World) (text : String) : World × Option Payload :=
  match w.process.hook with
  | .sink => (w.log (.reported text), none)
  | .tagged tag panics =>
    (w.emit (.reported text tag), if panics then some (hookPanic tag) else none)
  | .output => (w.printError ("[report] " ++ text ++ "\n"), none)

/-- End the process here and now. What a demonstration has printed is kept. -/
def abort (w : World) : World :=
  let w := match w.process.program with
    | some p => w.emit (.output p.output)
    | none => w
  let w := w.emit .aborted
  { w with process := { w.process with halted := true } }

/-- Hand the text of a fatal report to the report hook. The error output takes
its recorded form. -/
def reportFatal (w : World) (message : String) : World × Option Payload :=
  match w.process.hook with
  | .output => (w.printError ("[report] " ++ recorded (fatalText message)), none)
  | _ => w.report (fatalText message)

/-- Report a violated contract and end the process, unless the hook panics. -/
def fatal (w : World) (message : String) : World × Outcome :=
  match w.reportFatal message with
  | (w, none) => (w.abort, .aborted)
  | (w, some p) => (w, .panicked p)

/-- A fatal report that is made where no panic can pass. -/
def fatalInside (w : World) (message : String) : World :=
  (w.reportFatal message).1.abort

/-! ## 4. The state of things -/

/-- Change the thread. -/
def onThread (w : World) (change : Thread → Thread) : World :=
  { w with thread := change w.thread }

/-- The state of a fiber of the thread. -/
def stateOf (w : World) (id : FiberId) : FiberState :=
  match w.thread.fiber? id with
  | some f => f.state
  | none => .term

end World

end FiberEngine
