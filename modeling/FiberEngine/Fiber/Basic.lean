/-
FiberEngine.Fiber.Basic — a fiber, and the suspended code that it stands for.

Code that is not running is a list of frames, innermost first. A frame says how
to go on once the frames above it are done: with the rest of a block, with the
next round of a loop, by leaving a caught block, by answering an operation that
had to wait, or by ending the callback, the script or the demonstration that
the frames belong to.

A task fiber has a stack, a context that says where to go on when it is resumed,
and, before its first round, a callback. A main fiber stands for the code of its
thread: it has no stack, and a context only while a task runs.
-/
import FiberEngine.Script

namespace FiberEngine

/-! ## 1. Callbacks and frames -/

/-- The code of a fiber, with the handles it owns. -/
structure Callback where
  body : List Op
  tag : Option String
  keep : List FiberId

/-- How the code of a thread ended. -/
inductive Ending where
  | completed
  | panicked (p : Payload)
  deriving DecidableEq, Repr

/-- The payload of a panic that ended the code. -/
def Ending.panic? : Ending → Option Payload
  | completed => none
  | panicked p => some p

/-- An operation that waits for a switch back or for the end of a thread. -/
inductive Pending where
  | resume (m : Manner) (f : FiberId)
  /-- A loop of resumes, of which `done` have been made. -/
  | drive (f : FiberId) (done max : Nat)
  /-- An entry function, with what its body has returned so far. -/
  | entry (size : Nat) (shape : EntryShape) (f : FiberId) (result : Option Datum)
  | pause (m : Manner) (f : FiberId)
  | park (p : Parking)
  | join (kind : ThreadKind) (ending : Option Ending)

namespace Pending

/-- The name under which the answer will be recorded. -/
def name : Pending → String
  | resume .trusted _ => "resume"
  | resume .checked _ => "try_resume"
  | drive _ _ _ => "drive"
  | entry .. => "entry"
  | pause .trusted _ => "yield"
  | pause .checked _ => "try_yield"
  | park .ready => "yield_ready"
  | park .hold => "yield_hold"
  | join (.engine _) _ => "thread"
  | join (.plain _) _ => "std_thread"

end Pending

/-- One way of going on. -/
inductive Frame where
  /-- The rest of a block. -/
  | ops (rest : List Op)
  /-- Rounds of a block that are still to come. -/
  | loop (times : Nat) (body : List Op)
  /-- The end of a caught block. -/
  | catching
  /-- The end of a demonstration. -/
  | program (d : Demo)
  /-- An operation that waits. -/
  | waiting (p : Pending)
  /-- The end of a fiber's callback, whose tag and handles are still to be released. -/
  | task (f : FiberId) (tag : Option String) (keep : List FiberId)
  /-- The end of a thread's script. -/
  | script

namespace Frame

/-- A panic goes no further than this frame. -/
def stopsPanic : Frame → Bool
  | catching | program _ | task .. | script => true
  | _ => false

/-- The end of a whole body. -/
def isBase : Frame → Bool
  | task .. | script => true
  | _ => false

end Frame

/-! ## 2. Fibers -/

/-- Where a fiber goes on when it is switched into. -/
inductive Context where
  /-- At the start of its callback. -/
  | fresh
  /-- Behind a switch that its code made. -/
  | suspended (frames : List Frame)
  /-- Behind the end of its callback, where no code is left. -/
  | spent

structure Fiber where
  id : FiberId
  lease : Option StackLease
  state : FiberState
  context : Option Context
  /-- The callback of a fiber that has not entered it yet. -/
  pending : Option Callback
  /-- How many strong handles to the fiber there are. -/
  handles : Nat

namespace Fiber

/-- A task fiber as it is created, with the one handle that its creator gets. -/
def task (id : FiberId) (lease : StackLease) (cb : Callback) : Fiber :=
  ⟨id, some lease, .init, some .fresh, some cb, 1⟩

/-- A main fiber as it is created, with the one handle that its thread keeps. -/
def main (id : FiberId) : Fiber :=
  ⟨id, none, .exec, none, none, 1⟩

def isMain (f : Fiber) : Bool :=
  f.lease.isNone

/-- The stack block of a task fiber. -/
def block? (f : Fiber) : Option Block :=
  f.lease.map StackLease.block

/-- The size of the stack of a task fiber. -/
def stackSize? (f : Fiber) : Option Nat :=
  f.block?.map Block.size

/-- Why a resume is turned away whoever asks. -/
def resumeRefusal? (f : Fiber) : Option FiberError :=
  if f.state.canResume then none else some (.invalidState "resume" f.id f.state)

/-- Why the fiber cannot suspend itself when the given fiber is running. -/
def yieldRefusal? (f : Fiber) (current : FiberId) : Option FiberError :=
  if !f.state.canYield then some (.invalidState "yield" f.id f.state)
  else if f.isMain then some (.mainFiberYield f.id)
  else if current ≠ f.id then some (.notRunning f.id current)
  else none

/-- Why the fiber cannot be bound to a new callback. -/
def resetRefusal? (f : Fiber) : Option FiberError :=
  if f.isMain then some (.noStack f.id)
  else if f.state.canReset then none
  else some (.invalidState "reset" f.id f.state)

/-- The assertion that fails if the fiber is destroyed as it is. -/
def destructionFault? (f : Fiber) : Option String :=
  if f.isMain then
    if f.pending.isSome then some ("main fiber " ++ toString f.id ++ " holds a callback")
    else match f.state with
      | .exec | .ready | .hold => none
      | s => some ("dropping main fiber " ++ toString f.id ++ " while it is " ++ s.label)
  else match f.state with
    | .exec => some ("dropping fiber " ++ toString f.id ++ " while it is " ++ f.state.label)
    | _ => none

end Fiber

/-- The diagnostic form of a fiber, from what is told about it. -/
def Fiber.debug (id : FiberId) (state : FiberState) (stack : Option Nat) : String :=
  let stackText := match stack with
    | none => "None"
    | some size =>
      "Some(" ++
        FiberError.structured "FiberStack" [("base", "PTR"), ("size", toString size)] ++ ")"
  FiberError.structured "Fiber"
    [("id", toString id), ("state", state.debug), ("stack", stackText)]

end FiberEngine
