/-
FiberEngine.Process — what all threads share.

Fibers of all threads draw their ids from one counter and are counted together.
The tunables, the report hook and the trace belong to the process, and so does
the default size of stacks, which is bound to a tunable when it is first needed.
-/
import FiberEngine.Config.Registry
import FiberEngine.Trace

namespace FiberEngine

/-- How far the default stack size has been bound to its tunable. -/
inductive DefaultSize where
  /-- Nothing has needed it yet. -/
  | unbound
  /-- It is the value of the tunable. -/
  | bound
  /-- The tunable is of another kind, so that the built-in size is used. -/
  | unavailable
  /-- Binding it was left by a panic, and nothing can use it any more. -/
  | poisoned
  deriving DecidableEq, Repr

/-- A demonstration that is going on. -/
structure Program where
  output : Output
  counter : Nat
  /-- The first worker that ended by a panic. -/
  failed : Option String

structure Process where
  nextId : FiberId
  /-- How many fibers are alive. -/
  live : Nat
  registry : Config.Registry
  hook : ReportHook
  defaultSize : DefaultSize
  level : Option Level
  trace : Array Entry
  /-- Fibers of threads that have ended without releasing them. -/
  leaked : List Fiber
  program : Option Program
  /-- The process has been aborted. -/
  halted : Bool

namespace Process

/-- A fresh process. -/
def start (level : Option Level) (hook : ReportHook) : Process where
  nextId := 1
  live := 0
  registry := .empty
  hook
  defaultSize := .unbound
  level
  trace := #[]
  leaked := []
  program := none
  halted := false

end Process

end FiberEngine
