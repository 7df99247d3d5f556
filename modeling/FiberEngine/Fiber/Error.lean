/-
FiberEngine.Fiber.Error — why a request on a fiber or its stack is refused.

Each cause carries the numbers its sentence needs. `message` is that sentence,
`debug` the structured form for a diagnostic.
-/
import FiberEngine.Fiber.State
import FiberEngine.Text.Quoted

namespace FiberEngine

inductive FiberError where
  /-- No memory for a stack of this size. -/
  | stackAlloc (size : Nat)
  /-- A stack below the smallest allowed size. -/
  | stackTooSmall (size min : Nat)
  /-- A call that the fiber's state does not allow. -/
  | invalidState (op : String) (id : FiberId) (state : FiberState)
  /-- A main fiber has no stack of its own. -/
  | noStack (id : FiberId)
  /-- Only a thread's main fiber may resume others. -/
  | notOnMainFiber (id current : FiberId)
  /-- Only the running fiber may yield. -/
  | notRunning (id current : FiberId)
  /-- A main fiber has nothing to yield to. -/
  | mainFiberYield (id : FiberId)
  /-- No suspension point is saved. -/
  | missingContext (id : FiberId)
  deriving DecidableEq, Repr

namespace FiberError

def message : FiberError → String
  | stackAlloc size => "failed to allocate a " ++ toString size ++ "-byte fiber stack"
  | stackTooSmall size min =>
    "requested stack size " ++ toString size ++ " is below the minimum of " ++ toString min ++
      " bytes"
  | invalidState op id state =>
    "cannot " ++ op ++ " fiber " ++ toString id ++ " in state " ++ state.label
  | noStack id => "fiber " ++ toString id ++ " owns no stack"
  | notOnMainFiber id current =>
    "fiber " ++ toString id ++ " can only be resumed from the main fiber, but fiber " ++
      toString current ++ " is running"
  | notRunning id current =>
    "fiber " ++ toString id ++ " cannot yield while fiber " ++ toString current ++ " is running"
  | mainFiberYield id => "the main fiber " ++ toString id ++ " cannot yield"
  | missingContext id => "fiber " ++ toString id ++ " has no saved execution context"

/-- A variant with fields, as a diagnostic shows it. -/
def structured (name : String) (fields : List (String × String)) : String :=
  name ++ " \x7b " ++ ", ".intercalate (fields.map fun f => f.1 ++ ": " ++ f.2) ++ " \x7d"

/-- The name of the cause. -/
def variant : FiberError → String
  | stackAlloc _ => "StackAlloc"
  | stackTooSmall _ _ => "StackTooSmall"
  | invalidState _ _ _ => "InvalidState"
  | noStack _ => "NoStack"
  | notOnMainFiber _ _ => "NotOnMainFiber"
  | notRunning _ _ => "NotRunning"
  | mainFiberYield _ => "MainFiberYield"
  | missingContext _ => "MissingContext"

/-- The named values of a cause. -/
def fields : FiberError → List (String × String)
  | stackAlloc size => [("size", toString size)]
  | stackTooSmall size min => [("size", toString size), ("min", toString min)]
  | invalidState op id state =>
    [("op", Text.quote op), ("id", toString id), ("state", state.debug)]
  | noStack id => [("id", toString id)]
  | notOnMainFiber id current => [("id", toString id), ("current", toString current)]
  | notRunning id current => [("id", toString id), ("current", toString current)]
  | mainFiberYield id => [("id", toString id)]
  | missingContext id => [("id", toString id)]

def debug (e : FiberError) : String :=
  structured e.variant e.fields

end FiberError

end FiberEngine
