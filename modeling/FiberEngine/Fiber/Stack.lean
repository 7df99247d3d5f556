/-
FiberEngine.Fiber.Stack — stack blocks and the allocators that hand them out.

An allocator is one of six kinds. `heap` takes any size but zero below a bound;
`guarded` rounds up to whole pages and keeps a count of what is out; `counting`
and `doubling` keep a tally of their calls, and `doubling` hands out twice what
was asked for; the last two always fail, each with an error of its own.

`grant` says what an allocator answers to a request, on sizes alone. A block is
told apart from all others of its thread by its base.
-/
import FiberEngine.Fiber.Error

namespace FiberEngine

/-- A stretch of memory for a stack. -/
structure Block where
  base : Nat
  size : Nat
  deriving DecidableEq, Repr

/-- The kinds of stack allocators. -/
inductive Allocator where
  | heap
  | guarded
  | counting
  | doubling
  | exhausted
  | refusing
  deriving DecidableEq, Repr

/-- The smallest stack a fiber may have. -/
def minStackSize : Nat :=
  64 * 1024

/-- The stack size used when nothing else says one. -/
def defaultStackSize : Nat :=
  1024 * 1024

/-- A page of memory. -/
def pageSize : Nat :=
  4096

/-- Sizes from here on cannot be mapped. -/
def addressSpace : Nat :=
  Nat.pow 2 48

/-- The greatest size there is. -/
def greatestSize : Nat :=
  Nat.pow 2 64 - 1

/-- Twice a size, or the greatest there is. -/
def doubled (size : Nat) : Nat :=
  min (2 * size) greatestSize

/-- The id that `refusing` complains about. -/
def refusedId : FiberId :=
  77

/-- A size rounded up to whole pages, at least one. -/
def wholePages (size : Nat) : Nat :=
  max 1 ((size + pageSize - 1) / pageSize) * pageSize

/-- A size that the heap can serve. -/
def heapGrant (size : Nat) : Except FiberError Nat :=
  if size = 0 ∨ addressSpace ≤ size then .error (.stackAlloc size) else .ok size

/-- The size of the block that an allocator hands out for a request. -/
def Allocator.grant (a : Allocator) (size : Nat) : Except FiberError Nat :=
  match a with
  | heap => heapGrant size
  | counting => heapGrant size
  | doubling => heapGrant (doubled size)
  | guarded =>
    if addressSpace ≤ wholePages size then .error (.stackAlloc size) else .ok (wholePages size)
  | exhausted => .error (.stackAlloc size)
  | refusing => .error (.noStack refusedId)

/-- The block of a fiber and the allocator it goes back to. -/
structure StackLease where
  block : Block
  allocator : Allocator
  deriving DecidableEq, Repr

/-- How often an allocator was asked for a block, and how often it got one back. -/
structure Tally where
  allocs : Nat
  deallocs : Nat
  deriving DecidableEq, Repr

/-- The diagnostic form of a block; its base is not shown. -/
def Block.debug (b : Block) : String :=
  FiberError.structured "StackBlock" [("base", "PTR"), ("size", toString b.size)]

end FiberEngine
