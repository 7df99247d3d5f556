/-
FiberEngine.World.Create — where fibers come from.

A thread gets its main fiber when it first asks for its current fiber. A task
fiber needs a stack: its size is the one asked for, or the default; too small a
size is turned away before the allocator hears of it. A fiber that cannot be
created costs its callback, which is destroyed at once.

The default size is bound to the tunable `fiber.stack_size` when it is first
needed. When that is left by a panic of the report hook, no fiber of the default
size can be created any more.
-/
import FiberEngine.World.Release
import FiberEngine.World.Tunables

namespace FiberEngine.World

open Config (Value)

/-! ## 1. Handles -/

/-- Draw the next id for a fiber that is now alive. -/
def count (w : World) : World × FiberId :=
  ({ w with process :=
      { w.process with nextId := w.process.nextId + 1, live := w.process.live + 1 } },
    w.process.nextId)

/-- The current fiber; a thread without one gets its main fiber. -/
def currentFiber (w : World) : World × FiberId :=
  match w.thread.current with
  | some id => (w, id)
  | none =>
    match w.thread.main with
    | some id => (w.onThread fun t => { t with current := some id }, id)
    | none =>
      let (w, id) := w.count
      let w := w.log (.mainCreated id)
      (w.onThread fun t => { t.insert (Fiber.main id) with main := some id, current := some id },
        id)

/-- The fiber that a reference denotes. -/
def fetch (w : World) (f : FiberRef) : World × Option FiberId :=
  match f with
  | .slot name => (w, w.thread.slot? name)
  | .current =>
    let (w, id) := w.currentFiber
    (w, some id)

/-- Take one more handle to a fiber. -/
def hold (w : World) (id : FiberId) : World :=
  w.onThread fun t => t.hold id

/-- Take handles to the fibers that references denote; those that denote none
are passed over. -/
def holdAll (w : World) : List FiberRef → World × List FiberId
  | [] => (w, [])
  | f :: rest =>
    match w.fetch f with
    | (w, none) => holdAll w rest
    | (w, some id) =>
      let (w, ids) := holdAll (w.hold id) rest
      (w, id :: ids)

/-! ## 2. Stacks -/

/-- Record a call of an allocator that keeps a tally. -/
def recordAlloc (w : World) (a : Allocator) (size : Nat) : World :=
  match a with
  | .counting =>
    (w.onThread fun t =>
      { t with counting := { t.counting with allocs := t.counting.allocs + 1 } }).emit
        (.allocated size)
  | .doubling =>
    (w.onThread fun t =>
      { t with doubling := { t.doubling with allocs := t.doubling.allocs + 1 } }).emit
        (.allocated size)
  | _ => w

/-- Hand out a block of a size at a base that was never used before. -/
def handOut (w : World) (a : Allocator) (size : Nat) : World × Block :=
  let b := ⟨w.thread.nextBase, size⟩
  (w.onThread fun t =>
    { t with
      nextBase := t.nextBase + 1
      guarded := if a = .guarded then b.base :: t.guarded else t.guarded },
    b)

/-- Ask an allocator for a block. -/
def allocate (w : World) (a : Allocator) (size : Nat) : World × Except FiberError Block :=
  let w := w.recordAlloc a size
  match a.grant size with
  | .ok n =>
    let (w, b) := w.handOut a n
    (w, .ok b)
  | .error e => (if a = .guarded then w.log (.guardFailed size) else w, .error e)

/-- The tunable that the default stack size is bound to. -/
def stackSizeName : String :=
  "fiber.stack_size"

/-- The value under which that tunable is registered. -/
def stackSizeDefault : Value :=
  .integer .usize defaultStackSize usize_holds_defaultStackSize

/-- The size that a value stands for. -/
def sizeHeld (v : Value) : Nat :=
  match v with
  | .integer _ n _ => n.toNat
  | _ => defaultStackSize

/-- The number that the tunable holds. -/
def boundSize (w : World) : Nat :=
  match w.process.registry.find? stackSizeName with
  | some v => sizeHeld v.value
  | none => defaultStackSize

/-- Settle how the default stack size is found. -/
def withDefaultSize (w : World) (d : DefaultSize) : World :=
  { w with process := { w.process with defaultSize := d } }

/-- Bind the default stack size to its tunable. -/
def bindDefaultSize (w : World) : World × Except Payload Nat :=
  match w.lookup stackSizeName stackSizeDefault "fiber stack size" with
  | (w, .ok v) => (w.withDefaultSize .bound, .ok (sizeHeld v.value))
  | (w, .error e) =>
    let text := stackSizeName ++ " unavailable, using " ++ toString defaultStackSize ++ ": " ++
      e.message
    match w.report text with
    | (w, none) => (w.withDefaultSize .unavailable, .ok defaultStackSize)
    | (w, some p) => (w.withDefaultSize .poisoned, .error p)

/-- The size of a stack for which none, or zero, was asked. -/
def defaultSize (w : World) : World × Except Payload Nat :=
  match w.process.defaultSize with
  | .unbound => w.bindDefaultSize
  | .bound => (w, .ok w.boundSize)
  | .unavailable => (w, .ok defaultStackSize)
  | .poisoned => (w, .error (.text "LazyLock instance has previously been poisoned"))

/-- The size of a stack for which a size was asked; zero asks for the default. -/
def stackSize (w : World) (asked : Nat) : World × Except Payload Nat :=
  if asked = 0 then w.defaultSize else (w, .ok asked)

/-- Ask for the stack of a fiber. -/
def allocateStack (w : World) (a : Allocator) (size : Nat) : World × Except FiberError Block :=
  if size < minStackSize then (w, .error (.stackTooSmall size minStackSize))
  else w.allocate a size

/-! ## 3. Task fibers -/

/-- Why there is no new fiber. -/
inductive Refusal where
  | error (e : FiberError)
  | panic (p : Payload)

/-- Add a task fiber on a stack. -/
def insertTask (w : World) (a : Allocator) (b : Block) (asked : Nat) (cb : Callback) :
    World × FiberId :=
  let (w, id) := w.count
  let w := w.log (.fiberCreated id asked)
  (w.onThread fun t => t.insert (Fiber.task id ⟨b, a⟩ cb), id)

/-- Create a task fiber. The caller gets the first handle to it. -/
def createTask (w : World) (a : Allocator) (asked : Nat) (cb : Callback) :
    World × Except Refusal FiberId :=
  match w.stackSize asked with
  | (w, .error p) => (w.dropCallback cb.tag cb.keep, .error (.panic p))
  | (w, .ok size) =>
    match w.allocateStack a size with
    | (w, .error e) => (w.dropCallback cb.tag cb.keep, .error (.error e))
    | (w, .ok b) =>
      let (w, id) := w.insertTask a b size cb
      (w, .ok id)

end FiberEngine.World
