/-
FiberEngine.World.Release — handles to fibers, and the end of a fiber.

A fiber lives as long as there is a strong handle to it. When the last one is
released, the fiber is destroyed: it is no longer counted, its stack goes back
to the allocator it came from, and a callback that it never entered is
destroyed. A callback owns handles of its own, which are released in turn, each
with all that follows from it before the next.

`release` follows these consequences to their end. Each round either destroys a
fiber, and there is one fiber less, or it is done with one handle.
-/
import FiberEngine.World.Basic

namespace FiberEngine.World

/-- Give a block back to an allocator. -/
def deallocate (w : World) (a : Allocator) (b : Block) : World :=
  match a with
  | .heap | .exhausted | .refusing => w
  | .guarded => w.onThread fun t => { t with guarded := t.guarded.filter (· != b.base) }
  | .counting =>
    (w.onThread fun t =>
      { t with counting := { t.counting with deallocs := t.counting.deallocs + 1 } }).emit
        (.deallocated b.size)
  | .doubling =>
    (w.onThread fun t =>
      { t with doubling := { t.doubling with deallocs := t.doubling.deallocs + 1 } }).emit
        (.deallocated b.size)

/-- Record the end of a callback that carries a tag. -/
def dropTag (w : World) (tag : Option String) : World :=
  match tag with
  | some tag => w.emit (.dropped tag)
  | none => w

/-- One fiber less is alive. -/
def uncount (w : World) : World :=
  { w with process := { w.process with live := w.process.live - 1 } }

/-- Give the stack of a fiber back, or forget it as the main fiber, and log that
it is no more. -/
def dismantle (w : World) (f : Fiber) : World :=
  match f.lease with
  | some lease =>
    (w.deallocate lease.allocator lease.block).log (.fiberDestroyed f.id f.state)
  | none =>
    (w.onThread fun t => if t.current = some f.id then { t with current := none } else t).log
      (.mainDestroyed f.id)

/-- Destroy a fiber that has no handle left. What remains to be released are the
handles of the callback that it never entered. -/
def destroy (w : World) (f : Fiber) : World × List FiberId :=
  let w := (w.onThread fun t => t.erase f.id).uncount
  match f.destructionFault? with
  | some message => (w.fatalInside message, [])
  | none =>
    match f.pending with
    | some cb => ((w.dismantle f).dropTag cb.tag, cb.keep)
    | none => (w.dismantle f, [])

/-! ## Destroying a fiber leaves one less -/

theorem emit_thread (w : World) (e : Event) : (w.emit e).thread = w.thread := by
  unfold emit
  split <;> rfl

theorem log_thread (w : World) (n : Notice) : (w.log n).thread = w.thread := by
  unfold log
  split
  · exact emit_thread ..
  · rfl

theorem report_thread (w : World) (text : String) : (w.report text).1.thread = w.thread := by
  unfold report
  split
  · exact log_thread ..
  · exact emit_thread ..
  · rfl

theorem reportFatal_thread (w : World) (message : String) :
    (w.reportFatal message).1.thread = w.thread := by
  unfold reportFatal
  split
  · rfl
  · exact report_thread ..

theorem abort_thread (w : World) : w.abort.thread = w.thread := by
  unfold abort
  simp only [emit_thread]
  split
  · exact emit_thread ..
  · rfl

theorem fatalInside_thread (w : World) (message : String) :
    (w.fatalInside message).thread = w.thread := by
  rw [fatalInside, abort_thread, reportFatal_thread]

theorem deallocate_fibers (w : World) (a : Allocator) (b : Block) :
    (w.deallocate a b).thread.fibers = w.thread.fibers := by
  cases a <;> simp [deallocate, emit_thread, onThread]

theorem dropTag_thread (w : World) (tag : Option String) :
    (w.dropTag tag).thread = w.thread := by
  cases tag
  · rfl
  · exact emit_thread ..

theorem dismantle_fibers (w : World) (f : Fiber) :
    (w.dismantle f).thread.fibers = w.thread.fibers := by
  unfold dismantle
  split
  · rw [log_thread, deallocate_fibers]
  · rw [log_thread]
    simp only [onThread]
    split <;> rfl

theorem destroy_fibers (w : World) (f : Fiber) :
    (w.destroy f).1.thread.fibers = (w.thread.erase f.id).fibers := by
  unfold destroy
  simp only
  split
  · rw [fatalInside_thread]; rfl
  · split
    · rw [dropTag_thread, dismantle_fibers]; rfl
    · rw [dismantle_fibers]; rfl

/-! ## Releasing handles -/

/-- Release handles, first to last, each with all that follows from it. -/
def release (w : World) : List FiberId → World
  | [] => w
  | id :: rest =>
    match _h : w.thread.fiber? id with
    | none => release w rest
    | some f =>
      if f.handles ≤ 1 then
        let destroyed := w.destroy f
        release destroyed.1 (destroyed.2 ++ rest)
      else
        release (w.onThread fun t => t.update id fun f => { f with handles := f.handles - 1 }) rest
termination_by ids => (w.thread.fibers.length, ids.length)
decreasing_by
  · exact Prod.Lex.right _ (by simp)
  · apply Prod.Lex.left
    rw [destroy_fibers]
    have same : f.id = id := by simpa using List.find?_some _h
    rw [same]
    exact Thread.length_erase_lt _h
  · have same : (w.onThread fun t => t.update id fun f =>
        { f with handles := f.handles - 1 }).thread.fibers.length = w.thread.fibers.length :=
      Thread.length_update ..
    rw [same]
    exact Prod.Lex.right _ (by simp)

/-! ### One handle at a time -/

section

variable {w : World} {id : FiberId} {f : Fiber}

theorem release_of_none (missing : w.thread.fiber? id = none) (rest : List FiberId) :
    w.release (id :: rest) = w.release rest := by
  rw [release]
  split
  · rfl
  · simp_all

/-- The last handle to a fiber is its end. -/
theorem release_of_last (found : w.thread.fiber? id = some f) (last : f.handles ≤ 1)
    (rest : List FiberId) :
    w.release (id :: rest) = (w.destroy f).1.release ((w.destroy f).2 ++ rest) := by
  rw [release]
  split
  · simp_all
  · rename_i g found'
    obtain rfl : f = g := Option.some.inj (found.symm.trans found')
    rw [if_pos last]

theorem release_of_more (found : w.thread.fiber? id = some f) (more : ¬ f.handles ≤ 1)
    (rest : List FiberId) :
    w.release (id :: rest) =
      (w.onThread fun t => t.update id fun f => { f with handles := f.handles - 1 }).release
        rest := by
  rw [release]
  split
  · simp_all
  · rename_i g found'
    obtain rfl : f = g := Option.some.inj (found.symm.trans found')
    rw [if_neg more]

end

/-- Destroy a callback: its tag is recorded, then its handles are released. -/
def dropCallback (w : World) (tag : Option String) (keep : List FiberId) : World :=
  (w.dropTag tag).release keep

end FiberEngine.World
