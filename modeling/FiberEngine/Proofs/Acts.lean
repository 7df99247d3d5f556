/-
FiberEngine.Proofs.Acts — what happens to fibers, callbacks and stack blocks.

An act is one thing that a run does, whether the log tells of it or not: a fiber
is created, switched into, switched out of, ended or destroyed; a callback is
bound to a fiber, turned away or destroyed; a block is handed out or given back.

One release of handles can destroy many fibers, each with its callback and its
stack. `World.fallout` lists the acts of a release, and `release_rounds` is the
induction on its rounds: a fiber dies with its last handle, or it has one handle
less.
-/
import FiberEngine.Proofs.Turns

namespace FiberEngine

/-! ## 1. Acts -/

/-- What happens to a fiber, a callback or a block. -/
inductive Act where
  | created (id : FiberId)
  /-- A task gets a block that is handed out for its stack, and its first callback. -/
  | equipped (id : FiberId) (lease : StackLease) (cb : Callback)
  /-- A task is bound to a callback, in place of one that it never entered, if
  there is one. -/
  | reset (id : FiberId) (cb : Callback) (old : Option Callback)
  | resumed (id : FiberId) (was : FiberState)
  | yielded (id : FiberId) (next : FiberState)
  /-- The callback that a task has entered is destroyed. -/
  | shed (id : FiberId) (tag : Option String) (keep : List FiberId)
  | ended (id : FiberId) (last : FiberState)
  | destroyed (id : FiberId) (last : FiberState)
  /-- The stack of a task that was destroyed is given back, while a fiber is current. -/
  | returned (id : FiberId) (lease : StackLease) (current : Option FiberId)
  /-- The callback that such a task never entered is destroyed. -/
  | abandoned (id : FiberId) (cb : Callback)
  /-- A callback that no fiber takes is destroyed. -/
  | refused (cb : Callback)
  /-- A block is handed out to the script itself. -/
  | granted (lease : StackLease)
  /-- The script itself gives a block back. -/
  | freed (lease : StackLease)

/-- The acts of the end of a fiber, while another fiber is current. -/
def Fiber.ending (f : Fiber) (current : Option FiberId) : List Act :=
  .destroyed f.id f.state ::
    ((f.lease.map fun lease => .returned f.id lease current).toList ++
      (f.pending.map fun cb => .abandoned f.id cb).toList)

/-! ## 2. The rounds of a release -/

namespace World

/-- The acts of a release, in the rounds of `release`. -/
def fallout (w : World) : List FiberId → List Act
  | [] => []
  | id :: rest =>
    match _h : w.thread.fiber? id with
    | none => fallout w rest
    | some f =>
      if f.handles ≤ 1 then
        let destroyed := w.destroy f
        f.ending w.thread.current ++ fallout destroyed.1 (destroyed.2 ++ rest)
      else
        fallout (w.onThread fun t => t.update id fun f => { f with handles := f.handles - 1 }) rest
termination_by ids => (w.thread.fibers.length, ids.length)
decreasing_by
  · exact Prod.Lex.right _ (by simp)
  · apply Prod.Lex.left
    rw [destroy_fibers, Thread.id_of_fiber? _h]
    exact Thread.length_erase_lt _h
  · have same : (w.onThread fun t => t.update id fun f =>
        { f with handles := f.handles - 1 }).thread.fibers.length = w.thread.fibers.length :=
      Thread.length_update ..
    rw [same]
    exact Prod.Lex.right _ (by simp)

/-- What every round of a release keeps holds at its end. -/
theorem release_rounds {P : World → List FiberId → List Act → Prop} (w : World)
    (ids : List FiberId) (acts : List Act) (start : P w ids acts)
    (missing : ∀ {w id rest acts}, P w (id :: rest) acts → w.thread.fiber? id = none →
      P w rest acts)
    (last : ∀ {w id rest acts f}, P w (id :: rest) acts → w.thread.fiber? id = some f →
      f.handles ≤ 1 → P (w.destroy f).1 ((w.destroy f).2 ++ rest)
        (acts ++ f.ending w.thread.current))
    (more : ∀ {w id rest acts f}, P w (id :: rest) acts → w.thread.fiber? id = some f →
      1 < f.handles →
      P (w.onThread fun t => t.update id fun f => { f with handles := f.handles - 1 }) rest acts) :
    P (w.release ids) [] (acts ++ w.fallout ids) := by
  suffices rounds : ∀ acts, P w ids acts → P (w.release ids) [] (acts ++ w.fallout ids) from
    rounds acts start
  clear start acts
  fun_induction World.release w ids with
  | case1 w =>
    intro acts start
    simpa [fallout] using start
  | case2 w id rest none ih =>
    intro acts start
    have same : w.fallout (id :: rest) = w.fallout rest := by
      rw [fallout]
      split
      · rfl
      · simp_all
    rw [same]
    exact ih acts (missing start none)
  | case3 w id rest f found one destroyed ih =>
    intro acts start
    have same : w.fallout (id :: rest) =
        f.ending w.thread.current ++ destroyed.1.fallout (destroyed.2 ++ rest) := by
      rw [fallout]
      split
      · simp_all
      · rename_i g found'
        obtain rfl : f = g := by simpa [found] using found'
        rw [if_pos one]
    rw [same, ← List.append_assoc]
    exact ih _ (last start found one)
  | case4 w id rest f found several ih =>
    intro acts start
    have same : w.fallout (id :: rest) = (w.onThread fun t =>
        t.update id fun f => { f with handles := f.handles - 1 }).fallout rest := by
      rw [fallout]
      split
      · simp_all
      · rename_i g found'
        obtain rfl : f = g := by simpa [found] using found'
        rw [if_neg several]
    rw [same]
    exact ih acts (more start found (Nat.lt_of_not_le several))

end World

/-! ## 3. The end of a fiber -/

/-- An allocator that records its calls. -/
def Allocator.tallies : Allocator → Bool
  | counting | doubling => true
  | _ => false

/-- A block goes back to an allocator of a thread. -/
def Thread.takeBack (t : Thread) (lease : StackLease) : Thread :=
  match lease.allocator with
  | .heap | .exhausted | .refusing => t
  | .guarded => { t with guarded := t.guarded.filter (· != lease.block.base) }
  | .counting => { t with counting := { t.counting with deallocs := t.counting.deallocs + 1 } }
  | .doubling => { t with doubling := { t.doubling with deallocs := t.doubling.deallocs + 1 } }

/-- A fiber that no code is on is destroyed without complaint. -/
theorem Fiber.destructionFault?_eq_none {f : Fiber} (onStack : f.lease ≠ none)
    (can : f.state.canReset) : f.destructionFault? = none := by
  have task : f.isMain = false := by
    rw [isMain, Option.isNone_eq_false_iff]
    exact Option.isSome_iff_ne_none.mpr onStack
  rw [destructionFault?, task]
  cases state : f.state <;> simp_all [FiberState.canReset]

namespace World

/-- Giving a block back changes the thread and may be recorded. -/
theorem deallocate_eq (w : World) (lease : StackLease) :
    w.deallocate lease.allocator lease.block =
      if lease.allocator.tallies then
        (w.onThread fun t => t.takeBack lease).emit (.deallocated lease.block.size)
      else w.onThread fun t => t.takeBack lease := by
  obtain ⟨b, a⟩ := lease
  cases a <;> rfl

/-- The end of a task that no code is on, part by part. -/
theorem destroy_eq {w : World} {f : Fiber} {lease : StackLease} (onStack : f.lease = some lease)
    (can : f.state.canReset) :
    w.destroy f =
      ((((w.onThread fun t => t.erase f.id).uncount.deallocate lease.allocator lease.block).log
          (.fiberDestroyed f.id f.state)).dropTag (f.pending.bind Callback.tag),
        f.pending.elim [] Callback.keep) := by
  simp only [destroy, Fiber.destructionFault?_eq_none (by simp [onStack]) can, dismantle, onStack]
  cases f.pending <;> rfl

end World

end FiberEngine
