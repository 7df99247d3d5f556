/-
FiberEngine.Proofs.Code — the shape of the code of a thread.

The frames of a body lie above its end: the end of a callback, or the end of a
thread's script. In between are blocks, loops, caught blocks and demonstrations,
and none of them has a handle. An operation that waits stands above all of them,
and only there.

A panic and an early return both take frames away from above. `Body.unwind` and
`Body.leave` say where they stop.
-/
import FiberEngine.Proofs.Custody

namespace FiberEngine

/-- The fiber whose callback ends with a frame. -/
def Frame.owner? : Frame → Option FiberId
  | .task f _ _ => some f
  | _ => none

/-- A frame between the operations of a body and its end. -/
def Frame.isInner : Frame → Bool
  | .ops _ | .loop _ _ | .catching | .program _ => true
  | _ => false

/-- The task whose callback runs on a thread; none while the script of the
thread itself runs. -/
def Thread.task? (t : Thread) : Option FiberId :=
  t.frames.getLast?.bind Frame.owner?

/-- Frames that are the code of the callback of a fiber, or of a script. -/
inductive Body : Option FiberId → List Frame → Prop
  | script : Body none [.script]
  | task (f : FiberId) (tag : Option String) (keep : List FiberId) :
    Body (some f) [.task f tag keep]
  | inner {o : Option FiberId} {fr : Frame} {k : List Frame} (h : fr.isInner) (rest : Body o k) :
    Body o (fr :: k)

namespace Body

variable {o : Option FiberId} {k k' : List Frame}

theorem ne_nil (h : Body o k) : k ≠ [] := by
  cases h <;> simp

theorem ops (ops : List Op) (h : Body o k) : Body o (.ops ops :: k) :=
  .inner rfl h

theorem loop (times : Nat) (body : List Op) (h : Body o k) : Body o (.loop times body :: k) :=
  .inner rfl h

theorem catching (h : Body o k) : Body o (.catching :: k) :=
  .inner rfl h

theorem program (d : Demo) (h : Body o k) : Body o (.program d :: k) :=
  .inner rfl h

/-- Whatever is put on top of a body, the end is that of the body. -/
theorem getLast?_cons (fr : Frame) (h : Body o k) : (fr :: k).getLast? = k.getLast? :=
  List.getLast?_cons_of_ne_nil h.ne_nil

/-- The end of a body tells whose it is. -/
theorem owner (h : Body o k) : k.getLast?.bind Frame.owner? = o := by
  induction h with
  | script => rfl
  | task f tag keep => rfl
  | @inner o fr k hfr rest ih =>
    rw [rest.getLast?_cons fr]
    exact ih

/-- An operation that waits on top of a body hides nothing of its end. -/
theorem owner_cons (fr : Frame) (h : Body o k) : (fr :: k).getLast?.bind Frame.owner? = o := by
  rw [h.getLast?_cons fr]
  exact h.owner

theorem handles_inner {fr : Frame} (h : fr.isInner) : fr.handles = [] := by
  cases fr <;> simp_all [Frame.isInner, Frame.handles]

theorem allHandles_cons {fr : Frame} (h : fr.isInner) (k : List Frame) :
    Frame.allHandles (fr :: k) = Frame.allHandles k := by
  rw [Frame.allHandles_cons, handles_inner h, List.nil_append]

/-- A script has no handles. -/
theorem script_handles (h : Body none k) : Frame.allHandles k = [] := by
  generalize ho : (none : Option FiberId) = o at h
  induction h with
  | script => rfl
  | task f tag keep => cases ho
  | inner hfr rest ih => simp [handles_inner hfr, ih ho]

/-- The code of a callback has the handle of its fiber to itself. -/
theorem mem_handles {f : FiberId} (h : Body (some f) k) : f ∈ Frame.allHandles k := by
  generalize ho : some f = o at h
  induction h with
  | script => cases ho
  | task g tag keep =>
    cases ho
    simp [Frame.handles]
  | inner hfr rest ih => simp [handles_inner hfr, ih ho]

/-- The part of a body that begins with a given frame. -/
theorem of_inner {fr : Frame} (h : Body o (fr :: k)) (hfr : fr.isInner) :
    Body o k ∧ Frame.allHandles (fr :: k) = Frame.allHandles k := by
  cases h with
  | script => cases hfr
  | task f tag keep => cases hfr
  | inner _ rest => exact ⟨rest, allHandles_cons hfr k⟩

/-- Code that is left when frames above it are gone has the same end. -/
theorem getLast?_of_suffix {fr : Frame} {k : List Frame} (h : fr :: k <:+ k') :
    (fr :: k).getLast? = k'.getLast? := by
  obtain ⟨above, rfl⟩ := h
  simp [List.getLast?_append, List.getLast?_cons]

/-! ## Leaving a body -/

/-- Where the unwinding of a panic stops. -/
inductive Stop (o : Option FiberId) (k : List Frame) : List Frame → Prop
  | catching {k' : List Frame} (rest : Body o k')
    (same : Frame.allHandles k' = Frame.allHandles k) : Stop o k (.catching :: k')
  | program {d : Demo} {k' : List Frame} (rest : Body o k')
    (same : Frame.allHandles k' = Frame.allHandles k) : Stop o k (.program d :: k')
  | task {f : FiberId} {tag : Option String} {keep : List FiberId} (mine : o = some f)
    (same : Frame.allHandles k = f :: keep) : Stop o k [.task f tag keep]
  | script (mine : o = none) (same : Frame.allHandles k = []) : Stop o k [.script]

theorem Stop.cons {k'} (fr : Frame) (h : Stop o k k') (hfr : fr.isInner) :
    Stop o (fr :: k) k' := by
  cases h with
  | catching rest same => exact .catching rest (by simp [handles_inner hfr, same])
  | program rest same => exact .program rest (by simp [handles_inner hfr, same])
  | task mine same => exact .task mine (by simp [handles_inner hfr, same])
  | script mine same => exact .script mine (by simp [handles_inner hfr, same])

/-- A panic stops at a caught block, at a demonstration or at the end. -/
theorem unwind (h : Body o k) : Stop o k (k.dropWhile fun f => !f.stopsPanic) := by
  induction h with
  | script => exact .script rfl rfl
  | task f tag keep => exact .task rfl (by simp [Frame.handles])
  | @inner o fr k hfr rest ih =>
    cases fr with
    | ops ops => simpa [Frame.stopsPanic] using ih.cons (.ops ops) rfl
    | loop times body => simpa [Frame.stopsPanic] using ih.cons (.loop times body) rfl
    | catching => simpa [Frame.stopsPanic] using .catching rest (by simp [Frame.handles])
    | program d => simpa [Frame.stopsPanic] using .program rest (by simp [Frame.handles])
    | waiting p => cases hfr
    | task f tag keep => cases hfr
    | script => cases hfr

/-- An early return stops at the end of the body, and nowhere else. -/
theorem leave (h : Body o k) :
    (∃ f tag keep, o = some f ∧ Frame.allHandles k = f :: keep ∧
      (k.dropWhile fun f => !f.isBase) = [.task f tag keep]) ∨
    (o = none ∧ (k.dropWhile fun f => !f.isBase) = [.script]) := by
  induction h with
  | script => exact .inr ⟨rfl, rfl⟩
  | task f tag keep => exact .inl ⟨f, tag, keep, rfl, by simp [Frame.handles], rfl⟩
  | @inner o fr k hfr rest ih =>
    have skipped : ((fr :: k).dropWhile fun f => !f.isBase) = k.dropWhile fun f => !f.isBase := by
      cases fr <;> simp_all [Frame.isInner, Frame.isBase]
    rw [skipped]
    simpa [handles_inner hfr] using ih

end Body

end FiberEngine
