/-
FiberEngine.Proofs.Hindsight — what the engine does without a look back.

No request reads the trace, or the fibers that ended threads have left behind: both
only grow. A `Past` is what stands in front of both, and so it is a veil that shows the
tunables. Whatever a world comes to, it comes to the same behind any past, and what it
has written then stands behind the past.
-/
import FiberEngine.Proofs.Veils

namespace FiberEngine

/-- What has been written, and what ended threads have left behind. -/
structure Past where
  trace : Array Entry
  leaked : List Fiber

namespace Past

variable {α : Type} (p : Past) (w : World)

/-- A world with this past before what it has of its own. -/
def before (w : World) : World :=
  { w with process :=
      { w.process with trace := p.trace ++ w.process.trace, leaked := p.leaked ++ w.process.leaked } }

/-- The same for a world with an answer. -/
def under (r : World × α) : World × α :=
  (p.before r.1, r.2)

@[simp] theorem under_mk (a : α) : p.under (w, a) = (p.before w, a) := rfl

/-- The past as a veil: `before` is what it makes of a world. -/
def veil : Veil where
  cover q := { q with trace := p.trace ++ q.trace, leaked := p.leaked ++ q.leaked }
  nextId _ := rfl
  live _ := rfl
  hook _ := rfl
  level _ := rfl
  program _ := rfl
  halted _ := rfl
  setNextId _ _ := rfl
  setLive _ _ := rfl
  setHook _ _ := rfl
  setProgram _ _ := rfl
  setHalted _ _ := rfl
  write q e := by simp only [Array.push_append]
  forget q fs := by simp only [List.append_assoc]

theorem veil_shows : p.veil.Shows where
  registry _ := rfl
  setRegistry _ _ := rfl
  defaultSize _ := rfl
  setDefaultSize _ _ := rfl

@[simp] theorem live : (p.before w).process.live = w.process.live := rfl
@[simp] theorem program : (p.before w).process.program = w.process.program := rfl

end Past

namespace World

variable (p : Past) (w : World)

theorem emit_past (e : Event) : (p.before w).emit e = p.before (w.emit e) :=
  emit_veiled p.veil w e

theorem noteWorker_past (kind : ThreadKind) (e : Ending) :
    (p.before w).noteWorker kind e = p.before (w.noteWorker kind e) :=
  noteWorker_veiled p.veil w kind e

/-- A step does the same behind any past. -/
theorem step_past : (p.before w).step = p.under w.step :=
  step_veiled p.veil w fun op _ => p.veil_shows.to op

theorem releaseSlots_past : (p.before w).releaseSlots = p.before w.releaseSlots :=
  releaseSlots_veiled p.veil w

/-- What a thread leaves behind stands behind what earlier ones have left. -/
theorem retire_past : (p.before w).retire = p.before w.retire :=
  retire_veiled p.veil w

end World

end FiberEngine
