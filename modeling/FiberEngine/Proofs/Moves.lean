/-
FiberEngine.Proofs.Moves — what the engine can do, move by move.

A stage is a world in the middle of an operation: besides the world it says
which task runs, in which state that task is, and which handles the running code
has. A move leads from one stage to the next. Every operation is a path of
moves, and whatever all moves keep is kept by all operations.

A move carries the acts that it stands for, so that a path tells the life of
every fiber, the use of every callback and the whereabouts of every block. What
a stretch of a run may report is a parameter: `texts`.

The main statement is `Path.sound`: a path leads from sound stages to sound
ones.
-/
import FiberEngine.Proofs.Acts

namespace FiberEngine

/-! ## 1. Stages -/

/-- A world in the middle of an operation. -/
structure Stage where
  world : World
  /-- The task whose code runs. -/
  runner : Option FiberId
  /-- The state of that task. -/
  state : FiberState
  /-- The handles of the running code. -/
  held : List FiberId

/-- The ids of the fibers of a thread. -/
def Thread.ids (t : Thread) : List FiberId :=
  t.fibers.map Fiber.id

/-- A sound stage. The fibers that are alive elsewhere have the ids `others`. -/
structure Stage.Sound (others : List FiberId) (a : Stage) : Prop where
  thread : a.world.thread.Sound a.runner a.state a.held
  distinct : (a.world.thread.ids ++ others).Nodup
  numbered : ∀ id ∈ a.world.thread.ids ++ others, 0 < id ∧ id < a.world.process.nextId
  live : a.world.process.live = (a.world.thread.ids ++ others).length
  first : 0 < a.world.process.nextId
  going : a.world.process.halted = false

/-! ## 2. What may be written -/

/-- A notice that may be logged at any time, if reports are limited to certain
texts. That a fiber is created is logged by the move that creates it, and a main
fiber lasts as long as its thread. -/
def Notice.Plain (texts : String → Prop) : Notice → Prop
  | .reported text => texts text
  | .fiberCreated _ _ | .mainCreated _ | .mainDestroyed _ => False
  | _ => True

/-- The causes for which a request on a fiber is refused. -/
def FiberError.Refusal : FiberError → Prop
  | .invalidState .. | .noStack _ | .notOnMainFiber .. | .notRunning .. | .mainFiberYield _ => True
  | .stackAlloc _ | .stackTooSmall .. | .missingContext _ => False

/-- An answer that may be given: no context is ever missing. -/
def Reply.Plain : Reply → Prop
  | .refused _ e => e.Refusal
  | .failed e => ∀ id, e ≠ .missingContext id
  | _ => True

/-- An entry that may be written at any time. The end of the process is no move. -/
def Event.Plain (texts : String → Prop) : Event → Prop
  | .reported text _ => texts text
  | .logged n _ => n.Plain texts
  | .completed _ reply => reply.Plain
  | .output _ | .aborted => False
  | _ => True

/-- The entry tells that a callback is destroyed or that a block is given back. -/
def Event.givesUp : Event → Bool
  | .dropped _ | .deallocated _ => true
  | _ => false

/-- The report of the fault of a fiber. -/
def Event.FaultOf (t : Thread) (id : FiberId) : Event → Prop
  | .reported text _ | .logged (.reported text) _ => ∃ p, text = faultText p id t.name
  | _ => False

/-- What a demonstration has printed to its error output, if one is going on. -/
def Process.errorOutput (p : Process) : String :=
  p.program.elim "" fun d => d.output.stderr

/-- Processes with the same fibers, the same trace and the same settings of the
log. A demonstration begins with an empty error output and ends with all of it. -/
structure Process.Alike (p q : Process) : Prop where
  nextId : p.nextId = q.nextId
  live : p.live = q.live
  trace : p.trace = q.trace
  halted : p.halted = q.halted
  level : p.level = q.level
  leaked : p.leaked = q.leaked
  errors : p.errorOutput = q.errorOutput ∨ p.errorOutput = ""

/-- Threads with the same fibers, the same slots and the same code. -/
structure Thread.Alike (t u : Thread) : Prop where
  fibers : t.fibers = u.fibers
  slots : t.slots = u.slots
  main : t.main = u.main
  current : t.current = u.current
  frames : t.frames = u.frames

/-- Threads in which the same blocks are out. -/
structure Thread.SameStacks (t u : Thread) : Prop where
  blocks : t.blocks = u.blocks
  guarded : t.guarded = u.guarded
  nextBase : t.nextBase = u.nextBase
  counting : t.counting.deallocs = u.counting.deallocs
  doubling : t.doubling.deallocs = u.doubling.deallocs

/-! ## 3. Moves -/

/-- The state in which an operation leaves the fiber that it suspends. -/
def Pending.parking? : Pending → Option Parking
  | .pause _ _ => some .ready
  | .park p => some p
  | _ => none

/-- The main fiber gives way to a task: its code is parked under an operation
that waits, and the task takes its place. The code of the task is still to come. -/
def World.depart (w : World) (task : FiberId) (p : Pending) : World :=
  (((w.onThread fun t => t.push (.waiting p)).setCurrent task).onThread fun t =>
    ((t.setMainState .hold).setState task .exec).setContext task none).parkMain

/-- A task enters its callback, with a handle to itself. -/
def World.begin (w : World) (task : FiberId) (cb : Callback) : World :=
  (w.hold task).onThread fun t =>
    (t.update task fun f => { f with pending := none }).goOn
      [.ops cb.body, .task task cb.tag cb.keep]

/-- A task stands aside, with a context to go on with, and the main fiber takes
its place. -/
def World.comeBack (w : World) (task main : FiberId) (context : Context) (k : List Frame) : World :=
  w.onThread fun t =>
    { (((t.setContext task (some context)).setContext main none).setMainState .exec).goOn k with
      current := some main }

/-- The moves of the engine. -/
inductive Move (texts : String → Prop) : Stage → List Act → Stage → Prop
  | regroup {w r s h h'} (perm : List.Perm h h') : Move texts ⟨w, r, s, h⟩ [] ⟨w, r, s, h'⟩
  /-- An entry is written. While a task is no longer in `exec`, it is that of its fault. -/
  | write {w r s h} (e : Event) (plain : e.Plain texts) (keeps : e.givesUp = false)
    (fits : s = .exec ∨ s = .except ∧ ∃ id, r = some id ∧ e.FaultOf w.thread id) :
    Move texts ⟨w, r, s, h⟩ [] ⟨w.emit e, r, s, h⟩
  /-- A report is printed to the error output of a demonstration. -/
  | complain {w r s h} (text : String) (ok : texts text)
    (fits : s = .exec ∨ s = .except ∧ ∃ id p, r = some id ∧ text = faultText p id w.thread.name) :
    Move texts ⟨w, r, s, h⟩ [] ⟨w.printError ("[report] " ++ text ++ "\n"), r, s, h⟩
  | tune {w r s h} (p : Process) (alike : p.Alike w.process) :
    Move texts ⟨w, r, s, h⟩ [] ⟨{ w with process := p }, r, s, h⟩
  | equip {w r s h} (t : Thread) (alike : t.Alike w.thread) (blocks : t.SameStacks w.thread) :
    Move texts ⟨w, r, s, h⟩ [] ⟨{ w with thread := t }, r, s, h⟩
  /-- Other code of the same body goes on. -/
  | goOn {w r s h} (k : List Frame) (same : k.getLast? = w.thread.frames.getLast?) :
    Move texts ⟨w, r, s, h⟩ [] ⟨w.goOn k, r, s, h⟩
  /-- A thread gets its main fiber. -/
  | bearMain {w h} (missing : w.thread.main = none) :
    Move texts ⟨w, none, .exec, h⟩ [.created w.process.nextId]
      ⟨w.currentFiber.1, none, .exec, h⟩
  /-- A task is created on a new block, and the running code gets the first handle to it. -/
  | bearTask {w r h} (a : Allocator) (n size : Nat) (cb : Callback) :
    Move texts ⟨w, r, .exec, cb.keep ++ h⟩
      [.created w.process.nextId, .equipped w.process.nextId ⟨(w.handOut a n).2, a⟩ cb]
      ⟨((w.handOut a n).1.insertTask a (w.handOut a n).2 size cb).1, r, .exec,
        w.process.nextId :: h⟩
  | hold {w r s h id f} (found : w.thread.fiber? id = some f) :
    Move texts ⟨w, r, s, h⟩ [] ⟨w.hold id, r, s, id :: h⟩
  | giveUp {w r s h id f} (found : w.thread.fiber? id = some f) (more : 1 < f.handles) :
    Move texts ⟨w, r, s, id :: h⟩ []
      ⟨w.onThread fun t => t.update id fun f => { f with handles := f.handles - 1 }, r, s, h⟩
  /-- Handles are released, with all that follows from it. -/
  | release {w r h} (ids : List FiberId) :
    Move texts ⟨w, r, .exec, ids ++ h⟩ (w.fallout ids) ⟨w.release ids, r, .exec, h⟩
  | setSlot {w r s h id} (name : SlotName) :
    Move texts ⟨w, r, s, id :: h⟩ []
      ⟨w.onThread fun t => t.setSlot name id, r, s, (w.thread.slot? name).toList ++ h⟩
  | clearSlot {w r s h} (name : SlotName) :
    Move texts ⟨w, r, s, h⟩ []
      ⟨w.onThread fun t => t.clearSlot name, r, s, (w.thread.slot? name).toList ++ h⟩
  | clearSlots {w r s h} :
    Move texts ⟨w, r, s, h⟩ []
      ⟨w.onThread fun t => { t with slots := [] }, r, s, w.thread.slots.map Prod.snd ++ h⟩
  /-- A block is handed out and kept under a name. -/
  | allocBlock {w r h} (name : String) (a : Allocator) (n : Nat) :
    Move texts ⟨w, r, .exec, h⟩ [.granted ⟨(w.handOut a n).2, a⟩]
      ⟨(w.handOut a n).1.onThread fun t => t.setBlock name (w.handOut a n).2, r, .exec, h⟩
  /-- The block of a fiber is kept under a name. -/
  | saveBlock {w r h id f b} (name : String) (found : w.thread.fiber? id = some f)
    (block : f.block? = some b) :
    Move texts ⟨w, r, .exec, h⟩ [] ⟨w.onThread fun t => t.setBlock name b, r, .exec, h⟩
  /-- A kept block is given to an allocator. -/
  | freeBlock {w r h b} (name : String) (a : Allocator) (kept : w.thread.block? name = some b) :
    Move texts ⟨w, r, .exec, h⟩ [.freed ⟨b, a⟩]
      ⟨(w.onThread fun t => t.clearBlock name).deallocate a b, r, .exec, h⟩
  /-- A callback is turned away. Its handles are still to be released. -/
  | refuse {w r h} (cb : Callback) :
    Move texts ⟨w, r, .exec, h⟩ [.refused cb] ⟨w.dropTag cb.tag, r, .exec, h⟩
  /-- A fiber is bound to a callback. One that it never entered is destroyed, and
  its handles are still to be released. -/
  | install {w r h id f} (cb : Callback) (found : w.thread.fiber? id = some f)
    (can : f.state.canReset) :
    Move texts ⟨w, r, .exec, cb.keep ++ h⟩ [.reset id cb f.pending]
      ⟨(w.onThread fun t => t.update id (Fiber.bound cb)).dropTag (f.pending.bind Callback.tag), r,
        .exec, f.pending.elim [] Callback.keep ++ h⟩
  /-- A task is resumed for the first time. -/
  | enter {w id main f p cb} (isMain : w.thread.main = some main)
    (found : w.thread.fiber? id = some f) (ne : id ≠ main) (body : Body none w.thread.frames)
    (awaits : p.Awaits id) (context : f.context = some .fresh) (callback : f.pending = some cb) :
    Move texts ⟨w, none, .exec, [id]⟩ [.resumed id f.state]
      ⟨(w.depart id p).begin id cb, some id, .exec, id :: cb.keep⟩
  /-- A suspended task is resumed. -/
  | resume {w id main f p k} (isMain : w.thread.main = some main)
    (found : w.thread.fiber? id = some f) (ne : id ≠ main) (body : Body none w.thread.frames)
    (awaits : p.Awaits id) (context : f.context = some (.suspended k)) :
    Move texts ⟨w, none, .exec, [id]⟩ [.resumed id f.state]
      ⟨(w.depart id p).goOn k, some id, .exec, Frame.allHandles k⟩
  /-- The task that runs suspends itself. -/
  | yield {w id main k p} (next : Parking) (isMain : w.thread.main = some main)
    (parked : w.mainFrames = .ok k) (body : Body (some id) w.thread.frames)
    (pauses : p.Pauses id) (parks : p.parking? = some next) :
    Move texts ⟨w, some id, .exec, p.handles ++ Frame.allHandles w.thread.frames⟩
      [.yielded id next.state]
      ⟨(w.onThread fun t => t.setState id next.state).comeBack id main
          (.suspended (.waiting p :: w.thread.frames)) k,
        none, .exec, Frame.allHandles k⟩
  /-- The callback of the task that runs ends: it is destroyed, its handles are
  released, and the task takes its last state. -/
  | conclude {w id tag keep} (last : FiberState) (terminal : last.terminal)
    (base : w.thread.frames.getLast? = some (.task id tag keep)) :
    Move texts ⟨w, some id, .exec, keep ++ [id]⟩
      (.shed id tag keep :: (w.dropTag tag).fallout keep ++ [.ended id last])
      ⟨(w.dropCallback tag keep).onThread fun t => t.setState id last, some id, last, [id]⟩
  /-- The task whose callback has ended gives way for good. -/
  | leave {w id main k last} (isMain : w.thread.main = some main)
    (parked : w.mainFrames = .ok k) (terminal : last.terminal) :
    Move texts ⟨w, some id, last, []⟩ []
      ⟨w.comeBack id main .spent k, none, .exec, Frame.allHandles k⟩

/-- Moves one after the other, with what they stand for. -/
inductive Path (texts : String → Prop) : Stage → List Act → Stage → Prop
  | nil {a : Stage} : Path texts a [] a
  | snoc {a b c : Stage} {acts more : List Act} (path : Path texts a acts b)
    (move : Move texts b more c) : Path texts a (acts ++ more) c

/-- One stage leads to another. -/
def Leads (texts : String → Prop) (a b : Stage) : Prop :=
  ∃ acts, Path texts a acts b

namespace Path

variable {texts : String → Prop} {a b c : Stage} {acts more : List Act}

theorem append (first : Path texts a acts b) (second : Path texts b more c) :
    Path texts a (acts ++ more) c := by
  induction second with
  | nil => simpa using first
  | snoc path move ih => simpa using ih.snoc move

end Path

namespace Leads

variable {texts : String → Prop} {a b c : Stage}

theorem refl (a : Stage) : Leads texts a a :=
  ⟨[], .nil⟩

theorem trans (first : Leads texts a b) (second : Leads texts b c) : Leads texts a c := by
  obtain ⟨_, first⟩ := first
  obtain ⟨_, second⟩ := second
  exact ⟨_, first.append second⟩

theorem move {acts : List Act} (h : Move texts a acts b) : Leads texts a b :=
  ⟨_, Path.nil.snoc h⟩

theorem regroup {w : World} {r : Option FiberId} {s : FiberState} {h h' : List FiberId}
    (perm : h.Perm h') : Leads texts ⟨w, r, s, h⟩ ⟨w, r, s, h'⟩ :=
  .move (.regroup perm)

end Leads

end FiberEngine
