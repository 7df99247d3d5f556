/-
FiberEngine.Proofs.Trampolines — a reset of a fiber whose own code is under way.

A reset rebuilds the context of a fiber at the top of its stack, so no code may be
under way there. The only guard is the state of the fiber: a reset is accepted in
`init`, `term` and `except`. A task is in `exec` while its callback runs and
while that is destroyed, so `resets_turned_away` finds a reset of the current fiber
rejected wherever an entry is written, but for one place. A callback that ends by a
panic leaves its fiber in `except` before its fault is reported, and the report
hook is called on the stack of the fiber: there the reset is accepted
(`fault_accepts_reset`).
-/
import FiberEngine.Proofs.Current

namespace FiberEngine

/-! ## 1. The current fiber of a thread in order -/

namespace Thread

variable {t : Thread} {f : Fiber} {s : FiberState}

/-- The current fiber is in `exec`, or it is the task that runs. -/
theorem InOrder.current_cases (order : t.InOrder s) (regular : t.Regular) {id : FiberId}
    (current : t.current = some id) : ∃ f, f.id = id ∧ t.fiber? f.id = some f ∧
      (f.state = .exec ∨ f.isMain = false ∧ f.state = s ∧ t.task? = some f.id) := by
  have here : t.currentId = id := by rw [currentId, current, Option.getD_some]
  cases order with
  | bare noMain noTask none others =>
    rw [regular.current.mpr noMain] at current
    cases current
  | @home main there isMain noTask mine mainly runs others =>
    exact ⟨main, mine.symm.trans here, fiber?_of_mem regular.distinct there, .inl runs⟩
  | @away main task there isMain mainly parked present isTask mine minor runs others =>
    exact ⟨task, mine.symm.trans here, fiber?_of_mem regular.distinct present,
      .inr ⟨minor, runs, isTask⟩⟩

end Thread

namespace World

variable {w : World} {f : Fiber}

/-! ## 2. Resets that are turned away -/

/-- A reset of a fiber is turned away: the call gives up its callback, and nothing
becomes of the fiber but that it may lose handles with it. -/
structure TurnsAway (w : World) (f : Fiber) (cb : Callback) : Prop where
  refused : ∃ s e, w.reset .checked f cb =
    (w.dropCallback cb.tag cb.keep, .done (.refused s e))
  keeps : ∀ g, (w.reset .checked f cb).1.thread.fiber? f.id = some g →
    g = { f with handles := g.handles }
  /-- With a callback that has no handles to give up, the thread stays as it is. -/
  whole : cb.keep = [] → (w.reset .checked f cb).1.thread = w.thread ∧
    ∃ e, (w.reset .checked f cb).2 = .done (.refused f.state e)

theorem turnsAway_iff (found : w.thread.fiber? f.id = some f) (cb : Callback) :
    w.TurnsAway f cb ↔ f.resetRefusal? ≠ none := by
  constructor
  · rintro ⟨⟨s, e, refused⟩, -, -⟩ none
    simp only [reset, none] at refused
    cases (Prod.mk.inj refused).2
  · intro refuses
    obtain ⟨e, refusal⟩ := Option.ne_none_iff_exists'.mp refuses
    have refused : w.reset .checked f cb = (w.dropCallback cb.tag cb.keep,
        .done (.refused ((w.dropCallback cb.tag cb.keep).stateOf f.id) e)) := by
      simp only [reset, refusal, reject]
    refine ⟨⟨_, e, refused⟩, fun g there => ?_, fun none => ?_⟩
    · rw [refused] at there
      obtain ⟨g', before, same⟩ := fiber?_release there
      rw [dropTag_thread, found] at before
      rw [same, ← Option.some.inj before]
    · have thread : (w.dropCallback cb.tag cb.keep).thread = w.thread := by
        rw [none, dropCallback, release, dropTag_thread]
      refine ⟨by rw [refused, thread], e, ?_⟩
      simp only [refused, stateOf, thread, found]

theorem turnsAway_of_exec (found : w.thread.fiber? f.id = some f) (exec : f.state = .exec)
    (cb : Callback) : w.TurnsAway f cb := by
  refine (turnsAway_iff found cb).mpr ?_
  rw [Fiber.resetRefusal?, exec]
  split <;> simp [FiberState.canReset]

/-- A fiber asked for is the one that the thread has as its current fiber, or a main
fiber that is new. -/
theorem currentFiber_cases (regular : w.thread.Regular)
    (fresh : ∀ g ∈ w.thread.fibers, g.id < w.process.nextId) :
    w.thread.current = some w.currentFiber.2 ∧ w.currentFiber.1 = w ∨
      w.currentFiber.1.thread.fiber? w.currentFiber.2 = some (Fiber.main w.currentFiber.2) := by
  cases current : w.thread.current with
  | some id => exact .inl (by simp [currentFiber, current])
  | none =>
    refine .inr ?_
    have missing : w.thread.fiber? w.process.nextId = none := by
      cases found : w.thread.fiber? w.process.nextId with
      | none => rfl
      | some g =>
        have mine := Thread.id_of_fiber? found
        exact absurd (fresh g (Thread.mem_of_fiber? found)) (by simp [mine])
    simp only [currentFiber, current, regular.current.mp current]
    have thread := ((w.count.1).log_same (.mainCreated w.count.2)).thread
    change Thread.fiber? { (World.thread _).insert (Fiber.main w.process.nextId) with
      main := _, current := _ } w.process.nextId = _
    rw [thread]
    change (w.thread.insert (Fiber.main w.process.nextId)).fiber? w.process.nextId = _
    rw [Thread.fiber?_insert, missing]
    simp [Fiber.main, count]

/-- An accepted reset of a fiber without a callback. -/
theorem reset_of_unbound (found : w.thread.fiber? f.id = some f) (accepted : f.resetRefusal? = none)
    (unbound : f.pending = none) (cb : Callback) :
    (w.reset .checked f cb).2 = .done (.state .init) ∧
      (w.reset .checked f cb).1.thread.fiber? f.id =
        some { f with state := .init, context := some .fresh, pending := some cb } := by
  have keeps : ∀ g : Fiber, { g with context := some .fresh, pending := some cb }.id = g.id :=
    fun _ => rfl
  have keeps' : ∀ g : Fiber, { g with state := .init }.id = g.id := fun _ => rfl
  have bound : (w.rebind f cb).thread.fiber? f.id =
      some { f with state := .init, context := some .fresh, pending := some cb } := by
    simp only [rebind, unbound, (log_same _ _).thread, onThread, Thread.setState]
    rw [Thread.fiber?_update _ _ _ _ keeps', Thread.fiber?_update _ _ _ _ keeps, found]
    simp
  have accepts : w.reset .checked f cb =
      (w.rebind f cb, .done (.state ((w.rebind f cb).stateOf f.id))) := by
    simp only [reset, accepted]
  rw [accepts]
  exact ⟨by simp only [stateOf, bound], bound⟩

/-- A task of which others have handles stands aside without a word. -/
theorem standAside_process {main : FiberId} {k : List Frame} (e : Finish)
    (isMain : w.thread.main = some main) (parked : w.mainFrames = .ok k)
    (found : w.thread.fiber? f.id = some f) (more : ¬ f.handles ≤ 1) :
    (w.standAside f.id e).process = w.process := by
  have parked' := (w.mainFrames_update f.id (fun f => { f with handles := f.handles - 1 })
    (fun _ => rfl) fun _ => rfl).trans parked
  have isMain' : (w.onThread fun t => t.update f.id fun f => { f with handles := f.handles - 1
    }).thread.main = some main := isMain
  rw [standAside, release_more found more, switchBack_eq .spent isMain' parked']
  rfl

/-- The fault of a task is reported before the task switches back. -/
theorem step_of_fault {f : Fiber} {main : FiberId} {k : List Frame} {p : Payload} {tag : String}
    (going : w.process.halted = false) (hook : w.process.hook = .tagged tag false)
    (frames : w.thread.frames = [.ops [.panic p], .task f.id none []])
    (isMain : w.thread.main = some main) (parked : w.mainFrames = .ok k)
    (found : w.thread.fiber? f.id = some f) (more : ¬ f.handles ≤ 1) :
    ∃ v, w.step = (v, .running) ∧ v.process.trace.toList = w.process.trace.toList ++
      [⟨(w.thread.goOn [.ops [], .task f.id none []]).setState f.id .except,
        .reported (faultText p f.id w.thread.name) tag⟩] := by
  have step : w.step = ((w.goOn [.ops [], .task f.id none []]).finish f.id none [] (.faulted p),
      .running) := by
    simp only [World.step, frames]
    rfl
  refine ⟨_, step, ?_⟩
  rw [finish_eq, dropCallback, dropTag, release]
  generalize eq : (w.goOn [.ops [], .task f.id none []]).onThread
    (fun t => t.setState f.id (Finish.faulted p).state) = u
  have same : u.process = w.process := by rw [← eq]; rfl
  have thread : u.thread = (w.thread.goOn [.ops [], .task f.id none []]).setState f.id .except := by
    rw [← eq]
    rfl
  have name : u.thread.name = w.thread.name := by rw [thread]; rfl
  have reported : u.reportFault f.id (.faulted p) =
      u.emit (.reported (faultText p f.id u.thread.name) tag) := by
    simp only [reportFault, report, same, hook]
    rfl
  have written := u.emit_same (.reported (faultText p f.id u.thread.name) tag)
  have trace := emit_trace (same ▸ going) (.reported (faultText p f.id u.thread.name) tag)
  have parked' : u.mainFrames = .ok k := by
    rw [← eq, mainFrames_setState]
    exact parked
  have there : u.thread.fiber? f.id = some { f with state := .except } := by
    have keeps : ∀ g : Fiber, { g with state := .except }.id = g.id := fun _ => rfl
    rw [thread, Thread.setState, Thread.fiber?_update _ _ _ _ keeps]
    exact congrArg _ found |>.trans (by simp)
  rw [reported]
  generalize u.emit (.reported (faultText p f.id u.thread.name) tag) = y at written trace
  have isMain' : y.thread.main = some main := by rw [written.thread, thread]; exact isMain
  have parked'' : y.mainFrames = .ok k := by rw [mainFrames, written.thread]; exact parked'
  have aside := standAside_process (f := { f with state := .except }) (.faulted p) isMain' parked''
    (written.thread ▸ there) more
  rw [aside, trace, same, thread]
  rfl

end World

/-! ## 3. The delivery of a fault -/

/-- The entry tells of the fault of a fiber: the callback of the fiber has ended by a
panic, and the code that is to switch back from it is still to do so. -/
structure Entry.Faults (e : Entry) (f : Fiber) : Prop where
  state : f.state = .except
  runs : e.thread.task? = some f.id
  delivers : e.Delivers f.id

namespace Machine

/-- Wherever an entry is written, a reset of the current fiber is turned away, unless
the entry tells of the fault of this fiber. A thread without a current fiber would
first get its main fiber. -/
theorem resets_turned_away (level : Option Level) (hook : ReportHook) (script : List Op) (n : Nat)
    (e : Entry) (mem : e ∈ ((start level hook script).steps n).world.process.trace.toList)
    (w : World) (here : w.thread = e.thread)
    (fresh : ∀ g ∈ w.thread.fibers, g.id < w.process.nextId) :
    ∃ f, w.currentFiber.1.thread.fiber? w.currentFiber.2 = some f ∧
      ∀ cb, w.currentFiber.1.TurnsAway f cb ↔ ¬ e.Faults f := by
  obtain ⟨k, -, new, mem, -, -, adds⟩ := history mem
  have regular : w.thread.Regular := here ▸ adds.regular e mem
  rcases World.currentFiber_cases regular fresh with ⟨current, same⟩ | there
  · -- in a thread in order, the current fiber is in `exec` or a task whose fault is told
    obtain ⟨f, mine, found, exec | ⟨onStack, state, runs, delivers⟩⟩ : ∃ f,
        f.id = w.currentFiber.2 ∧ w.thread.fiber? f.id = some f ∧ (f.state = .exec ∨
          f.isMain = false ∧ f.state = .except ∧ w.thread.task? = some f.id ∧ e.Delivers f.id) := by
      rcases (adds.due e mem).inOrder.stands with order | ⟨id, isTask, order, delivers⟩
      · obtain ⟨f, mine, found, exec | ⟨-, exec, -⟩⟩ := (here ▸ order).current_cases regular current
        · exact ⟨f, mine, found, .inl exec⟩
        · exact ⟨f, mine, found, .inl exec⟩
      · obtain ⟨f, mine, found, exec | ⟨onStack, state, runs⟩⟩ :=
          (here ▸ order).current_cases regular current
        · exact ⟨f, mine, found, .inl exec⟩
        · obtain rfl : id = f.id := Option.some.inj (isTask.symm.trans (here ▸ runs))
          exact ⟨f, mine, found, .inr ⟨onStack, state, runs, delivers⟩⟩
    all_goals rw [same, ← mine]
    · refine ⟨f, found, fun cb => ⟨fun _ faults => ?_, fun _ => ?_⟩⟩
      · cases exec.symm.trans faults.state
      · exact World.turnsAway_of_exec found exec cb
    · have faults : e.Faults f := ⟨state, here ▸ runs, delivers⟩
      refine ⟨f, found, fun cb => ⟨fun turns => ?_, fun none => absurd faults none⟩⟩
      refine absurd ?_ ((World.turnsAway_iff found cb).mp turns)
      simp [Fiber.resetRefusal?, onStack, state, FiberState.canReset]
  · refine ⟨_, there, fun cb => ⟨fun _ faults => ?_, fun _ => ?_⟩⟩
    · cases faults.state
    · exact World.turnsAway_of_exec there rfl cb

/-- The main fiber that cannot yield cannot be reset either, at the end of the process. -/
theorem main_turned_away :
    let w := ((start none (.tagged "hook" false) [.park .ready]).steps 1).world
    w.process.halted ∧ ∀ cb, w.TurnsAway (Fiber.main 1) cb := by
  intro w
  have told : ⟨w.thread, .aborted⟩ ∈ w.process.trace.toList :=
    List.mem_of_getElem? (i := 1) rfl
  have fresh : ∀ g ∈ w.thread.fibers, g.id < w.process.nextId := by
    intro g mem
    rw [List.mem_singleton.mp mem]
    exact Nat.one_lt_two
  obtain ⟨f, found, judged⟩ := resets_turned_away none (.tagged "hook" false) [.park .ready] 1
    ⟨w.thread, .aborted⟩ told w rfl fresh
  obtain rfl : Fiber.main 1 = f := Option.some.inj found
  refine ⟨rfl, fun cb => (judged cb).mpr fun faults => ?_⟩
  cases faults.state

/-- A task is created and resumed, and its callback panics. -/
def failing : List Op :=
  [.create (.named "f") minStackSize .heap [.panic (.text "x")] none [],
    .resume .trusted (.slot (.named "f"))]

/-- Where its fault is reported, the task is the current fiber and its code is still
to switch back, but a reset of it is accepted: its context is built anew. -/
theorem fault_accepts_reset :
    ∃ e ∈ ((start none (.tagged "hook" false) failing).steps 3).world.process.trace.toList,
      ∃ f, e.event = .reported (faultText (.text "x") f.id firstThread) "hook" ∧
        e.thread.current = some f.id ∧ e.thread.task? = some f.id ∧
        e.thread.fiber? f.id = some f ∧ f.state = .except ∧
        ∀ p cb, (World.reset ⟨p, e.thread⟩ .checked f cb).2 = .done (.state .init) ∧
          (World.reset ⟨p, e.thread⟩ .checked f cb).1.thread.fiber? f.id =
            some { f with state := .init, context := some .fresh, pending := some cb } := by
  obtain ⟨before, second⟩ := first_task_enters (.tagged "hook" false) (rfl : failing = _)
  let w := World.firstEntered (.tagged "hook" false) [.panic (.text "x")] [] before
  obtain ⟨v, step, trace⟩ := World.step_of_fault (w := w) (f := ⟨1, _, _, _, _, 3⟩) rfl rfl rfl rfl
    rfl rfl (by decide)
  have third := steps_of_running second rfl step
  have there : ((w.thread.goOn [.ops [], .task 1 none []]).setState 1 .except).fiber? 1 =
      some ⟨1, some ⟨⟨0, minStackSize⟩, .heap⟩, .except, none, none, 3⟩ := rfl
  rw [third]
  refine ⟨_, by rw [trace]; exact List.mem_append_right _ (List.mem_singleton.mpr rfl),
    ⟨1, some ⟨⟨0, minStackSize⟩, .heap⟩, .except, none, none, 3⟩, rfl, rfl, rfl, there, rfl, ?_⟩
  exact fun p cb => World.reset_of_unbound (w := ⟨p, _⟩) there rfl rfl cb

end Machine

end FiberEngine
