/-
FiberEngine.Proofs.Rounds — one round of a task that is driven to its end.

While the main fiber of a thread drives a task, it is parked behind the request
that drives. A task that suspends itself is resumed at once: the main fiber comes
back, finds that the task has not ended, counts one more resume and parks again.
After such a round the thread is as before, but for the code: the task stands
behind the request by which it suspended itself, and one more resume is counted.

`Drive.guise` says where this code is, and `Drive.round` that a round changes
nothing else.
-/
import FiberEngine.Proofs.Atoms

namespace FiberEngine

/-! ## 1. The code of a driven task -/

/-- A task that the main fiber of its thread drives to its end. -/
structure Drive where
  task : FiberId
  main : FiberId
  max : Nat
  /-- What the main fiber goes on with afterwards. -/
  rest : List Frame

namespace Drive

variable {D : Drive} {fs fs' : List Frame} {d d' : Nat} {x : FiberId} {u w : World}

/-- The code of the main fiber, when so many resumes have been made. -/
def code (D : Drive) (d : Nat) : List Frame :=
  .waiting (.drive D.task d D.max) :: D.rest

/-- Some code for the task, while so many resumes have been made. -/
def guise (D : Drive) (fs : List Frame) (d : Nat) : Guise :=
  ⟨fun _ => fs, fun id k => if id = D.main then D.code d else k, fun _ body => body⟩

/-- The task runs on a thread. -/
structure Runs (D : Drive) (t : Thread) : Prop where
  current : t.current = some D.task
  main : t.main = some D.main
  ne : D.task ≠ D.main

theorem keepsBodies : (D.guise fs d).KeepsBodies :=
  fun _ _ => rfl

theorem Runs.away (runs : D.Runs w.thread) : w.Away :=
  ⟨D.task, runs.current, fun same => runs.ne (Option.some.inj (same.symm.trans runs.main))⟩

/-- Where the task runs, the code is that of its callback. -/
theorem Runs.runner {t : Thread} {r : Option FiberId} {s : FiberState} {h : List FiberId}
    (runs : D.Runs t) (sound : t.Sound r s h) : r = some D.task := by
  have current := sound.current
  cases r with
  | none =>
    rw [runs.current, runs.main] at current
    exact absurd (Option.some.inj current) runs.ne
  | some id =>
    rw [runs.current] at current
    exact current.symm

theorem guise_fiber_of_ne {f : Fiber} (ne : f.id ≠ D.main) : (D.guise fs d).fiber f = f := by
  have context : ∀ c, (D.guise fs d).context f.id c = c := by
    intro c
    cases c <;> simp [Guise.context, guise, ne]
  have callback : ∀ cb, (D.guise fs d).callback f.id cb = cb := fun _ => rfl
  simp [Guise.fiber, funext context, funext callback]

/-- Of two disguises only the last one is seen. -/
theorem guise_thread (t : Thread) :
    (D.guise fs' d').thread ((D.guise fs d).thread t) = (D.guise fs' d').thread t := by
  have context : ∀ id c, (D.guise fs' d').context id ((D.guise fs d).context id c) =
      (D.guise fs' d').context id c := by
    intro id c
    cases c with
    | fresh | spent => rfl
    | suspended k =>
      by_cases mine : id = D.main <;> simp [Guise.context, guise, mine]
  have fiber : ∀ f, (D.guise fs' d').fiber ((D.guise fs d).fiber f) = (D.guise fs' d').fiber f := by
    intro f
    simp only [Guise.fiber, Option.map_map]
    congr 2
    exact funext fun c => context f.id c
  have fibers : (D.guise fs' d').fiber ∘ (D.guise fs d).fiber = (D.guise fs' d').fiber :=
    funext fiber
  simp only [Guise.thread, List.map_map, fibers]
  rfl

/-- A world in another disguise. -/
theorem recode {w' : World} (twins : Twins x (D.guise fs d) u w)
    (thread : w'.thread = (D.guise fs' d').thread w.thread) (process : w'.process = w.process) :
    Twins x (D.guise fs' d') u w' where
  thread := by rw [thread, twins.thread, guise_thread]
  process := by rw [process, twins.process]
  trace := by rw [process, twins.trace]

theorem goOn (twins : Twins x (D.guise fs d) u w) (fs' : List Frame) :
    Twins x (D.guise fs' d) u (w.goOn fs') := by
  refine ⟨?_, twins.process, twins.trace⟩
  change { w.thread with frames := fs' } = (D.guise fs' d).thread u.thread
  rw [twins.thread]
  rfl

/-- The code of the main fiber in a disguise. -/
theorem mainFrames (twins : Twins x (D.guise fs d) u w) (isMain : u.thread.main = some D.main) :
    w.mainFrames = u.mainFrames.map fun _ => D.code d := by
  have isMain' := twins.main.trans isMain
  simp only [World.mainFrames, isMain, isMain', twins.fiber?]
  cases found : u.thread.fiber? D.main with
  | none => rfl
  | some f =>
    have mine := Thread.id_of_fiber? found
    rcases context : f.context with _ | (_ | k | _) <;>
      simp [Guise.fiber, context, Guise.context, guise, mine, Except.map]

/-! ## 2. Rounds -/

section

variable {others : List FiberId} {h : List FiberId} {f : Fiber} {m : Manner} {next : Parking}
  {p : Pending} {k : List Frame}

/-- A log without notes of switches. -/
theorem log_quiet (quiet : Level.admits w.process.level .trace = false) {n : Notice}
    (level : n.level = .trace) : w.log n = w := by
  simp [World.log, level, quiet]

/-- The main fiber resumes the task once more. -/
theorem step_home (frames : w.thread.frames = D.code d) (current : w.thread.current = some D.main)
    (isMain : w.thread.main = some D.main) (ne : D.task ≠ D.main)
    (found : w.thread.fiber? D.task = some f) (state : f.state = next.state)
    (context : f.context = some (.suspended k)) (room : d < D.max)
    (quiet : Level.admits w.process.level .trace = false) :
    w.step = (⟨w.process,
      { w.thread with
        fibers := w.thread.fibers.map
          (Thread.Sound.crossed D.task D.main (fun f => { f with state := .exec, context := none })
            (Thread.Sound.parkedIn (.drive D.task (d + 1) D.max) D.rest))
        current := some D.task
        frames := k }⟩, .running) := by
  have mine := Thread.id_of_fiber? found
  have can : f.state.canResume = true := by rw [state]; cases next <;> rfl
  have goes : f.state.terminal = false := by rw [state]; cases next <;> rfl
  have asked : (w.goOn D.rest).resumeRefusal f = (w.goOn D.rest, none) := by
    have here : (w.goOn D.rest).currentFiber = (w.goOn D.rest, D.main) := by
      simp [World.currentFiber, World.goOn, World.onThread, Thread.goOn, current]
    have isMain' : (w.goOn D.rest).thread.main = some D.main := isMain
    simp [World.resumeRefusal, Fiber.resumeRefusal?, can, here, isMain', context]
  have switched : (w.goOn D.rest).switchTo f (.drive D.task (d + 1) D.max) =
      ((w.goOn D.rest).depart D.task (.drive D.task (d + 1) D.max)).goOn k := by
    have logged := log_quiet (w := w.goOn D.rest) quiet (n := .resumed D.task f.state) rfl
    simp only [World.switchTo, mine, logged, context]
    rfl
  have thread := World.depart_thread (w := w.goOn D.rest) (.drive D.task (d + 1) D.max) isMain ne
  have process := World.depart_process (w := w.goOn D.rest) isMain D.task
    (.drive D.task (d + 1) D.max)
  have found' : (w.goOn D.rest).thread.fiber? D.task = some f := found
  simp only [World.step, frames, code, World.carryOn, World.onHeld, found', World.driveOn, goes,
    Bool.false_or, decide_eq_true_eq, Nat.not_le.mpr room, World.resume, asked, mine, switched,
    World.letGo, World.settle]
  refine congrArg (·, World.Signal.running) ?_
  rw [World.goOn, World.onThread, process, thread]
  rfl

/-- A task that stands aside and comes back, and the main fiber, as they were but
for the code of the main fiber. -/
theorem there_and_back {t : Thread} (sound : t.Sound (some D.task) .exec h) (runs : D.Runs t) :
    (t.fibers.map (Thread.Sound.crossed D.task D.main
        (fun f => { f with state := next.state, context := some (.suspended k) })
        Thread.Sound.atHome)).map
      (Thread.Sound.crossed D.task D.main (fun f => { f with state := .exec, context := none })
        (Thread.Sound.parkedIn (.drive D.task d D.max) D.rest)) =
      t.fibers.map (D.guise fs d).fiber := by
  rw [List.map_map]
  refine List.map_congr_left fun f mem => ?_
  have stands := sound.fits f mem
  by_cases task : f.id = D.task
  · have ne : f.id ≠ D.main := task ▸ runs.ne
    have other : t.main ≠ some f.id := by
      rw [runs.main]
      exact fun same => ne (Option.some.inj same).symm
    have running := stands.runs other (congrArg some task.symm)
    rw [guise_fiber_of_ne ne]
    simp only [Function.comp, Thread.Sound.crossed, if_pos task, ← running.state,
      ← running.context]
  · by_cases main : f.id = D.main
    · have presides := stands.presides (runs.main.trans (congrArg some main.symm))
      cases presides with
      | parked noStack callback state context body awaits =>
        have parked : ∀ k, (D.guise fs d).context f.id (.suspended k) = .suspended (D.code d) := by
          simp [Guise.context, guise, main]
        simp only [Function.comp, Thread.Sound.crossed, if_neg task, if_pos main,
          Thread.Sound.atHome, Thread.Sound.parkedIn, Guise.fiber, context, Option.map_some,
          parked, callback, Option.map_none, state]
        rfl
    · rw [guise_fiber_of_ne main]
      simp only [Function.comp, Thread.Sound.crossed, if_neg task, if_neg main]

/-- A task that suspends itself is resumed at once. -/
theorem round (sound : Stage.Sound others ⟨w, some D.task, .exec, h⟩) (runs : D.Runs w.thread)
    (found : w.thread.fiber? f.id = some f)
    (accepted : f.yieldRefusal? w.thread.currentId = none) (parked : w.mainFrames = .ok (D.code d))
    (room : d < D.max) (quiet : Level.admits w.process.level .trace = false) :
    ∃ v, w.suspend m f next p = (v, .next) ∧ v.process = w.process ∧
      v.step = (⟨w.process, (D.guise (.waiting p :: w.thread.frames) (d + 1)).thread w.thread⟩,
        .running) := by
  obtain ⟨same, running⟩ := World.runner_of_yield sound found accepted
  have mine : f.id = D.task := (Option.some.inj same).symm
  have suspended : w.suspend m f next p = _ := World.suspend_eq runs.main parked running accepted
  rw [log_quiet quiet rfl, mine] at suspended
  have thread := World.yield_thread (w := w) p next (D.code d) runs.main runs.ne
  obtain ⟨g, found', mine', rest⟩ := sound.thread.runner_runs
  obtain rfl : f = g := Option.some.inj ((mine ▸ found).symm.trans found')
  have aside := Thread.fiber?_crossed (congrArg Thread.fibers thread) (fun _ => rfl)
    (fun _ => rfl) D.task
  rw [found', Option.map_some, Thread.Sound.crossed, if_pos mine] at aside
  refine ⟨_, suspended, rfl, ?_⟩
  rw [step_home (congrArg Thread.frames thread) (congrArg Thread.current thread)
    ((congrArg Thread.main thread).trans runs.main) runs.ne aside rfl rfl room quiet, thread]
  have fibers : (w.thread.fibers.map (Thread.Sound.crossed D.task D.main
        (fun f => { f with
          state := next.state, context := some (.suspended (.waiting p :: w.thread.frames)) })
        Thread.Sound.atHome)).map
      (Thread.Sound.crossed D.task D.main (fun f => { f with state := .exec, context := none })
        (Thread.Sound.parkedIn (.drive D.task (d + 1) D.max) D.rest)) =
      w.thread.fibers.map (D.guise (.waiting p :: w.thread.frames) (d + 1)).fiber :=
    there_and_back sound.thread runs
  simp only [fibers, Guise.thread, ← runs.current]
  rfl

end

end Drive

end FiberEngine
