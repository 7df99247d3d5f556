/-
FiberEngine.Proofs.Entering — calls of entry functions.

An entry function creates a task for its body and resumes it until the callback has ended.
While the call goes on, the thread is in one of two places (`Machine.Attends`): inside, where
the task runs and has been resumed once more than it has suspended itself, or between two
rounds, where the main fiber is about to resume it. A step leads from one to the other as
`step_hands_over` says. Since every run becomes lighter with each step, the call does not go
on for ever: the process is aborted meanwhile, or the callback ends, and the call is answered
with what the body has returned (`Machine.Served`).

The main statement is `entry_serves_body`.
-/
import Mathlib.Algebra.Group.Int.Defs
import Mathlib.Data.Nat.Count
import FiberEngine.Proofs.Accounts
import FiberEngine.Proofs.Constructing
import FiberEngine.Proofs.Handovers

namespace FiberEngine

variable {others : List FiberId} {h : List FiberId} {K : List Frame}

/-- What an entry function returns for the value of its body: the value itself, nothing, or
twice a natural number, and else an error. Integers are those of 64 bits. -/
inductive EntryShape.Returns : EntryShape → Datum → Reply → Prop
  | value (v : Datum) : Returns .value v (.value v)
  | unit (v : Datum) : Returns .unit v .nothing
  | twice {n : Int} (natural : 0 ≤ n) (fits : n < 2 ^ 63) :
    Returns .early (.integer n) (.early (.ok (2 * n)))
  | negative {n : Int} (below : n < 0) (fits : -2 ^ 63 ≤ n) :
    Returns .early (.integer n) (.early (.error ("negative " ++ toString n)))
  | other {v : Datum} (no : ∀ n, v = .integer n → n < -2 ^ 63 ∨ 2 ^ 63 ≤ n) :
    Returns .early v (.early (.error "no integer"))

/-- The engine answers accordingly. -/
theorem EntryShape.returns_entryReply (shape : EntryShape) (v : Datum) :
    shape.Returns v (World.entryReply shape v) := by
  cases shape with
  | value => exact .value v
  | unit => exact .unit v
  | early =>
    cases v with
    | integer n =>
      simp only [World.entryReply, Datum.integer?]
      by_cases fits : -(Nat.pow 2 63 : Int) ≤ n ∧ n < Nat.pow 2 63
      · rw [if_pos fits]
        obtain ⟨least, most⟩ := fits
        by_cases below : n < 0
        · simp only [if_pos below]
          exact .negative below (by simpa using least)
        · simp only [if_neg below]
          exact .twice (Int.not_lt.mp below) (by simpa using most)
      · rw [if_neg fits]
        refine .other fun n' same => ?_
        obtain rfl : n = n' := Datum.integer.inj same
        simp only [Nat.pow_eq, Nat.reducePow] at fits
        omega
    | _ => exact .other fun n same => nomatch same

/-- No such answer is an error of the engine. -/
theorem EntryShape.Returns.complaint {shape : EntryShape} {v : Datum} {reply : Reply}
    (returns : shape.Returns v reply) : reply.complaint? = none := by
  cases returns <;> rfl

namespace World

variable {w u v x : World} {id : FiberId} {f : Fiber} {size : Nat} {shape : EntryShape}
  {ops : List Op}

/-! ## 1. What a call comes to -/

/-- What the body has returned when its callback has ended. -/
def Finish.value? : Finish → Option Datum
  | .returned v => some v
  | .faulted _ => none

/-- The answer to an operation is recorded, and the code goes on. An answer in a demonstration
is not recorded. -/
structure Records (w : World) (name : String) (reply : Reply) (v : World) : Prop where
  thread : v.thread = w.thread
  process : v.process = { w.process with trace := v.process.trace }
  trace : v.process.trace.toList = w.process.trace.toList ++
    if w.process.program.isNone then [⟨w.thread, .completed name reply⟩] else []

/-- A panic in the code of a main fiber comes to the innermost block that catches it, or to the
demonstration that the code belongs to, or it ends the thread. -/
inductive Unwinds (w : World) (p : Payload) : World × Signal → Prop
  | caught {k : List Frame} (stops : w.stop = .catching :: k) :
    Unwinds w p ((w.goOn k).emit (.completed "catch" (.panicked p.text?)), .running)
  | shown {d : Demo} {k : List Frame} (stops : w.stop = .program d :: k) :
    Unwinds w p ((w.goOn k).endDemo d (some p), .running)
  | leaves (stops : w.stop = [.script]) : Unwinds w p (w, .ended (.panicked p))

/-- The panic of an entry function whose task is not created. -/
def Refusal.payload : Refusal → Payload
  | .panic p => p
  | .error e => .text ("cofiber::main cannot create its fiber: " ++ e.message)

/-- The thread has its main fiber, and this is current. It is made if there was none. -/
structure Boots (w v : World) (main : FiberId) : Prop where
  isMain : v.thread.main = some main
  current : v.thread.current = some main
  kept : w.thread.main ≠ none → v = w
  made : w.thread.main = none → main = w.process.nextId ∧
    v.process.nextId = w.process.nextId + 1 ∧ v.thread.fibers = w.thread.fibers ++ [Fiber.main main]

theorem currentFiber_boots (sound : Stage.Sound others ⟨w, none, .exec, h⟩) :
    w.Boots w.currentFiber.1 w.currentFiber.2 where
  isMain := main_of_currentFiber sound
  current := w.currentFiber_current
  kept there := by
    obtain ⟨main, isMain⟩ := Option.ne_none_iff_exists'.mp there
    have current : w.thread.current = some main := by
      rw [sound.thread.current, isMain]
      rfl
    simp only [currentFiber, current]
  made missing := by
    have same := (w.count.1).log_same (.mainCreated w.process.nextId)
    simp only [currentFiber, sound.current_of_missing missing, missing]
    refine ⟨rfl, same.nextId, ?_⟩
    simp only [onThread, Thread.insert]
    exact congrArg (· ++ [Fiber.main w.process.nextId]) (congrArg Thread.fibers same.thread)

/-! ## 2. The steps of a call -/

/-- The main fiber resumes a task whose callback has not ended, and the task runs. -/
theorem resume_passes {m : Manner} {q : Pending}
    (sound : Stage.Sound others ⟨w, none, .exec, f.id :: Frame.allHandles w.thread.frames⟩)
    (found : w.thread.fiber? f.id = some f) (body : Body none w.thread.frames)
    (notMain : w.thread.main ≠ some f.id) (goes : f.state.terminal = false)
    (awaits : q.Awaits f.id) :
    ∃ v, w.resume m f q = (v, .next) ∧ v = w.currentFiber.1.switchTo f q ∧
      v.process.halted = false ∧ v.thread.task? = some f.id ∧
      v.thread.Parks (.waiting q :: w.thread.frames) := by
  have accepted := accepted_of_awaited sound found notMain goes
  obtain ⟨-, can, same⟩ := accepted_of_resume (f := f) sound accepted
  have resumed : w.resume m f q = (w.currentFiber.1.switchTo f q, .next) := by
    rcases asked : w.resumeRefusal f with ⟨y, why⟩
    rw [asked] at accepted same
    obtain rfl : why = none := accepted
    obtain rfl : y = _ := same
    simp only [resume, asked]
  have asking : Stays (fun _ => True) _ _ := currentFiber_stays sound
  have after := asking.sound sound
  have frames : w.currentFiber.1.thread.frames = w.thread.frames := asking.frames
  obtain ⟨isMain, there, ne, rests⟩ := rests_beside_main sound found can
  have leads : Leads (fun _ => True) _ _ :=
    (switchTo_leads isMain there ne rests can (frames.symm ▸ body) awaits).1
  rw [body.script_handles] at after
  have turned := leads.sound after
  exact ⟨_, resumed, rfl, turned.going, turned.thread.task, resume_parks sound found resumed⟩

/-- Between two rounds, the call resumes the task. -/
theorem entryOn_resumes {result : Option Datum} (sound : Stage.Sound others (w.stage none))
    (ready : w.thread.Ready none)
    (frames : w.thread.frames = .waiting (.entry size shape f.id result) :: K)
    (found : w.thread.fiber? f.id = some f) (goes : f.state.terminal = false) :
    ∃ v, w.step = (v, .running) ∧ v.process.halted = false ∧ v.thread.task? = some f.id ∧
      v.thread.Parks (.waiting (.entry size shape f.id result) :: K) := by
  obtain ⟨body, home⟩ := ready.below frames
  have went : Leads (fun _ => True) (w.stage none) _ := waiting_leads frames body
  obtain ⟨-, notMain⟩ := home f.id rfl
  obtain ⟨v, resumed, -, going, runs, parks⟩ :=
    resume_passes (w := w.goOn K) (m := .trusted) (q := .entry size shape f.id result)
      (went.sound sound) found body notMain goes rfl
  have found : (w.goOn K).thread.fiber? f.id = some f := found
  refine ⟨v, ?_, going, runs, parks⟩
  simp only [step, frames, carryOn, onHeld, found, entryOn, goes, resumed, letGo, settle]
  rfl

/-- The call resumes the task that it has created, which enters its body. -/
theorem enterMain_resumes (shape : EntryShape) (sound : Stage.Sound others (w.stage none))
    (body : Body none w.thread.frames)
    (created : w.currentFiber.1.createTask .heap size ⟨ops, none, []⟩ = (x, .ok id)) :
    ∃ v, w.enterMain size shape ops = (v, .next) ∧ v.process.halted = false ∧
      v.thread.task? = some id ∧ v.thread.frames = [.ops ops, .task id none []] ∧
      v.thread.Parks (.waiting (.entry size shape id none) :: w.thread.frames) := by
  have asking : Stays (fun _ => True) _ _ := currentFiber_stays sound
  have made : Stays (fun _ => True)
      ⟨w.currentFiber.1, none, .exec, [] ++ Frame.allHandles w.thread.frames⟩ _ :=
    createTask_stays (fun _ => trivial) .heap size ⟨ops, none, []⟩
  obtain ⟨-, -, lease, -, -, found⟩ := createTask_new (asking.sound sound) created
  have whole := asking.trans made
  rw [created] at whole
  have frames : x.thread.frames = w.thread.frames := whole.frames
  have after : Stage.Sound others ⟨x, none, .exec, id :: Frame.allHandles x.thread.frames⟩ := by
    rw [frames]
    exact whole.sound sound
  obtain ⟨-, notMain⟩ := rests_of_canResume (f := Fiber.task id lease ⟨ops, none, []⟩) after.thread
    found rfl
  obtain ⟨v, resumed, turned, going, runs, parks⟩ :=
    resume_passes (f := Fiber.task id lease ⟨ops, none, []⟩) (m := .trusted)
      (q := .entry size shape id none) after found (frames.symm ▸ body) notMain rfl rfl
  refine ⟨v, ?_, going, runs, ?_, frames ▸ parks⟩
  · simp only [enterMain, created, found]
    exact congrArg (letGo id) resumed
  · rw [turned, frames_switchTo_fresh rfl rfl]
    rfl

/-- The step that calls an entry function. -/
theorem Starts.entry_step (starts : w.Starts (.entry size shape ops) u) :
    w.step = settle (Op.entry size shape ops).name (u.enterMain size shape ops) := by
  obtain ⟨rest, k, code, rfl⟩ := starts
  simp only [step, code, perform]

/-- A call whose task is not created panics. -/
theorem enterMain_refused (shape : EntryShape) {why : Refusal}
    (refused : w.currentFiber.1.createTask .heap size ⟨ops, none, []⟩ = (x, .error why)) :
    w.enterMain size shape ops = (x, .panicked why.payload) := by
  cases why <;> simp only [enterMain, refused] <;> rfl

/-- A task that calls an entry function cannot resume the task that it has created. -/
theorem enterMain_nested (shape : EntryShape) {task : FiberId}
    (sound : Stage.Sound others (w.stage (some task)))
    (created : w.createTask .heap size ⟨ops, none, []⟩ = (x, .ok id)) :
    w.enterMain size shape ops = letGo id (x.fatal (FiberError.notOnMainFiber id task).message) := by
  have made : Stays (fun _ => True)
      ⟨w, some task, .exec, [] ++ Frame.allHandles w.thread.frames⟩ _ :=
    createTask_stays (fun _ => trivial) .heap size ⟨ops, none, []⟩
  obtain ⟨-, -, lease, -, -, found⟩ := createTask_new sound created
  have after := made.sound sound
  rw [created] at after
  have current : x.currentFiber = (x, task) := currentFiber_of_runner after.thread
  have refused : x.resumeRefusal (Fiber.task id lease ⟨ops, none, []⟩) =
      (x, some (.notOnMainFiber id task)) := by
    have can : (Fiber.task id lease ⟨ops, none, []⟩).resumeRefusal? = none := rfl
    simp only [resumeRefusal, can, current, if_neg (after.thread.apart task rfl).2]
    rfl
  have entered : x.entryOn (Fiber.task id lease ⟨ops, none, []⟩) size shape none =
      x.resume .trusted (Fiber.task id lease ⟨ops, none, []⟩) (.entry size shape id none) := rfl
  simp only [enterMain, currentFiber_of_runner sound.thread, created, found, entered, resume, refused]
  rfl

/-- When the callback has returned a value, the call is answered. -/
theorem entry_returns {v : Datum}
    (frames : w.thread.frames = .waiting (.entry size shape id (some v)) :: K)
    (found : w.thread.fiber? id = some f) (ended : f.state = .term) :
    w.step = ((w.goOn K).release [id]).conclude "entry" (entryReply shape v) := by
  have found' : (w.goOn K).thread.fiber? id = some f := found
  have terminal : f.state.terminal = true := by rw [ended]; rfl
  simp only [step, frames, carryOn, onHeld, found', entryOn, terminal, letGo]
  rfl

/-- When a panic has ended the callback, the call panics. -/
theorem entry_panics (frames : w.thread.frames = .waiting (.entry size shape id none) :: K)
    (found : w.thread.fiber? id = some f) (ended : f.state = .except) :
    w.step = ((w.goOn K).release [id]).unwind
      (.text ("cofiber::main body faulted in fiber " ++ toString id)) := by
  have found' : (w.goOn K).thread.fiber? id = some f := found
  have mine := Thread.id_of_fiber? found
  have terminal : f.state.terminal = true := by rw [ended]; rfl
  simp only [step, frames, carryOn, onHeld, found', entryOn, terminal, letGo, mine]
  rfl

/-- An answer that is no error of the engine is recorded. -/
theorem conclude_records {reply : Reply} (going : w.process.halted = false) (name : String)
    (plain : reply.complaint? = none) :
    ∃ v, w.conclude name reply = (v, .running) ∧ w.Records name reply v := by
  cases calm : w.process.program with
  | none =>
    refine ⟨w.emit (.completed name reply), by simp only [conclude, calm], w.emit_thread _,
      w.emit_process _, ?_⟩
    rw [emit_trace going, calm, Option.isNone_none, if_pos rfl]
  | some d =>
    exact ⟨w, by simp only [conclude, calm, plain], rfl, rfl, by simp [calm]⟩

theorem unwind_unwinds (body : Body none w.thread.frames) (p : Payload) :
    w.Unwinds p (w.unwind p) := by
  have stops := body.unwind
  unfold unwind
  generalize stop : w.thread.frames.dropWhile (fun f => !f.stopsPanic) = k at stops
  cases stops with
  | catching rest same => exact .caught stop
  | program rest same => exact .shown stop
  | task mine same => cases mine
  | script mine same => exact .leaves stop

/-- What is left when the handle of the call is released: the main fiber is at its own place,
and the task is gone unless there is another handle to it. -/
theorem release_call {q : Pending} {main : FiberId} (sound : Stage.Sound others (w.stage none))
    (body : Body none K) (frames : w.thread.frames = .waiting q :: K) (own : q.handles = [id])
    (isMain : w.thread.main = some main) :
    Stage.Sound others ⟨(w.goOn K).release [id], none, .exec, []⟩ ∧
    (w.goOn K).Sheds ((w.goOn K).release [id]) ∧
    ((w.goOn K).release [id]).thread.current = some main ∧
    (∃ g, ((w.goOn K).release [id]).thread.fiber? main = some g ∧ g.state = .exec) ∧
    (((w.goOn K).release [id]).thread.fiber? id = none ↔ id ∉ w.thread.kept) := by
  have went : Leads (fun _ => True) (w.stage none) _ := waiting_leads frames body
  have before := went.sound sound
  rw [own, body.script_handles] at before
  have sheds := release_sheds [id] before
  rw [List.append_nil] at before
  have after : Stage.Sound others ⟨(w.goOn K).release [id], none, .exec, []⟩ :=
    (before.release [id]).sound
  have isMain' : ((w.goOn K).release [id]).thread.main = some main :=
    (release_main (w.goOn K) [id]).trans isMain
  obtain ⟨g, home, -, presides⟩ := after.thread.main_presides isMain'
  refine ⟨after, sheds, by rw [after.thread.current, isMain']; rfl, ⟨g, home, ?_⟩, ?_⟩
  · cases presides with
    | home noStack callback state context => exact state
  · obtain ⟨f, found⟩ := before.thread.exists_of_held (List.mem_singleton_self id)
    obtain rfl := Thread.id_of_fiber? found
    have kept : (w.goOn K).thread.kept = w.thread.kept := rfl
    rw [← kept]
    by_cases last : f.handles ≤ 1
    · -- the handle of the call is the last one
      have gone : ((w.goOn K).release [f.id]).thread.fiber? f.id = none := by
        rw [Option.eq_none_iff_forall_ne_some]
        intro g still
        rw [release_of_last found last] at still
        obtain ⟨f', there, -⟩ := fiber?_release still
        rw [Thread.fiber?, destroy_fibers, ← Thread.fiber?, Thread.fiber?_erase, if_pos rfl] at there
        cases there
      exact iff_of_true gone (before.thread.count_last found last)
    · have still : ((w.goOn K).release [f.id]).thread.fiber? f.id ≠ none := by
        rw [release_more found last]
        simp [onThread, Thread.fiber?_update, found]
      have total : handlesTo (w.goOn K).thread.fibers f.id =
          ((w.goOn K).thread.kept ++ [f.id]).count f.id := before.thread.census f.id
      rw [handlesTo_of_mem before.thread.distinct (Thread.mem_of_fiber? found), List.count_append,
        List.count_singleton_self] at total
      have elsewhere : 0 < (w.goOn K).thread.kept.count f.id := by omega
      exact iff_of_false still (not_not_intro (List.count_pos_iff.mp elsewhere))

end World

namespace Machine

variable {m : Machine} {d n : Nat} {id : FiberId} {size : Nat} {shape : EntryShape}

/-! ## 3. A thread that runs a task -/

theorem hear_task (t : Thread) (e : Ending) : (hear t e).task? = t.task? := by
  unfold hear
  split
  · rename_i kind o k frames
    simp only [Thread.task?, Thread.goOn, frames]
    cases k <;> rfl
  · rfl

/-- The thread with so many threads around it runs a task, or has started a thread there, and
its main fiber has parked some code. -/
def RunsOver (m : Machine) (d : Nat) (id : FiberId) (K : List Frame) : Prop :=
  ∃ t, m.threads[d]? = some t ∧ t.task? = some id ∧ t.Parks K

theorem RunsOver.runsAt (stands : m.RunsOver d id K) : m.RunsAt d id := by
  obtain ⟨t, here, runs, -⟩ := stands
  exact ⟨t, here, runs⟩

/-- What a thread runs can be read off it while it makes the steps itself. -/
theorem task_of_runsAt (runs : m.RunsAt d id) (alone : m.spawners.length = d) :
    m.world.thread.task? = some id := by
  subst alone
  obtain ⟨t, here, runs⟩ := runs
  obtain rfl := Option.some.inj (m.threads_running.symm.trans here)
  exact runs

/-- So can what its main fiber has parked. -/
theorem RunsOver.parks (stands : m.RunsOver d id K) (alone : m.spawners.length = d) :
    m.world.thread.Parks K := by
  subst alone
  obtain ⟨t, here, -, parks⟩ := stands
  obtain rfl := Option.some.inj (m.threads_running.symm.trans here)
  exact parks

/-- A step of a task does not end its thread. It may start another one. -/
theorem Sound.thread_of_task (sound : m.Sound) (goes : m.done = false)
    (runs : m.world.thread.task? = some id)
    (still : m.world.step.1.thread.task? = some id) :
    m.step.finished = false ∧
      m.step.threads[m.spawners.length]? = some m.world.step.1.thread := by
  obtain ⟨stage, ready⟩ := sound.stage_of_task runs
  have unfinished := finished_of_goes goes
  have steps := World.step_steps stage (ready unfinished)
  rw [step_eq]
  generalize m.world.step = x at steps still ⊢
  cases steps with
  | @running v comes => exact ⟨unfinished, threads_running { m with world := v }⟩
  | @ended v e leads body => cases body.owner.symm.trans still
  | @started v r kind ops k leads body frames =>
    refine ⟨unfinished, ?_⟩
    have eq : (m.take (v, .started (World.child kind ops))).threads =
        m.spawners.reverse ++ [v.thread, World.child kind ops] := by
      simp [take, threads]
    rw [eq, List.getElem?_append_right (by simp)]
    simp

/-- A step of a machine, while one of its threads runs a task: the task goes on running, or
this thread makes the step, and the main fiber goes on in it. -/
theorem Sound.over_step (sound : m.Sound) (goes : m.done = false) (stands : m.RunsOver d id K)
    (going : m.step.world.process.halted = false) :
    (m.step.finished = false ∧ m.step.RunsOver d id K) ∨
      m.spawners.length = d ∧ ∃ v, m.world.step = (v, .running) ∧ m.world.GivesWay id K v := by
  obtain ⟨t, here, runs, parks⟩ := stands
  have parks_on : ∀ u, m.step.threads[d]? = some u → u.task? = some id → u.Parks K := fun u =>
    sound.parks_step goes here runs parks going
  rcases Nat.lt_trichotomy d m.spawners.length with below | rfl | above
  · obtain ⟨u, there, same⟩ := waits_on m.world.step below here
    rw [← step_eq] at there
    have still : u.task? = some id := by
      obtain rfl | ⟨e, rfl⟩ := same
      · exact runs
      · rw [hear_task, runs]
    refine .inl ⟨?_, u, there, still, parks_on u there still⟩
    -- the first thread does not end before the ones that it has started
    cases waiting : m.spawners with
    | nil => simp [waiting] at below
    | cons parent rest =>
      have unfinished := finished_of_goes goes
      rw [step_eq]
      rcases m.world.step with ⟨w, _ | e | child⟩ <;> simp [take, finishThread, waiting, unfinished]
  · obtain rfl := Option.some.inj (m.threads_running.symm.trans here)
    obtain ⟨stage, ready⟩ := sound.stage_of_task runs
    have ready := ready (finished_of_goes goes)
    have lasts : m.world.step.1.process.halted = false := by
      have steps := World.step_steps stage ready
      rw [step_eq] at going
      generalize m.world.step = x at steps going ⊢
      cases steps with
      | running comes => exact going
      | ended leads body => exact (leads.sound stage).going
      | started leads body frames => exact going
    refine (World.step_hands_over stage ready parks lasts).imp (fun still => ?_) fun way => ⟨rfl, way⟩
    obtain ⟨unfinished, there⟩ := sound.thread_of_task goes runs still
    exact ⟨unfinished, _, there, still, parks_on _ there still⟩
  · rw [m.threads_above above] at here
    cases here

/-! ## 4. The rounds of a call -/

/-- In this step, counted from the call, the thread of the call switches into the task. -/
def ResumesAt (m : Machine) (id : FiberId) (n : Nat) : Prop :=
  ¬ (m.steps n).RunsAt m.spawners.length id ∧ (m.steps (n + 1)).RunsAt m.spawners.length id

/-- In this step, counted from the call, the task performs an operation that suspends it. -/
structure YieldsAt (m : Machine) (id : FiberId) (n : Nat) : Prop where
  alone : (m.steps n).spawners.length = m.spawners.length
  runs : (m.steps n).world.thread.task? = some id
  parks : ∃ op u next f, (m.steps n).world.Starts op u ∧ op.parking? = some next ∧
    (m.steps (n + 1)).world.thread.fiber? id = some f ∧ f.state = next.state
  gone : ¬ (m.steps (n + 1)).RunsAt m.spawners.length id

open Classical in
/-- How often the task is resumed in the first steps of a call. -/
noncomputable def resumed (m : Machine) (id : FiberId) (n : Nat) : Nat :=
  Nat.count (m.ResumesAt id) n

open Classical in
/-- How often the task suspends itself in the first steps of a call. -/
noncomputable def yielded (m : Machine) (id : FiberId) (n : Nat) : Nat :=
  Nat.count (m.YieldsAt id) n

theorem resumed_of_resumes (resumes : m.ResumesAt id n) :
    m.resumed id (n + 1) = m.resumed id n + 1 := by
  classical
  exact (Nat.count_succ ..).trans (by rw [if_pos resumes]; rfl)

theorem resumed_of_not (stays : ¬ m.ResumesAt id n) : m.resumed id (n + 1) = m.resumed id n := by
  classical
  exact (Nat.count_succ ..).trans (by rw [if_neg stays]; rfl)

theorem yielded_of_yields (yields : m.YieldsAt id n) :
    m.yielded id (n + 1) = m.yielded id n + 1 := by
  classical
  exact (Nat.count_succ ..).trans (by rw [if_pos yields]; rfl)

theorem yielded_of_not (stays : ¬ m.YieldsAt id n) : m.yielded id (n + 1) = m.yielded id n := by
  classical
  exact (Nat.count_succ ..).trans (by rw [if_neg stays]; rfl)

/-- Where a machine can be, so many steps after a call, as long as the call goes on. -/
inductive Attends (m : Machine) (id : FiberId) (size : Nat) (shape : EntryShape) (K : List Frame)
    (n : Nat) : Prop
  /-- The task runs, and it has been resumed once more than it has suspended itself. -/
  | inside (goes : (m.steps n).done = false)
    (stands : (m.steps n).RunsOver m.spawners.length id (.waiting (.entry size shape id none) :: K))
    (rounds : m.resumed id n = m.yielded id n + 1)
  /-- The task is suspended, and the main fiber is about to resume it. -/
  | between (goes : (m.steps n).done = false)
    (alone : (m.steps n).spawners.length = m.spawners.length)
    (idle : (m.steps n).world.thread.task? = none)
    (frames : (m.steps n).world.thread.frames = .waiting (.entry size shape id none) :: K)
    (task : ∃ f, ∃ next : Parking, (m.steps n).world.thread.fiber? id = some f ∧
      f.state = next.state)
    (rounds : m.resumed id n = m.yielded id n)

/-- The callback of the task has ended, and the next step answers the call. -/
structure AnswersCall (m : Machine) (id : FiberId) (size : Nat) (shape : EntryShape)
    (K : List Frame) (e : World.Finish) : Prop where
  goes : m.done = false
  task : ∃ f, m.world.thread.fiber? id = some f ∧ f.state = e.state
  frames : m.world.thread.frames = .waiting (.entry size shape id e.value?) :: K
  /-- The call lets its handle go, and nothing else becomes of the thread and the process. -/
  sheds : (m.world.goOn K).Sheds ((m.world.goOn K).release [id])
  /-- It returns what the body has returned. -/
  returns : ∀ v, e = .returned v → ∃ reply, shape.Returns v reply ∧
    m.step = { m with world := m.step.world } ∧
    ((m.world.goOn K).release [id]).Records "entry" reply m.step.world
  /-- If the body has been left by a panic, so is the call. -/
  panics : ∀ p, e = .faulted p → ∃ x, m.step = m.take x ∧
    ((m.world.goOn K).release [id]).Unwinds
      (.text ("cofiber::main body faulted in fiber " ++ toString id)) x
  /-- By then the main fiber is current and in `exec`. -/
  main : ∃ main g, ((m.world.goOn K).release [id]).thread.main = some main ∧
    ((m.world.goOn K).release [id]).thread.current = some main ∧
    ((m.world.goOn K).release [id]).thread.fiber? main = some g ∧ g.state = .exec
  /-- The task is gone unless a handle to it is somewhere else. -/
  gone : ((m.world.goOn K).release [id]).thread.fiber? id = none ↔ id ∉ m.world.thread.kept

/-- In this step, counted from the call, the callback of the task ends, and in the next one the
call is answered. -/
structure Served (m : Machine) (id : FiberId) (size : Nat) (shape : EntryShape) (K : List Frame)
    (n : Nat) (e : World.Finish) : Prop where
  alone : (m.steps (n + 1)).spawners.length = m.spawners.length
  /-- The callback is destroyed. If it has returned, the process is what this makes of it. If a
  panic has ended it, this is reported once, and all else is as it is when a panic is
  contained. -/
  ends : ∃ tag keep u, (m.steps n).world.EndsBy id tag keep e u ∧
    (m.steps (n + 1)).world = u.finish id tag keep e ∧
    (∀ v, e = .returned v → u.Sheds (u.dropCallback tag keep) ∧
      (m.steps (n + 1)).world.process = (u.dropCallback tag keep).process) ∧
    ∀ p, e = .faulted p → u.process.hook.panics = false ∧
      u.Contains (m.steps (n + 1)).world id p tag keep (.waiting (.entry size shape id none) :: K)
  /-- In the whole call, the task is resumed once more than it suspends itself. -/
  rounds : m.resumed id (n + 2) = m.yielded id (n + 2) + 1
  answers : (m.steps (n + 1)).AnswersCall id size shape K e

/-- A call that returns is answered under the demonstration, if any, in which its body has ended. -/
theorem Served.program {v : Datum} (served : m.Served id size shape K n (.returned v)) :
    (((m.steps (n + 1)).world.goOn K).release [id]).process.program =
      (m.steps n).world.process.program := by
  obtain ⟨tag, keep, u, ends, -, silent, -⟩ := served.ends
  obtain ⟨sheds, process⟩ := silent v rfl
  have same : u.process = (m.steps n).world.process := by
    cases ends with
    | through frames => rfl
    | early starts base =>
      obtain ⟨rest, k, -, rfl⟩ := starts
      rfl
  rw [served.answers.sheds.process]
  change (m.steps (n + 1)).world.process.program = _
  rw [process, sheds.process, same]

/-- How a call ends, with the step that is so many steps behind it. -/
inductive Concludes (m : Machine) (id : FiberId) (size : Nat) (shape : EntryShape)
    (K : List Frame) (n : Nat) : Prop
  /-- The process ends while the task runs. -/
  | aborted (runs : (m.steps n).RunsAt m.spawners.length id)
    (halted : (m.steps (n + 1)).world.process.halted = true)
  /-- The callback of the task ends. -/
  | served {e : World.Finish} (served : m.Served id size shape K n e)

/-- A machine does not go on running a task in a thread in which the main fiber is back. -/
theorem not_runsAt_of_idle (alone : m.spawners.length = d) (idle : m.world.thread.task? = none) :
    ¬ m.RunsAt d id := by
  intro runs
  cases idle.symm.trans (task_of_runsAt runs alone)

/-- Where a task has given way, the main fiber goes on behind the call. -/
theorem goes_back {w v : World} {others : List FiberId} {q : Pending}
    (sound : Stage.Sound others (w.stage (some id))) (ready : w.thread.Ready (some id))
    (parks : w.thread.Parks (.waiting q :: K)) (step : w.step = (v, .running))
    (going : v.process.halted = false) (way : w.GivesWay id (.waiting q :: K) v) :
    v.thread.task? = none ∧ Body none K := by
  obtain ⟨main, q', k, -, -, parked, body, -⟩ := World.mainFrames_of_runner sound.thread
  cases (World.parks_iff.mpr parks).symm.trans parked
  refine ⟨?_, body⟩
  cases way with
  | yields starts parks frames task =>
    rw [Thread.task?, frames]
    exact body.owner_cons _
  | @ends tag keep e u ends left =>
    obtain ⟨q', handed, -, -⟩ := World.handTo_waiting e id q K
    have closes := ends.closes sound ready parks (by rw [step]; exact going)
    rw [← left] at closes
    rw [Thread.task?, closes.frames, handed]
    exact body.owner_cons _

/-! ## 5. The steps of a call -/

/-- The call is answered when the callback has ended, and the main fiber goes on. -/
theorem Sound.answers_call {main : FiberId} {e : World.Finish} (sound : m.Sound)
    (goes : m.done = false) (idle : m.world.thread.task? = none) (body : Body none K)
    (frames : m.world.thread.frames = .waiting (.entry size shape id e.value?) :: K)
    (task : ∃ f, m.world.thread.fiber? id = some f ∧ f.state = e.state)
    (isMain : m.world.thread.main = some main) :
    m.AnswersCall id size shape K e ∧ ¬ m.step.RunsAt m.spawners.length id := by
  obtain ⟨stage, -⟩ := sound.stage_of_task idle
  obtain ⟨after, sheds, current, ⟨g, home, exec⟩, gone⟩ :=
    World.release_call stage body frames rfl isMain
  have isMain' : ((m.world.goOn K).release [id]).thread.main = some main :=
    (World.release_main _ [id]).trans isMain
  have code : ((m.world.goOn K).release [id]).thread.frames = K :=
    (World.release_keeps _ [id]).2.1
  rw [← code] at body
  have back : m.world.step.1.thread.task? = none →
      ¬ m.step.RunsAt m.spawners.length id := by
    rintro idle ⟨u, there, still⟩
    obtain ⟨rfl, -⟩ := sound.thread_of_runs goes there still
    cases idle.symm.trans still
  have home : ∃ main g, ((m.world.goOn K).release [id]).thread.main = some main ∧
      ((m.world.goOn K).release [id]).thread.current = some main ∧
      ((m.world.goOn K).release [id]).thread.fiber? main = some g ∧ g.state = .exec :=
    ⟨main, g, isMain', current, home, exec⟩
  have ended := task
  obtain ⟨f, found, state⟩ := ended
  cases e with
  | returned v =>
    have returns := shape.returns_entryReply v
    have step := World.entry_returns frames found state
    obtain ⟨x, concluded, records⟩ := World.conclude_records after.going "entry" returns.complaint
    have stepped : m.step = { m with world := x } := step_of_running (step.trans concluded)
    refine ⟨⟨goes, task, frames, sheds, fun v' same => ?_, fun p none => (nomatch none), home, gone⟩,
      back ?_⟩
    · cases same
      rw [stepped]
      exact ⟨_, returns, rfl, records⟩
    · rw [step]
      exact World.conclude_idle body _ _
  | faulted p =>
    have step := World.entry_panics frames found state
    refine ⟨⟨goes, task, frames, sheds, fun v none => (nomatch none), fun p' same => ?_, home, gone⟩,
      back ?_⟩
    · exact ⟨_, by rw [step_eq, step], World.unwind_unwinds body _⟩
    · rw [step]
      exact World.unwind_idle body _

section

variable (sound : (m.steps n).Sound) (goes : (m.steps n).done = false)
  (stands : (m.steps n).RunsOver m.spawners.length id (.waiting (.entry size shape id none) :: K))
  (rounds : m.resumed id n = m.yielded id n + 1)
  (going : (m.steps (n + 1)).world.process.halted = false)

include goes going in
/-- The thread of a call makes a step, and its main fiber goes on. -/
theorem back_at {v : World} (id : FiberId)
    (alone : (m.steps n).spawners.length = m.spawners.length)
    (step : (m.steps n).world.step = (v, .running)) (idle : v.thread.task? = none) :
    (m.steps (n + 1)).world = v ∧ (m.steps (n + 1)).done = false ∧
      (m.steps (n + 1)).spawners.length = m.spawners.length ∧
      ¬ (m.steps (n + 1)).RunsAt m.spawners.length id := by
  have after : m.steps (n + 1) = { m.steps n with world := v } :=
    (steps_succ_of_goes goes).trans (step_of_running step)
  rw [after] at going ⊢
  exact ⟨rfl, goes_of_going goes going, alone, not_runsAt_of_idle alone idle⟩

include sound goes stands rounds going

/-- When the callback ends, the next step answers the call. -/
theorem served_of_ends {tag : Option String} {keep : List FiberId} {e : World.Finish} {u : World}
    (alone : (m.steps n).spawners.length = m.spawners.length)
    (ends : (m.steps n).world.EndsBy id tag keep e u) : m.Served id size shape K n e := by
  have resumed : m.resumed id (n + 1) = m.resumed id n :=
    resumed_of_not fun now => now.1 stands.runsAt
  have parks := stands.parks alone
  obtain ⟨stage, ready⟩ := sound.stage_of_task (task_of_runsAt stands.runsAt alone)
  have ready := ready (finished_of_goes goes)
  have next := steps_succ_of_goes goes
  have sound' : (m.steps (n + 1)).Sound := by
    rw [next] at going ⊢
    exact sound.step goes going
  obtain ⟨step, -⟩ := ends.finishes stage ready parks
  have world : (m.steps (n + 1)).world = u.finish id tag keep e :=
    congrArg Machine.world (next.trans (step_of_running step))
  have going' : (u.finish id tag keep e).process.halted = false := world ▸ going
  have closes := ends.closes stage ready parks (by rw [step]; exact going')
  obtain ⟨idle, body⟩ := goes_back stage ready parks step going' (.ends ends rfl)
  obtain ⟨-, goes', alone', -⟩ := back_at goes going id alone step idle
  rw [← world] at closes idle
  obtain ⟨f, found, state⟩ := closes.task
  have code : (m.steps (n + 1)).world.thread.frames =
      .waiting (.entry size shape id e.value?) :: K := by
    rw [closes.frames]
    cases e <;> simp [World.Finish.handTo, World.Finish.value?]
  obtain ⟨main, isMain⟩ : ∃ main, (m.steps (n + 1)).world.thread.main = some main := by
    obtain ⟨main, -, isMain, -⟩ := parks
    obtain ⟨new, -, keeps⟩ := sound.step_adds goes
    rw [← next] at keeps
    have there := (m.steps (n + 1)).threads_running
    rw [alone', ← alone] at there
    exact ⟨main, (keeps going).threads _ _ _ (threads_running _) there main isMain⟩
  obtain ⟨answers, left⟩ := sound'.answers_call goes' idle body code ⟨f, found, state⟩ isMain
  rw [alone', ← steps_succ_of_goes goes'] at left
  have none : ¬ m.YieldsAt id n := by
    rintro ⟨-, -, ⟨op, u, p, f', -, -, found', parked⟩, -⟩
    cases found.symm.trans found'
    rw [state] at parked
    cases e <;> cases p <;> cases parked
  have later : ¬ m.YieldsAt id (n + 1) := fun now => by cases idle.symm.trans now.runs
  have rounds' : m.resumed id (n + 2) = m.yielded id (n + 2) + 1 := by
    rw [resumed_of_not fun now => left now.2, resumed, yielded_of_not later, yielded_of_not none,
      rounds]
  exact ⟨alone', ⟨tag, keep, u, ends, world, closes.returns, closes.contains⟩, rounds', answers⟩

/-- A step inside of a call. -/
theorem inside_next :
    m.Attends id size shape K (n + 1) ∨ ∃ e, m.Served id size shape K n e := by
  have resumed : m.resumed id (n + 1) = m.resumed id n :=
    resumed_of_not fun now => now.1 stands.runsAt
  have next := steps_succ_of_goes goes
  rcases sound.over_step goes stands (next ▸ going) with ⟨unfinished, still⟩ | ⟨alone, v, step, way⟩
  · rw [← next] at unfinished still
    have yielded : m.yielded id (n + 1) = m.yielded id n := yielded_of_not fun now =>
      now.gone still.runsAt
    have goes' : (m.steps (n + 1)).done = false := by
      rw [done, unfinished, going, Bool.or_false]
    exact .inl (.inside goes' still (by rw [resumed, yielded, rounds]))
  · cases way with
    | ends ends left => exact .inr ⟨_, served_of_ends sound goes stands rounds going alone ends⟩
    | @yields op u p starts suspends frames task =>
      have parks := stands.parks alone
      have runs := task_of_runsAt stands.runsAt alone
      obtain ⟨stage, ready⟩ := sound.stage_of_task runs
      have world : (m.steps (n + 1)).world = v :=
        congrArg Machine.world (next.trans (step_of_running step))
      obtain ⟨idle, -⟩ := goes_back stage (ready (finished_of_goes goes)) parks step (world ▸ going)
        (.yields starts suspends frames task)
      obtain ⟨-, goes', alone', gone⟩ := back_at goes going id alone step idle
      rw [← world] at frames task idle
      obtain ⟨f, found, state⟩ := task
      have yielded : m.yielded id (n + 1) = m.yielded id n + 1 :=
        yielded_of_yields ⟨alone, runs, ⟨op, u, p, f, starts, suspends, found, state⟩, gone⟩
      exact .inl (.between goes' alone' idle frames ⟨f, p, found, state⟩ (by
        rw [resumed, yielded, rounds]))

end

/-- A step between two rounds of a call. -/
theorem between_next (sound : (m.steps n).Sound) (goes : (m.steps n).done = false)
    (alone : (m.steps n).spawners.length = m.spawners.length)
    (idle : (m.steps n).world.thread.task? = none)
    (frames : (m.steps n).world.thread.frames = .waiting (.entry size shape id none) :: K)
    (task : ∃ f, ∃ next : Parking, (m.steps n).world.thread.fiber? id = some f ∧
      f.state = next.state)
    (rounds : m.resumed id n = m.yielded id n) : m.Attends id size shape K (n + 1) := by
  obtain ⟨f, p, found, state⟩ := task
  obtain rfl := Thread.id_of_fiber? found
  obtain ⟨stage, ready⟩ := sound.stage_of_task idle
  have live : f.state.terminal = false := by
    rw [state]
    cases p <;> rfl
  obtain ⟨v, step, going, runs, parks⟩ :=
    World.entryOn_resumes stage (ready (finished_of_goes goes)) frames found live
  have after : m.steps (n + 1) = { m.steps n with world := v } :=
    (steps_succ_of_goes goes).trans (step_of_running step)
  have goes' : (m.steps (n + 1)).done = false := by
    rw [after]
    exact goes_of_going goes going
  have stands : (m.steps (n + 1)).RunsOver m.spawners.length f.id
      (.waiting (.entry size shape f.id none) :: K) := by
    rw [after, ← alone]
    exact ⟨v.thread, threads_running { m.steps n with world := v }, runs, parks⟩
  refine .inside goes' stands ?_
  rw [resumed_of_resumes ⟨not_runsAt_of_idle alone idle, stands.runsAt⟩,
    yielded_of_not fun now => (by cases idle.symm.trans now.runs), rounds]

/-- **One step of a call.** The call goes on, or it ends. -/
theorem Attends.next (attends : m.Attends id size shape K n) (sound : (m.steps n).Sound) :
    m.Attends id size shape K (n + 1) ∨ m.Concludes id size shape K n := by
  cases attends with
  | inside goes stands rounds =>
    cases halted : (m.steps (n + 1)).world.process.halted with
    | true => exact .inr (.aborted stands.runsAt halted)
    | false =>
      refine (inside_next sound goes stands rounds halted).imp_right ?_
      rintro ⟨e, served⟩
      exact .served served
  | between goes alone idle frames task rounds =>
    exact .inl (between_next sound goes alone idle frames task rounds)

/-! ## 6. Whole calls -/

/-- How a call whose task has been created goes on: its first step enters the body, and after
some steps of attending to it the call ends. Whatever ends the callback meanwhile, no code, an
early return or a panic, ends the call accordingly. -/
structure Serves (m : Machine) (id : FiberId) (size : Nat) (shape : EntryShape) (ops : List Op)
    (K : List Frame) : Prop where
  begins : (m.steps 1).world.thread.frames = [.ops ops, .task id none []]
  course : ∃ n, 1 ≤ n ∧ (∀ j, 1 ≤ j → j ≤ n → m.Attends id size shape K j) ∧
    m.Concludes id size shape K n
  ends : ∀ j tag keep e u, m.Attends id size shape K j →
    (m.steps j).spawners.length = m.spawners.length →
    (m.steps j).world.thread.task? = some id → (m.steps j).world.EndsBy id tag keep e u →
    m.Served id size shape K j e ∨
      ∃ p, e = .faulted p ∧ u.process.hook.panics = true ∧
        (m.steps (j + 1)).world.process.halted = true

/-- A call is attended to for some steps at least, or it has ended before. -/
theorem Sound.attends_for (sound : m.Sound) (first : m.Attends id size shape K 1) (i : Nat) :
    (∀ j, 1 ≤ j → j ≤ i + 1 → m.Attends id size shape K j) ∨
      ∃ n, 1 ≤ n ∧ (∀ j, 1 ≤ j → j ≤ n → m.Attends id size shape K j) ∧
        m.Concludes id size shape K n := by
  induction i with
  | zero =>
    refine .inl fun j least most => ?_
    obtain rfl : j = 1 := by omega
    exact first
  | succ i ih =>
    rcases ih with so_far | ended
    · have last := so_far (i + 1) (Nat.succ_pos i) (Nat.le_refl _)
      have goes : (m.steps (i + 1)).done = false := by cases last <;> assumption
      have here := (sound.steps (i + 1)).resolve_right (by simp [halted_of_goes goes])
      rcases last.next here with next | ends
      · refine .inl fun j least most => ?_
        rcases Nat.lt_or_ge j (i + 2) with before | now
        · exact so_far j least (Nat.le_of_lt_succ before)
        · obtain rfl : j = i + 1 + 1 := by omega
          exact next
      · exact .inr ⟨i + 1, Nat.succ_pos i, so_far, ends⟩
    · exact .inr ended

/-- A callback that ends during the call is the end of the call. It ends the process only if
the hook panics over the report of a fault. -/
theorem Attends.ends {tag : Option String} {keep : List FiberId} {e : World.Finish} {u : World}
    (attends : m.Attends id size shape K n) (sound : (m.steps n).Sound)
    (alone : (m.steps n).spawners.length = m.spawners.length)
    (runs : (m.steps n).world.thread.task? = some id)
    (ends : (m.steps n).world.EndsBy id tag keep e u) :
    m.Served id size shape K n e ∨
      ∃ p, e = .faulted p ∧ u.process.hook.panics = true ∧
        (m.steps (n + 1)).world.process.halted = true := by
  cases attends with
  | between goes alone idle frames task rounds => cases idle.symm.trans runs
  | inside goes stands rounds =>
    cases halted : (m.steps (n + 1)).world.process.halted with
    | false => exact .inl (served_of_ends sound goes stands rounds halted alone ends)
    | true =>
      obtain ⟨stage, ready⟩ := sound.stage_of_task runs
      obtain ⟨step, before, base, parked⟩ :=
        ends.finishes stage (ready (finished_of_goes goes)) (stands.parks alone)
      rw [steps_succ_of_goes goes, step_of_running step] at halted
      have panics : ¬ ∀ p, e = .faulted p → u.process.hook.panics = false := fun returns => by
        cases (World.finish_going before base parked returns).symm.trans halted
      simp only [not_forall, exists_prop, Bool.not_eq_false] at panics
      obtain ⟨p, faulted, panics⟩ := panics
      exact .inr ⟨p, faulted, panics, rfl⟩

/-- A call whose task is created is served. -/
theorem Sound.serves {ops : List Op} {u x : World} (sound : m.Sound) (goes : m.done = false)
    (idle : m.world.thread.task? = none) (starts : m.world.Starts (.entry size shape ops) u)
    (created : u.currentFiber.1.createTask .heap size ⟨ops, none, []⟩ = (x, .ok id)) :
    m.Serves id size shape ops u.thread.frames := by
  obtain ⟨stage, ready⟩ := sound.stage_of_task idle
  obtain ⟨before, body⟩ := starts.sound stage (ready (finished_of_goes goes))
  obtain ⟨v, entered, going, runs, frames, parks⟩ :=
    World.enterMain_resumes shape before body created
  have step : m.world.step = (v, .running) := by rw [starts.entry_step, entered, World.settle]
  have after : m.steps 1 = { m with world := v } :=
    (steps_succ_of_goes (n := 0) goes).trans (step_of_running step)
  have stands : (m.steps 1).RunsOver m.spawners.length id
      (.waiting (.entry size shape id none) :: u.thread.frames) := by
    rw [after]
    exact ⟨v.thread, threads_running { m with world := v }, runs, parks⟩
  have idle' : ¬ (m.steps 0).RunsAt m.spawners.length id := not_runsAt_of_idle rfl idle
  have first : m.Attends id size shape u.thread.frames 1 := by
    have quiet : ¬ m.YieldsAt id 0 := fun now => by cases idle.symm.trans now.runs
    refine .inside (by rw [after]; exact goes_of_going goes going) stands ?_
    rw [resumed_of_resumes ⟨idle', stands.runsAt⟩, yielded_of_not quiet, resumed, yielded,
      Nat.count_zero, Nat.count_zero]
  refine ⟨by rw [after]; exact frames, ?_, fun j tag keep e v attends alone runs ends => ?_⟩
  case refine_2 =>
    have goes : (m.steps j).done = false := by cases attends <;> assumption
    exact attends.ends ((sound.steps j).resolve_right (by simp [halted_of_goes goes])) alone runs ends
  -- no run goes on for longer than it weighs
  refine (sound.attends_for first m.weight).resolve_left fun always => ?_
  have goes' : (m.steps (m.weight + 1)).done = false := by
    cases always (m.weight + 1) (Nat.succ_pos _) (Nat.le_refl _) <;> assumption
  have lighter := (sound.steps_lighter (m.weight + 1)).resolve_left (by simp [goes'])
  omega

/-- A violated contract has ended the process, out of some world: there is one report, and then
the entries of the end. -/
structure AbortedBy (m v : Machine) (x : World) (message : String) : Prop where
  ends : v = { m with world := (x.reportFatal message).1.abort }
  halted : v.world.process.halted = true
  trace : v.world.process.trace.toList = x.process.trace.toList ++
    x.reportEntries ("ASSERTION: " ++ message ++ "\nbacktrace:\n" ++ "    <frames>\n") ++
    (x.reportFatal message).1.lastEntries

/-- A call by a task violates a contract once its own task has been created: with a hook that
returns, this is reported, and the process ends. -/
theorem Sound.nested_call {task : FiberId} {ops : List Op} {u x : World} (sound : m.Sound)
    (goes : m.done = false) (runs : m.world.thread.task? = some task)
    (starts : m.world.Starts (.entry size shape ops) u)
    (created : u.createTask .heap size ⟨ops, none, []⟩ = (x, .ok id))
    (returns : x.process.hook.panics = false) :
    m.AbortedBy (m.steps 1) x ("fiber " ++ toString id ++
      " can only be resumed from the main fiber, but fiber " ++ toString task ++
      " is running") := by
  obtain ⟨stage, ready⟩ := sound.stage_of_task runs
  obtain ⟨before, body⟩ := starts.sound stage (ready (finished_of_goes goes))
  have made : Stays (fun _ => True)
      ⟨u, some task, .exec, [] ++ Frame.allHandles u.thread.frames⟩ _ :=
    World.createTask_stays (fun _ => trivial) .heap size ⟨ops, none, []⟩
  have going : x.process.halted = false := by
    have after := made.sound before
    rw [created] at after
    exact after.going
  change AbortedBy _ _ _ (FiberError.notOnMainFiber id task).message
  generalize text : (FiberError.notOnMainFiber id task).message = message
  have fails : x.fatal message = ((x.reportFatal message).1.abort, .aborted) := by
    have silent := (x.reportFatal_panics message).mpr returns
    rcases reported : x.reportFatal message with ⟨y, _ | p⟩
    · simp only [World.fatal, reported]
    · rw [reported] at silent
      cases silent
  have entered := World.enterMain_nested shape before created
  rw [text, fails] at entered
  have step : m.world.step = ((x.reportFatal message).1.abort, .running) := by
    rw [starts.entry_step, entered]
    rfl
  have after : m.steps 1 = { m with world := (x.reportFatal message).1.abort } :=
    (steps_succ_of_goes (n := 0) goes).trans (step_of_running step)
  have reports := x.reportFatal_reports message
  refine ⟨after, by rw [after]; rfl, ?_⟩
  rw [after]
  rw [World.abort_trace (reports.halted.trans going), reports.trace going]
  rfl

/-- **A call of an entry function.** Let the next step of a run call an entry function.

While no task runs in the thread, its main fiber is current from then on, and it is made first
if there is none. If the task is created, no other fiber is, and the call is served: the task
enters the body, and it is resumed once more than it suspends itself, however often that is and
whatever else the body does. Unless the process ends while the task runs, its callback ends,
maybe by an early return from within some blocks, and the call returns what the body has
returned, or it panics after the fault has been reported once. By then the main fiber is
current and in `exec`, and the task is gone unless a handle to it is somewhere else. If the
task is not created, the call panics at once, and the engine has done nothing.

While a task runs, the call violates a contract, and the process ends with the report of it. -/
theorem entry_serves_body (level : Option Level) (hook : ReportHook) (script : List Op) (n : Nat)
    {m : Machine} {size : Nat} {shape : EntryShape} {ops : List Op} {u : World}
    (reached : (start level hook script).steps n = m) (goes : m.done = false)
    (starts : m.world.Starts (.entry size shape ops) u) :
    (m.world.thread.task? = none → ∃ main, u.Boots u.currentFiber.1 main ∧
      (∀ x id, u.currentFiber.1.createTask .heap size ⟨ops, none, []⟩ = (x, .ok id) →
        (∃ b, u.currentFiber.1.Gains x id (Fiber.task id ⟨b, .heap⟩ ⟨ops, none, []⟩)) ∧
          m.Serves id size shape ops u.thread.frames) ∧
      ∀ x why, u.currentFiber.1.createTask .heap size ⟨ops, none, []⟩ = (x, .error why) →
        u.currentFiber.1.Idle x ∧ ∃ z, m.steps 1 = m.take z ∧ x.Unwinds why.payload z) ∧
    ∀ task, m.world.thread.task? = some task →
      ∀ x id, u.createTask .heap size ⟨ops, none, []⟩ = (x, .ok id) →
        x.process.hook.panics = false →
          m.AbortedBy (m.steps 1) x ("fiber " ++ toString id ++
            " can only be resumed from the main fiber, but fiber " ++ toString task ++
            " is running") := by
  subst reached
  have sound := sound_of_goes goes
  refine ⟨fun idle => ?_, fun task runs x id created returns =>
    sound.nested_call goes runs starts created returns⟩
  obtain ⟨stage, ready⟩ := sound.stage_of_task idle
  obtain ⟨before, body⟩ := starts.sound stage (ready (finished_of_goes goes))
  have asking : Stays (fun _ => True) _ _ := World.currentFiber_stays before
  refine ⟨_, World.currentFiber_boots before, fun x id created => ⟨?_, ?_⟩, fun x why refused => ?_⟩
  · exact World.createTask_gains (asking.sound before).fresh created
  · exact sound.serves goes idle starts created
  · obtain ⟨y, idle, dropped⟩ := World.createTask_inert refused
    have same : x = y := by
      rw [dropped]
      simp only [World.dropCallback, World.dropTag, World.release]
    refine ⟨same ▸ idle, ?_⟩
    have made : Stays (fun _ => True)
        ⟨u.currentFiber.1, none, .exec, [] ++ Frame.allHandles u.thread.frames⟩ _ :=
      World.createTask_stays (fun _ => trivial) .heap size ⟨ops, none, []⟩
    have whole := asking.trans made
    rw [refused] at whole
    have frames : x.thread.frames = u.thread.frames := whole.frames
    have entered := World.enterMain_refused shape refused
    have step := starts.entry_step
    rw [entered, World.settle] at step
    exact ⟨_, (steps_succ_of_goes (n := 0) goes).trans ((step_eq _).trans (congrArg _ step)),
      World.unwind_unwinds (frames ▸ body) why.payload⟩

/-- The body of an entry function that suspends itself, and then returns early from within a
caught block in a repeated one. -/
def leaving : List Op :=
  [.park .ready, .loop 2 [.attempt [.leave (.integer 7)]], .park .ready]

/-- A script that calls the function. -/
def entering : List Op :=
  [.entry minStackSize .early leaving]

/-- The call makes the main fiber and then its task, and the seventh step behind it ends the
body. The answer is twice the number that the body has returned. -/
theorem entering_served : ∃ x,
    ((start none .sink entering).world.goOn [.ops [], .script]).currentFiber.1.createTask .heap
      minStackSize ⟨leaving, none, []⟩ = (x, .ok 2) ∧
    (start none .sink entering).Served 2 minStackSize .early [.ops [], .script] 7
      (.returned (.integer 7)) ∧
    ((start none .sink entering).steps 9).world.process.trace.toList.getLast?.map Entry.event =
      some (.completed "entry" (.early (.ok 14))) := by
  have starts : (start none .sink entering).world.Starts (.entry minStackSize .early leaving)
      ((start none .sink entering).world.goOn [.ops [], .script]) := ⟨[], [.script], rfl, rfl⟩
  obtain ⟨main, -, serves, -⟩ :=
    (entry_serves_body none .sink entering 0 rfl rfl starts).1 rfl
  have serves : (start none .sink entering).Serves 2 minStackSize .early leaving
      [.ops [], .script] := (serves _ 2 rfl).2
  obtain ⟨-, ⟨n, first, attends, concludes⟩, ends⟩ := serves
  -- the call does not end before
  have lives : ∀ k < 8, ((start none .sink entering).steps k).world.process.halted = false ∧
      (((start none .sink entering).steps k).world.thread.fiber? 2).all
        (fun f => !f.state.terminal) = true := by decide +kernel
  have late : 7 ≤ n := by
    by_contra early
    obtain ⟨going, live⟩ := lives (n + 1) (by omega)
    cases concludes with
    | aborted runs halted => cases going.symm.trans halted
    | @served e served =>
      obtain ⟨f, found, state⟩ := served.answers.task
      rw [found, Option.all_some, state] at live
      cases e <;> cases live
  have leaves : ((start none .sink entering).steps 7).world.EndsBy 2 none []
      (.returned (.integer 7)) _ :=
    .early ⟨[], [.catching, .ops [], .loop 1 [.attempt [.leave (.integer 7)]],
      .ops [.park .ready], .task 2 none []], rfl, rfl⟩ rfl
  have served : (start none .sink entering).Served 2 minStackSize .early [.ops [], .script] 7
      (.returned (.integer 7)) := by
    refine (ends 7 _ _ _ _ (attends 7 (by omega) late) rfl rfl leaves).resolve_right ?_
    rintro ⟨p, none, -⟩
    cases none
  refine ⟨_, rfl, served, ?_⟩
  obtain ⟨reply, returns, stepped, records⟩ := served.answers.returns _ rfl
  have calm : ((((start none .sink entering).steps 8).world.goOn [.ops [], .script]).release
      [2]).process.program.isNone = true := by
    rw [served.program]
    rfl
  rw [steps_succ_of_goes served.answers.goes, records.trace, if_pos calm, List.getLast?_concat]
  cases returns with
  | twice natural fits => rfl
  | negative below fits => exact absurd below (by decide)
  | other no => exact absurd (no 7 rfl) (by decide)

end Machine

end FiberEngine
