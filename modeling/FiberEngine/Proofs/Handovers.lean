/-
FiberEngine.Proofs.Handovers — how a task gives control back.

While a task runs, the main fiber of its thread has parked its code. A step of the task
either leaves the task running, also when it starts a thread, or the main fiber goes on
with what it had parked. There are two reasons for that (`World.GivesWay`): the task has
performed an operation that suspends it, or its callback has ended, by running out of code,
by an early return or by a panic that nothing in it catches (`World.EndsBy`).

The main statement is `step_hands_over`.
-/
import FiberEngine.Proofs.Faults

namespace FiberEngine

variable {others : List FiberId} {h keep : List FiberId} {K k : List Frame}

/-- The state in which an operation leaves the task that it suspends. -/
def Op.parking? : Op → Option Parking
  | .pause _ _ => some .ready
  | .park p => some p
  | _ => none

namespace World

variable {w u v : World} {id : FiberId} {tag : Option String} {p : Payload} {op : Op}

/-! ## 1. What gives way -/

/-- The next step ends the callback of a task, in a world that has done all that comes before
the end. -/
inductive EndsBy (w : World) (id : FiberId) (tag : Option String) (keep : List FiberId) :
    Finish → World → Prop
  /-- No code is left. -/
  | through (frames : w.thread.frames = [.task id tag keep]) :
    EndsBy w id tag keep (.returned .null) w
  /-- The body is left early, from within whatever blocks. -/
  | early {v : Datum} {u : World} (starts : w.Starts (.leave v) u)
    (base : u.thread.frames.getLast? = some (.task id tag keep)) :
    EndsBy w id tag keep (.returned v) u
  /-- A panic is thrown, and nothing in the body catches it. -/
  | fault {p : Payload} {u : World} (throws : w.Throws p u)
    (uncaught : u.stop = [.task id tag keep]) :
    EndsBy w id tag keep (.faulted p) u

/-- From one world to the next the task gives way to the main fiber, which has parked some
code. -/
inductive GivesWay (w : World) (id : FiberId) (K : List Frame) (v : World) : Prop
  /-- The task suspends itself. -/
  | yields {op : Op} {u : World} {next : Parking} (starts : w.Starts op u)
    (parks : op.parking? = some next) (frames : v.thread.frames = K)
    (task : ∃ f, v.thread.fiber? id = some f ∧ f.state = next.state)
  /-- Its callback ends. -/
  | ends {tag : Option String} {keep : List FiberId} {e : Finish} {u : World}
    (ends : w.EndsBy id tag keep e u) (left : v = u.finish id tag keep e)

/-- What the end of a callback leaves: the main fiber goes on with the code that it had parked,
and the task has its last state. A value is handed on without a report, and a panic is reported
and contained. -/
structure Closes (u v : World) (id : FiberId) (tag : Option String) (keep : List FiberId)
    (e : Finish) (K : List Frame) : Prop where
  frames : v.thread.frames = e.handTo id K
  task : ∃ f, v.thread.fiber? id = some f ∧ f.state = e.state
  returns : ∀ x, e = .returned x → u.Sheds (u.dropCallback tag keep) ∧
    v.process = (u.dropCallback tag keep).process
  contains : ∀ p, e = .faulted p → u.process.hook.panics = false ∧ u.Contains v id p tag keep K

/-! ## 2. A task suspends itself, or goes on -/

/-- A request to suspend a fiber passes only for the task that runs, and the main fiber goes
on. -/
theorem suspend_hands_over {m : Manner} {next : Parking} {q : Pending} {f : Fiber}
    (sound : Stage.Sound others ⟨w, some id, .exec, h⟩) (parks : w.thread.Parks K)
    (found : w.thread.fiber? f.id = some f) (passes : w.suspend m f next q = (v, .next)) :
    v.thread.frames = K ∧ ∃ g, v.thread.fiber? id = some g ∧ g.state = next.state := by
  cases refused : f.yieldRefusal? w.thread.currentId with
  | some e =>
    simp only [suspend, refused] at passes
    exact absurd passes (reject_ne_next _ _ _)
  | none =>
    obtain ⟨mine, running⟩ := runner_of_yield sound found refused
    obtain rfl : id = f.id := Option.some.inj mine
    obtain ⟨main, -, -, isMain, ne, -, -, -⟩ := mainFrames_of_runner sound.thread
    have same := (w.log_same (.yielded f.id next.state)).thread
    rw [suspend_eq isMain (parks_iff.mpr parks) running refused] at passes
    obtain rfl := (Prod.mk.inj passes).1
    refine ⟨rfl, ?_⟩
    have isMain' : ((w.log (.yielded f.id next.state)).onThread fun t =>
        t.setState f.id next.state).thread.main = some main := by
      rw [← isMain, ← same]
      rfl
    have thread := comeBack_thread (.suspended (.waiting q :: w.thread.frames)) K isMain' ne.symm
    have after := Thread.fiber?_crossed (congrArg Thread.fibers thread) (fun _ => rfl)
      (fun _ => rfl) f.id
    have before : ((w.log (.yielded f.id next.state)).onThread fun t =>
        t.setState f.id next.state).thread.fiber? f.id = some { f with state := next.state } := by
      simp only [onThread, same]
      refine (Thread.fiber?_update w.thread f.id f.id (fun f => { f with state := next.state })
        fun _ => rfl).trans ?_
      rw [found, Option.map_some, if_pos rfl]
    rw [before, Option.map_some, Thread.Sound.crossed, if_pos rfl] at after
    exact ⟨_, after, rfl⟩

/-- An operation on a fiber that has neither answered nor been left by a panic. -/
theorem next_of_onFiber {ref : FiberRef} {act : World → Fiber → World × Outcome}
    (sound : Stage.Sound others ⟨w, some id, .exec, h⟩) (next : w.onFiber ref act = (v, .next)) :
    ∃ g, w.thread.fiber? g.id = some g ∧
      (w.hold g.id).thread.fiber? g.id = some { g with handles := g.handles + 1 } ∧
      act (w.hold g.id) { g with handles := g.handles + 1 } = (v, .next) := by
  rcases fetch_of_runner sound ref with eq | ⟨g, eq, found⟩
  · simp [onFiber, eq] at next
  · obtain ⟨found', performs⟩ := onFiber_eq eq found act
    exact ⟨g, found, found', next_of_letGo (performs.symm.trans next)⟩

/-- An operation that suspends the task and passes. -/
theorem parking_hands_over {next : Parking} (sound : Stage.Sound others (w.stage (some id)))
    (parks : w.thread.Parks K) (op : Op) (suspends : op.parking? = some next)
    (passes : w.perform op = (v, .next)) :
    v.thread.frames = K ∧ ∃ g, v.thread.fiber? id = some g ∧ g.state = next.state := by
  cases op with
  | pause m ref =>
    cases suspends
    rw [perform] at passes
    obtain ⟨g, found, found', passes⟩ := next_of_onFiber sound passes
    have held : Stays (fun _ => True) (w.stage (some id)) _ := hold_stays found
    have parks' : (w.hold g.id).thread.Parks K := by
      rw [← parks_iff] at parks ⊢
      rw [← parks]
      exact mainFrames_update w g.id _ (fun _ => rfl) fun _ => rfl
    exact suspend_hands_over (held.sound sound) parks' found' passes
  | park p =>
    cases suspends
    have current : w.currentFiber = (w, id) := currentFiber_of_runner sound.thread
    obtain ⟨f, found, mine, -⟩ := sound.thread.runner_runs
    simp only [perform, current, found] at passes
    exact suspend_hands_over sound parks (mine ▸ found) passes
  | _ => cases suspends

/-- No task can resume a fiber. -/
theorem not_resumed_of_runner {m : Manner} {f : Fiber} {q : Pending}
    (sound : Stage.Sound others ⟨w, some id, .exec, h⟩) : w.resume m f q ≠ (v, .next) := by
  intro resumed
  obtain ⟨u, asked, -⟩ := accepted_of_next resumed
  cases (accepted_of_resume (f := f) sound (by rw [asked])).1

/-- An entry function cannot be called by a task. -/
theorem not_entered_of_runner {size : Nat} {shape : EntryShape} {ops : List Op}
    (sound : Stage.Sound others (w.stage (some id))) : w.enterMain size shape ops ≠ (v, .next) := by
  intro next
  have made : Stays (fun _ => True) ⟨w, some id, .exec, [] ++ Frame.allHandles w.thread.frames⟩ _ :=
    createTask_stays (fun _ => trivial) .heap size ⟨ops, none, []⟩
  have after := made.sound sound
  simp only [enterMain, currentFiber_of_runner sound.thread] at next
  rcases eq : w.createTask .heap size ⟨ops, none, []⟩ with ⟨u, (e | p) | x⟩ <;>
    rw [eq] at after <;> simp only [eq] at next
  · cases next
  · cases next
  · split at next
    · cases next
    · have entered := next_of_letGo next
      unfold entryOn at entered
      split at entered
      · split at entered <;> cases entered
      · exact not_resumed_of_runner after entered

/-- No other operation makes the task give way. -/
theorem runs_of_next (sound : Stage.Sound others (w.stage (some id)))
    (body : Body (some id) w.thread.frames) (op : Op) (goes : op.parking? = none)
    (next : w.perform op = (v, .next)) : v.thread.task? = some id := by
  have held : ∀ {g : Fiber}, w.thread.fiber? g.id = some g →
      Stage.Sound others ⟨w.hold g.id, some id, .exec, _⟩ := fun found =>
    (show Stays (fun _ => True) (w.stage (some id)) _ from hold_stays found).sound sound
  cases op with
  | pause m ref | park p => cases goes
  | loop times ops =>
    simp only [perform] at next
    split at next <;> cases next
    · exact body.owner
    · exact (Body.loop times ops body).owner
  | attempt ops =>
    cases next
    exact (Body.ops ops (.catching body)).owner
  | demo d =>
    cases next
    exact (Body.ops d.script (body.program d)).owner
  | print line =>
    cases next
    have read : Stays (fun _ => True) (w.stage (some id)) _ := lineText_stays line sound
    exact (congrArg (fun k => k.getLast?.bind Frame.owner?) read.frames).trans body.owner
  | tick =>
    cases next
    exact body.owner
  | requireJoined =>
    simp only [perform] at next
    split at next <;> cases next
    exact body.owner
  | resume m ref =>
    rw [perform] at next
    obtain ⟨g, found, -, resumed⟩ := next_of_onFiber sound next
    exact absurd resumed (not_resumed_of_runner (held found))
  | drive ref max =>
    rw [perform] at next
    obtain ⟨g, found, -, driven⟩ := next_of_onFiber sound next
    unfold driveOn at driven
    split at driven
    · cases driven
    · exact absurd driven (not_resumed_of_runner (held found))
  | reset m ref ops tag keep =>
    rw [perform] at next
    obtain ⟨g, -, -, bound⟩ := next_of_onFiber sound next
    simp only [World.reset] at bound
    split at bound
    · exact absurd bound (reject_ne_next _ _ _)
    · cases bound
  | entry size shape ops => exact absurd next (not_entered_of_runner sound)
  | state ref | info ref | clone ref slot =>
    rw [perform] at next
    obtain ⟨g, -, -, answered⟩ := next_of_onFiber sound next
    cases answered
  | same ref other =>
    rw [perform] at next
    obtain ⟨g, found, -, next⟩ := next_of_onFiber sound next
    obtain ⟨g', -, -, answered⟩ := next_of_onFiber (held found) next
    cases answered
  | saveBlock ref name =>
    rw [perform] at next
    obtain ⟨g, -, -, saved⟩ := next_of_onFiber sound next
    unfold World.saveBlock at saved
    split at saved <;> cases saved
  | isBlock ref name =>
    rw [perform] at next
    obtain ⟨g, -, -, compared⟩ := next_of_onFiber sound next
    unfold World.isBlock at compared
    split at compared <;> cases compared
  | create slot size a ops tag keep =>
    simp only [perform, World.create] at next
    split at next <;> cases next
  | drop slot =>
    simp only [perform, dropSlot] at next
    split at next <;> cases next
  | allocBlock name a size =>
    simp only [perform, World.allocBlock] at next
    split at next <;> cases next
  | freeBlock name a =>
    simp only [perform, World.freeBlock] at next
    split at next <;> cases next
  | report text =>
    simp only [perform] at next
    split at next <;> cases next
  | thread kind ops =>
    simp only [perform, spawn] at next
    split at next <;> cases next
  | _ => cases next

/-- An operation of the task that waited answers, and the task goes on. -/
theorem runs_behind_waiting {q : Pending} {k : List Frame}
    (sound : Stage.Sound others (w.stage (some id)))
    (frames : w.thread.frames = .waiting q :: k) (body : Body (some id) k)
    (home : ∀ x, q.Awaits x → some id = none ∧ w.thread.main ≠ some x) :
    w.step.1.thread.task? = some id := by
  have went : Leads (fun _ => True) (w.stage (some id)) _ := waiting_leads frames body
  have after := went.sound sound
  have lands : Lands (fun _ => True) (fun _ => True) _ _ ((w.goOn k).carryOn q) :=
    carryOn_lands (w := w.goOn k) after body home
  obtain ⟨y, reply, carried, quiet⟩ : ∃ y reply, (w.goOn k).carryOn q = (y, .done reply) ∧
      reply.complaint? = none := by
    cases q with
    | resume m x | drive x done max | entry size shape x result => cases (home x rfl).1
    | pause m x =>
      obtain ⟨f, found⟩ := after.thread.exists_of_held (by simp [Pending.handles] : x ∈ _)
      simp only [carryOn, onHeld, found]
      exact ⟨_, _, rfl, rfl⟩
    | park next => exact ⟨_, _, rfl, rfl⟩
    | join kind ending => exact ⟨_, _, rfl, rfl⟩
  rw [carried] at lands
  have step : w.step = (y.conclude q.name reply) := by simp only [World.step, frames, carried, settle]
  cases lands with
  | done stays plain =>
    have same : y.thread.frames = k := stays.frames
    have runs : y.thread.task? = some id := by
      rw [Thread.task?, same]
      exact body.owner
    rw [step, conclude]
    split
    · rw [emit_thread]
      exact runs
    · rw [quiet]
      exact runs

/-! ## 3. The callback of a task ends -/

section

variable {e : Finish} (sound : Stage.Sound others ⟨u, some id, .exec, id :: keep⟩)
  (base : u.thread.frames.getLast? = some (.task id tag keep)) (parks : u.thread.Parks K)

include sound base parks

/-- The end of a callback does not end the process, unless the hook panics over a fault. -/
theorem finish_going (returns : ∀ p, e = .faulted p → u.process.hook.panics = false) :
    (u.finish id tag keep e).process.halted = false := by
  obtain ⟨main, -, -, isMain, -, -, -, -⟩ := mainFrames_of_runner sound.thread
  have hook : (u.dropCallback tag keep).process.hook = u.process.hook :=
    (u.dropCallback_spares tag keep).hook
  have told := reportFault_sound e (ended_sound e sound base) fun p same =>
    (congrArg ReportHook.panics hook).trans (returns p same)
  rw [finish_eq_of_returns e sound base isMain (parks_iff.mpr parks) returns]
  exact told.going

/-- What the end of a callback leaves, if the process goes on. -/
theorem finish_closes (going : (u.finish id tag keep e).process.halted = false) :
    u.Closes (u.finish id tag keep e) id tag keep e K := by
  have returns : ∀ p, e = .faulted p → u.process.hook.panics = false := by
    rintro p rfl
    cases panics : u.process.hook.panics with
    | false => rfl
    | true => cases going.symm.trans (finish_of_panics rfl rfl sound base panics).1
  obtain ⟨frames, task⟩ := finish_hands_over sound base parks returns
  refine ⟨frames, task, fun x returned => ⟨(dropCallback_sheds tag sound).1, ?_⟩,
    fun p faulted => ⟨returns p faulted, ?_⟩⟩
  · obtain ⟨main, -, -, isMain, -, -, -, -⟩ := mainFrames_of_runner sound.thread
    subst returned
    rw [finish_eq_of_returns _ sound base isMain (parks_iff.mpr parks) returns]
    rfl
  · subst faulted
    exact finish_contains sound base parks (returns p rfl)

end

section

variable (sound : Stage.Sound others (w.stage (some id))) (ready : w.thread.Ready (some id))
  (parks : w.thread.Parks K)

include sound ready parks

/-- Whatever ends the callback, the task runs until it does, and the step ends it. -/
theorem EndsBy.finishes {e : Finish} (ends : w.EndsBy id tag keep e u) :
    w.step = (u.finish id tag keep e, .running) ∧
      Stage.Sound others ⟨u, some id, .exec, id :: keep⟩ ∧
      u.thread.frames.getLast? = some (.task id tag keep) ∧ u.thread.Parks K := by
  cases ends with
  | through frames =>
    have account : w.stage (some id) = ⟨w, some id, .exec, id :: keep⟩ := by
      simp [stage, frames, Frame.handles]
    rw [account] at sound
    exact ⟨by simp only [World.step, frames], sound, by rw [frames]; rfl, parks⟩
  | @early value _ starts base =>
    obtain ⟨before, body⟩ := starts.sound sound ready
    obtain ⟨rest, k, code, rfl⟩ := starts
    have suffix : ((w.goOn (.ops rest :: k)).thread.frames.dropWhile fun f => !f.isBase) <:+
        (w.goOn (.ops rest :: k)).thread.frames := List.dropWhile_suffix _
    rcases body.leave with ⟨f, tag', keep', mine, same, stops⟩ | ⟨none, -⟩
    · cases mine
      rw [stops] at suffix
      cases (Body.getLast?_of_suffix suffix).trans base
      rw [stage, same] at before
      refine ⟨?_, before, base, parks⟩
      simp only [World.step, code, perform, settle, leave, stops]
    · cases none
  | @fault p _ throws uncaught =>
    obtain ⟨step, after, body, parked⟩ := throws_unwinds sound ready parks throws
    have stops : (u.thread.frames.dropWhile fun f => !f.stopsPanic) = [.task id tag keep] := uncaught
    have suffix : (u.thread.frames.dropWhile fun f => !f.stopsPanic) <:+ u.thread.frames :=
      List.dropWhile_suffix _
    have stopped := body.unwind
    rw [stops] at suffix stopped
    cases stopped with
    | task mine same =>
      rw [stage, same] at after
      refine ⟨?_, after, (Body.getLast?_of_suffix suffix).symm, parked⟩
      rw [step, unwind, stops]

/-- What the end of a callback leaves, whatever has ended it. -/
theorem EndsBy.closes {e : Finish} (ends : w.EndsBy id tag keep e u)
    (going : w.step.1.process.halted = false) :
    u.Closes (u.finish id tag keep e) id tag keep e K := by
  obtain ⟨step, before, base, parked⟩ := ends.finishes sound ready parks
  rw [step] at going
  exact finish_closes before base parked going

/-- A step that ends the callback gives way. -/
theorem EndsBy.gives_way {e : Finish} (ends : w.EndsBy id tag keep e u) :
    ∃ v, w.step = (v, .running) ∧ w.GivesWay id K v :=
  ⟨_, (ends.finishes sound ready parks).1, .ends ends rfl⟩

/-- A panic is caught in the body, or it ends the callback. -/
theorem throws_hands_over (throws : w.Throws p u) (going : w.step.1.process.halted = false) :
    w.step.1.thread.task? = some id ∨ ∃ v, w.step = (v, .running) ∧ w.GivesWay id K v := by
  obtain ⟨step, after, body, parked⟩ := throws_unwinds sound ready parks throws
  obtain ⟨v, unwinds, settles⟩ := unwind_settles (p := p) after body parked
  rw [unwinds] at step
  cases settles with
  | caught stops entry runs exec => exact .inl (by rw [step]; exact runs)
  | shown stops ends runs exec => exact .inl (by rw [step]; exact runs)
  | contained uncaught returns contains answers =>
    exact .inr (EndsBy.gives_way sound ready parks (.fault throws uncaught))
  | aborted uncaught panics sheds halted trace =>
    rw [step] at going
    cases halted.symm.trans going

/-- An early return ends the callback. -/
theorem leave_hands_over {value : Datum} (starts : w.Starts (.leave value) u) :
    ∃ v, w.step = (v, .running) ∧ w.GivesWay id K v := by
  obtain ⟨-, body⟩ := starts.sound sound ready
  have suffix : (u.thread.frames.dropWhile fun f => !f.isBase) <:+ u.thread.frames :=
    List.dropWhile_suffix _
  rcases body.leave with ⟨f, tag, keep, mine, same, stops⟩ | ⟨none, -⟩
  · cases mine
    rw [stops] at suffix
    have base := (Body.getLast?_of_suffix suffix).symm
    exact EndsBy.gives_way sound ready parks (.early starts base)
  · cases none

/-! ## 4. The step -/

/-- An operation of the task. -/
theorem begun_hands_over {rest : List Op} {k : List Frame}
    (frames : w.thread.frames = .ops (op :: rest) :: k)
    (going : w.step.1.process.halted = false) :
    w.step.1.thread.task? = some id ∨ ∃ v, w.step = (v, .running) ∧ w.GivesWay id K v := by
  have starts : w.Starts op (w.goOn (.ops rest :: k)) := ⟨rest, k, frames, rfl⟩
  by_cases early : ∃ v, op = .leave v
  · obtain ⟨value, rfl⟩ := early
    exact .inr (leave_hands_over sound ready parks starts)
  obtain ⟨before, body⟩ := starts.sound sound ready
  have lands : Lands (fun _ => True) (fun _ => True) _ _ ((w.goOn (.ops rest :: k)).perform op) :=
    perform_lands before body (fun v same => early ⟨v, same⟩)
      ⟨fun _ => trivial, fun _ _ => trivial, fun _ _ => ⟨trivial, trivial⟩⟩
  have step : w.step = settle op.name ((w.goOn (.ops rest :: k)).perform op) := by
    simp only [World.step, frames]
  rcases performed : (w.goOn (.ops rest :: k)).perform op with ⟨y, o⟩
  rw [performed] at lands step
  cases lands with
  | @done _ reply stays plain =>
    have same : y.thread.frames = .ops rest :: k := stays.frames
    have runs : y.thread.task? = some id := by
      rw [Thread.task?, same]
      exact body.owner
    cases demo : y.process.program with
    | none =>
      rw [step, settle, conclude_of_calm demo, emit_thread]
      exact .inl runs
    | some d =>
      cases complaint : reply.complaint? with
      | none =>
        simp only [step, settle, conclude, demo, complaint]
        exact .inl runs
      | some e =>
        exact throws_hands_over sound ready parks
          (.complained starts performed (by simp [demo]) complaint rfl) going
  | panicked stays => exact throws_hands_over sound ready parks (.raised starts performed) going
  | next leads ready' continues =>
    cases suspends : op.parking? with
    | none =>
      rw [step]
      exact .inl (runs_of_next before body op suspends performed)
    | some next =>
      obtain ⟨code, task⟩ := parking_hands_over before parks op suspends performed
      exact .inr ⟨y, step, .yields starts suspends code task⟩
  | aborted falls =>
    rw [step] at going
    cases falls.halted.symm.trans going
  | started leads frames' =>
    rw [step]
    refine .inl ?_
    change y.thread.task? = some id
    rw [Thread.task?, frames']
    exact body.owner_cons _

/-- **A step of a task.** It leaves the task running, or the main fiber goes on with the code
that it had parked: since the task has suspended itself, or since its callback has ended. -/
theorem step_hands_over (going : w.step.1.process.halted = false) :
    w.step.1.thread.task? = some id ∨ ∃ v, w.step = (v, .running) ∧ w.GivesWay id K v := by
  cases ready with
  | behind frames body home =>
    exact .inl (runs_behind_waiting sound frames body home)
  | body body =>
    have ready : w.thread.Ready (some id) := .body body
    generalize frames : w.thread.frames = k at body
    -- the cases are those of the frame on top
    cases body with
    | task f tag keep =>
      exact .inr (EndsBy.gives_way sound ready parks (.through frames))
    | @inner _ fr k hfr rest =>
      cases fr with
      | ops ops =>
        cases ops with
        | nil =>
          simp only [World.step, frames]
          exact .inl rest.owner
        | cons op ops => exact begun_hands_over sound ready parks frames going
      | loop times ops =>
        cases times with
        | zero =>
          simp only [World.step, frames]
          exact .inl rest.owner
        | succ n =>
          simp only [World.step, frames]
          exact .inl (Body.ops ops (.loop n ops rest)).owner
      | catching =>
        have quiet : Reply.complaint? .fine = none := rfl
        simp only [World.step, frames, conclude, quiet]
        split
        · rw [emit_thread]
          exact .inl rest.owner
        · exact .inl rest.owner
      | program d =>
        have ended : Stays (fun _ => True) ((w.goOn k).stage (some id)) _ := endDemo_stays d none
        simp only [World.step, frames]
        refine .inl ?_
        exact (congrArg (fun k => k.getLast?.bind Frame.owner?) ended.frames).trans rest.owner
      | waiting p => cases hfr
      | task f tag keep => cases hfr
      | script => cases hfr

end

end World

end FiberEngine
