/-
FiberEngine.Proofs.Faults — a panic in the body of a task.

A panic in the code of a task unwinds to the innermost block that catches it. If there
is none, it ends the callback: the callback is destroyed while the fiber is still
running, then the fiber is in `except`, then the fault is reported, and then the main
fiber goes on with the code behind its call. `World.Contains` says all this, and that
nothing else becomes of the thread and its process; what the end of the callback may
destroy with the handles that it had captured is said by `World.Sheds`.

The main statement, `faults_contained`, follows a call from the step that resumes the
task to the step in which the panic unwinds, with any number of steps between them.
-/
import FiberEngine.Proofs.Parking

namespace FiberEngine

variable {others : List FiberId}

/-! ## 1. What a callback takes along -/

/-- The entry tells that something is destroyed or given back. -/
def Event.Parts : Event → Prop
  | .dropped _ | .deallocated _ | .logged (.fiberDestroyed _ _) _ => True
  | _ => False

theorem Event.Parts.not_faultOf {e : Event} (parts : e.Parts) {t : Thread} {id : FiberId} :
    ¬ e.FaultOf t id := by
  cases e with
  | logged n span => cases n <;> simp_all [Event.Parts, Event.FaultOf]
  | _ => simp_all [Event.Parts, Event.FaultOf]

/-- Fibers have fewer handles or are gone, and blocks have gone back to their allocators.
All else is as it was. -/
structure Thread.Sheds (t u : Thread) : Prop where
  same : u =
    { t with
      fibers := u.fibers
      counting := u.counting
      doubling := u.doubling
      guarded := u.guarded }
  fibers : ∀ id g, u.fiber? id = some g →
    ∃ f, t.fiber? id = some f ∧ g = { f with handles := g.handles } ∧ g.handles ≤ f.handles

theorem Thread.Sheds.refl (t : Thread) : t.Sheds t :=
  ⟨rfl, fun _ g found => ⟨g, found, rfl, Nat.le_refl _⟩⟩

theorem Thread.Sheds.trans {t u v : Thread} (first : t.Sheds u) (second : u.Sheds v) :
    t.Sheds v where
  same := second.same.trans (congrArg (fun x : Thread =>
    { x with
      fibers := v.fibers
      counting := v.counting
      doubling := v.doubling
      guarded := v.guarded }) first.same)
  fibers id h found := by
    obtain ⟨g, found, same, fewer⟩ := second.fibers id h found
    obtain ⟨f, found, same', fewer'⟩ := first.fibers id g found
    refine ⟨f, found, ?_, Nat.le_trans fewer fewer'⟩
    rw [same, same']

/-- The thread is the same but for what a callback takes along, and of the process only
the count of the fibers that are alive and the trace have changed. -/
structure World.Sheds (w v : World) : Prop where
  thread : w.thread.Sheds v.thread
  process : v.process = { w.process with live := v.process.live, trace := v.process.trace }
  trace : ∃ new, v.process.trace.toList = w.process.trace.toList ++ new ∧
    ∀ e ∈ new, e.event.Parts ∧ w.thread.Sheds e.thread

namespace World

variable {w u v : World}

theorem Sheds.refl (w : World) : w.Sheds w :=
  ⟨.refl _, rfl, [], by simp, by simp⟩

theorem Sheds.trans (first : w.Sheds u) (second : u.Sheds v) : w.Sheds v where
  thread := first.thread.trans second.thread
  process := second.process.trans (congrArg (fun p : Process =>
    { p with live := v.process.live, trace := v.process.trace }) first.process)
  trace := by
    obtain ⟨new, trace, parts⟩ := first.trace
    obtain ⟨more, trace', parts'⟩ := second.trace
    refine ⟨new ++ more, by rw [trace', trace, List.append_assoc], fun e mem => ?_⟩
    rcases List.mem_append.mp mem with mem | mem
    · exact parts e mem
    · exact ⟨(parts' e mem).1, first.thread.trans (parts' e mem).2⟩

theorem Sheds.onThread {c : Thread → Thread} (sheds : w.thread.Sheds (c w.thread)) :
    w.Sheds (w.onThread c) :=
  ⟨sheds, rfl, [], by simp [World.onThread], by simp⟩

theorem emit_sheds (w : World) {e : Event} (parts : e.Parts) : w.Sheds (w.emit e) := by
  unfold emit
  split
  · exact .refl w
  · exact ⟨.refl _, rfl, [⟨w.thread, e⟩], by simp,
      by simpa using ⟨parts, Thread.Sheds.refl w.thread⟩⟩

theorem dropTag_sheds (w : World) (tag : Option String) : w.Sheds (w.dropTag tag) := by
  cases tag with
  | none => exact .refl w
  | some tag => exact w.emit_sheds trivial

theorem deallocate_sheds (w : World) (lease : StackLease) :
    w.Sheds (w.deallocate lease.allocator lease.block) := by
  have back : w.Sheds (w.onThread fun t => t.takeBack lease) := by
    refine .onThread ⟨?_, fun id g found => ⟨g, ?_, rfl, Nat.le_refl _⟩⟩
    · unfold Thread.takeBack
      split <;> rfl
    · rwa [Thread.fiber?, Thread.takeBack_fibers] at found
  rw [deallocate_eq]
  split
  · exact back.trans (emit_sheds _ trivial)
  · exact back

theorem destroy_sheds {f : Fiber} {lease : StackLease} (onStack : f.lease = some lease)
    (can : f.state.canReset) : w.Sheds (w.destroy f).1 := by
  have gone : w.Sheds (w.onThread fun t => t.erase f.id).uncount := by
    refine ⟨⟨rfl, fun id g found => ⟨g, ?_, rfl, Nat.le_refl _⟩⟩, rfl, [], ?_, by simp⟩
    · have found : (w.thread.erase f.id).fiber? id = some g := found
      rw [Thread.fiber?_erase] at found
      split at found
      · cases found
      · exact found
    · simp [uncount, World.onThread]
  have logged : ∀ v : World, v.Sheds (v.log (.fiberDestroyed f.id f.state)) := by
    intro v
    rcases v.log_cases (.fiberDestroyed f.id f.state) with same | same <;> rw [same]
    · exact .refl v
    · exact v.emit_sheds trivial
  rw [destroy_eq onStack can]
  exact ((gone.trans (deallocate_sheds _ lease)).trans (logged _)).trans (dropTag_sheds _ _)

/-- Handles are released, with all that follows from it. -/
theorem release_sheds {r : Option FiberId} {held : List FiberId} (ids : List FiberId)
    (sound : Stage.Sound others ⟨w, r, .exec, ids ++ held⟩) : w.Sheds (w.release ids) := by
  have rounds := release_rounds (P := fun v rest _ =>
    Stage.Sound others ⟨v, r, .exec, rest ++ held⟩ ∧ w.Sheds v) w ids [] ⟨sound, .refl w⟩ ?_ ?_ ?_
  · exact rounds.2
  · rintro v id rest acts ⟨before, _⟩ none
    obtain ⟨f, found⟩ := before.thread.exists_of_held (by simp : id ∈ id :: rest ++ held)
    exact absurd found (by simp [none])
  · rintro v id rest acts f ⟨before, sheds⟩ found last
    obtain ⟨can, lease, onStack⟩ := before.thread.leased_last found last
    rw [List.append_assoc]
    exact ⟨(before.destroy found last).sound, sheds.trans (destroy_sheds onStack can)⟩
  · rintro v id rest acts f ⟨before, sheds⟩ found more
    have less : Move (fun _ => True) ⟨v, r, .exec, id :: (rest ++ held)⟩ [] _ :=
      .giveUp found more
    refine ⟨(less.follows before).sound, sheds.trans (.onThread ⟨rfl, fun x g there => ?_⟩)⟩
    rw [Thread.fiber?_update _ _ _ _ (by simp), Option.map_eq_some_iff] at there
    obtain ⟨f, there, rfl⟩ := there
    refine ⟨f, there, ?_⟩
    split
    · exact ⟨rfl, Nat.sub_le ..⟩
    · exact ⟨rfl, Nat.le_refl _⟩

/-- A callback ends while its fiber is the current one and in `exec`, and so does all that
it takes along. -/
theorem dropCallback_sheds {id : FiberId} (tag : Option String) {keep : List FiberId}
    (sound : Stage.Sound others ⟨w, some id, .exec, id :: keep⟩) :
    w.Sheds (w.dropCallback tag keep) ∧ ∃ new,
      (w.dropCallback tag keep).process.trace.toList = w.process.trace.toList ++ new ∧
      ∀ e ∈ new, e.event.Parts ∧ e.current = id ∧
        ∃ f, e.thread.fiber? id = some f ∧ f.state = .exec := by
  have regrouped : Leads (fun _ => True) ⟨w, some id, .exec, id :: keep⟩
      ⟨w, some id, .exec, keep ++ [id]⟩ := .regroup (List.perm_append_singleton id keep).symm
  have untagged : Stage.Follows others ⟨w, some id, .exec, keep ++ [id]⟩ []
      ⟨w.dropTag tag, some id, .exec, keep ++ [id]⟩ :=
    (regrouped.sound sound).dropTag tag ⟨rfl, rfl⟩
  have dropped := untagged.sound
  have sheds := (w.dropTag_sheds tag).trans (release_sheds keep dropped)
  obtain ⟨first, told⟩ : ∃ new, Tells (fun _ => False) ⟨w, some id, .exec, []⟩
      ⟨w.dropTag tag, some id, .exec, []⟩ new := dropTag_tells tag sound.thread sound.going
  obtain ⟨second, told'⟩ : ∃ new, Tells (fun _ => False) ⟨w.dropTag tag, some id, .exec, []⟩
      ⟨(w.dropTag tag).release keep, some id, .exec, []⟩ new := release_tells keep dropped
  have tells := told.trans told'
  obtain ⟨new, trace, parts⟩ := sheds.trace
  refine ⟨sheds, new, trace, fun e mem => ?_⟩
  obtain ⟨event, since⟩ := parts e mem
  obtain rfl : new = first ++ second :=
    List.append_cancel_left (trace.symm.trans tells.trace)
  have order : e.thread.InOrder .exec := by
    cases tells.fair e mem with
    | plain order => exact order
    | birth order => exact order
    | fault _ _ fault => exact absurd fault event.not_faultOf
  have runs : e.thread.task? = some id := by
    rw [since.same]
    exact sound.thread.task
  cases order with
  | bare noMain noTask => cases noTask.symm.trans runs
  | home there isMain noTask => cases noTask.symm.trans runs
  | @away _ task _ _ _ _ present isTask current _ exec =>
    obtain rfl : task.id = id := Option.some.inj (isTask.symm.trans runs)
    exact ⟨event, current, task, Thread.fiber?_of_mem (tells.regular e mem).distinct present, exec⟩

/-! ## 2. Panics in the code of a task -/

/-- The next step throws a panic in the code that runs: an operation is left by it, or an
operation of a demonstration is answered by an error. The panic begins to unwind in a
world in which the operation has done all that it did before. -/
inductive Throws (w : World) (p : Payload) (u : World) : Prop
  | raised {op : Op} {v : World} (starts : w.Starts op v) (raises : v.perform op = (u, .panicked p))
  | complained {op : Op} {v : World} {r : Reply} {e : String} (starts : w.Starts op v)
    (answers : v.perform op = (u, .done r)) (demo : u.process.program ≠ none)
    (complaint : r.complaint? = some e)
    (text : p = .text (Demo.expectation op.name ++ ": " ++ e))

variable {id : FiberId} {p : Payload} {K : List Frame}

/-- What the thread stands at when a panic is thrown: the task still runs, and what the main
fiber had parked is still there. -/
theorem throws_unwinds (sound : Stage.Sound others (w.stage (some id)))
    (ready : w.thread.Ready (some id)) (parks : w.thread.Parks K) (throws : w.Throws p u) :
    w.step = u.unwind p ∧ Stage.Sound others (u.stage (some id)) ∧
      Body (some id) u.thread.frames ∧ u.thread.Parks K := by
  obtain ⟨op, v, starts, performed, unwinds⟩ : ∃ op v, w.Starts op v ∧
      ((∃ r, v.perform op = (u, .done r)) ∨ v.perform op = (u, .panicked p)) ∧
      settle op.name (v.perform op) = u.unwind p := by
    cases throws with
    | @raised op v starts raises => exact ⟨op, v, starts, .inr raises, by rw [raises, settle]⟩
    | @complained op v r e starts answers demo complaint text =>
      refine ⟨op, v, starts, .inl ⟨r, answers⟩, ?_⟩
      obtain ⟨d, demo⟩ := Option.ne_none_iff_exists'.mp demo
      simp only [answers, settle, conclude, demo, complaint, text]
  obtain ⟨before, body⟩ := starts.sound sound ready
  have stays : Stays (fun _ => True) (v.stage (some id))
      ⟨u, some id, .exec, Frame.allHandles v.thread.frames⟩ := by
    have lands : Lands (fun _ => True) (fun _ => True) (v.stage (some id))
        (Frame.allHandles v.thread.frames) (v.perform op) := by
      refine perform_lands before body ?_
        ⟨fun _ => trivial, fun _ _ => trivial, fun _ _ => ⟨trivial, trivial⟩⟩
      rintro v rfl
      rcases performed with ⟨r, eq⟩ | eq <;> cases eq
    rcases performed with ⟨r, eq⟩ | eq <;> rw [eq] at lands <;> cases lands
    · assumption
    · assumption
  have frames : u.thread.frames = v.thread.frames := stays.frames
  have after : Stage.Sound others (u.stage (some id)) := by
    rw [stage, frames]
    exact stays.sound before
  obtain ⟨rest, k, code, rfl⟩ := starts
  refine ⟨?_, after, frames ▸ body, ?_⟩
  · simp only [step, code]
    exact unwinds
  · obtain ⟨main, isMain⟩ : ∃ main, w.thread.main = some main := by
      obtain ⟨main, -, isMain, -⟩ := parks
      exact ⟨main, isMain⟩
    have settled := settled_of_parks (w := w.goOn (.ops rest :: k)) before.thread.distinct isMain parks
    have still : u.Settled main K := by
      rcases perform_settled settled before op with still | ⟨x, passes, -⟩
      · rcases performed with ⟨r, eq⟩ | eq <;> rwa [eq] at still
      · rcases performed with ⟨r, eq⟩ | eq <;> cases eq.symm.trans passes
    obtain ⟨new, tells⟩ := stays.leads.tells before
    obtain ⟨-, q, k', -, -, parked, -, -⟩ := mainFrames_of_runner after.thread
    have parks' := parks_iff.mp parked
    rwa [still.parks (tells.main main isMain) parks'] at parks'

/-! ## 3. What becomes of a panic -/

/-- The code at which a panic stops that is thrown now. -/
def stop (u : World) : List Frame :=
  u.thread.frames.dropWhile fun f => !f.stopsPanic

/-- The callback of a task is destroyed, and the task has taken its last state. -/
def undone (u : World) (id : FiberId) (tag : Option String) (keep : List FiberId) : World :=
  (u.dropCallback tag keep).onThread fun t => t.setState id .except

/-- From one world to the next a panic ends the callback of a task, and the main fiber goes
on with its code. -/
structure Contains (u v : World) (id : FiberId) (p : Payload) (tag : Option String)
    (keep : List FiberId) (K : List Frame) : Prop where
  /-- The callback is destroyed while the task runs. Nothing is reported of this. -/
  callback : ∃ new,
    (u.dropCallback tag keep).process.trace.toList = u.process.trace.toList ++ new ∧
    ∀ e ∈ new, e.event.Parts ∧ e.current = id ∧ ∃ f, e.thread.fiber? id = some f ∧ f.state = .exec
  /-- Nothing else becomes of other fibers, of the slots and of the process by this. -/
  sheds : u.Sheds (u.dropCallback tag keep)
  /-- When the fault is reported, the task has its last state. -/
  except : ∃ f, (u.undone id tag keep).thread.fiber? id = some f ∧ f.state = .except
  /-- One report is made, and the process is what this report makes of it. -/
  report : v.process =
    ((u.undone id tag keep).report (faultText p id u.thread.name)).1.process
  trace : v.process.trace.toList = (u.dropCallback tag keep).process.trace.toList ++
    (u.undone id tag keep).reportEntries (faultText p id u.thread.name)
  /-- The report tells the panic, the task and the name of the thread. -/
  text : TellsFault id u.thread.name p (faultText p id u.thread.name)
  /-- Of the thread, only the task and the main fiber change by the switch back. -/
  thread : ∃ main, u.thread.main = some main ∧
    v.thread = (u.dropCallback tag keep).thread.handBack id main .except K
  task : ∃ f, v.thread.fiber? id = some f ∧ f.state = .except
  /-- The main fiber is the current one, in `exec`, with its code as it was parked. -/
  main : ∃ main g, v.thread.main = some main ∧ v.thread.current = some main ∧
    v.thread.fiber? main = some g ∧ g.state = .exec
  frames : v.thread.frames = K
  /-- Any other fiber has lost handles at most, and all that is not the report is as it was. -/
  others : ∀ x g, x ≠ id → u.thread.main ≠ some x → v.thread.fiber? x = some g →
    ∃ f, u.thread.fiber? x = some f ∧ g = { f with handles := g.handles } ∧ g.handles ≤ f.handles
  slots : v.thread.slots = u.thread.slots
  process : v.process =
    { u.process with
      live := (u.dropCallback tag keep).process.live
      trace := v.process.trace
      program := v.process.program }

theorem handTo_faulted (p : Payload) (id : FiberId) (k : List Frame) :
    (Finish.faulted p).handTo id k = k := by
  unfold Finish.handTo
  split <;> rfl

/-- A report changes the trace and the output of a demonstration. -/
theorem report_process (w : World) (text : String) :
    (w.report text).1.process = { w.process with
      trace := (w.report text).1.process.trace, program := (w.report text).1.process.program } := by
  unfold report
  split
  · rcases w.log_cases (.reported text) with same | same
    · rw [same]
    · rw [same, emit_process]
  · rw [emit_process]
  · rfl

section

variable {tag : Option String} {keep : List FiberId} {main : FiberId}

/-- What becomes of a fiber where a task gives way for good. -/
theorem fiber?_handBack (t : Thread) (id main : FiberId) (s : FiberState) (k : List Frame)
    (x : FiberId) : (t.handBack id main s k).fiber? x =
      (t.fiber? x).map (Thread.Sound.crossed id main
        (fun f => { f with state := s, context := some .spent, handles := f.handles - 1 })
        Thread.Sound.atHome) :=
  have fibers : (t.handBack id main s k).fibers = t.fibers.map (Thread.Sound.crossed id main _ _) := rfl
  Thread.fiber?_crossed fibers (by simp) (by simp [Thread.Sound.atHome]) x

/-- The thread keeps its name when the callback ends. -/
theorem undone_name (sheds : u.Sheds (u.dropCallback tag keep)) :
    (u.undone id tag keep).thread.name = u.thread.name := by
  change (u.dropCallback tag keep).thread.name = _
  rw [sheds.thread.same]
  rfl

/-- A callback that ends hands its value on, if it has one, and the task has its last state. -/
theorem finish_hands_over {e : Finish} (sound : Stage.Sound others ⟨u, some id, .exec, id :: keep⟩)
    (base : u.thread.frames.getLast? = some (.task id tag keep)) (parks : u.thread.Parks K)
    (returns : ∀ p, e = .faulted p → u.process.hook.panics = false) :
    (u.finish id tag keep e).thread.frames = e.handTo id K ∧
      ∃ f, (u.finish id tag keep e).thread.fiber? id = some f ∧ f.state = e.state := by
  obtain ⟨main, -, -, isMain, -, -, -, -⟩ := mainFrames_of_runner sound.thread
  have finished := finish_eq_of_returns e sound base isMain (parks_iff.mpr parks) returns
  obtain ⟨f, found, -, -⟩ := (ended_sound e sound base).thread.runner_runs
  have states : ((u.dropCallback tag keep).onThread fun t => t.setState id e.state).thread.fiber? id =
      _ := Thread.fiber?_update (u.dropCallback tag keep).thread id id _ fun _ => rfl
  obtain ⟨f', found', -⟩ := Option.map_eq_some_iff.mp (states.symm.trans found)
  have task := fiber?_handBack (u.dropCallback tag keep).thread id main e.state (e.handTo id K) id
  rw [found', Option.map_some, Thread.Sound.crossed, if_pos (Thread.id_of_fiber? found')] at task
  rw [finished]
  exact ⟨rfl, _, task, rfl⟩

/-- A panic that no block catches ends the callback, and the main fiber goes on. -/
theorem finish_contains (sound : Stage.Sound others ⟨u, some id, .exec, id :: keep⟩)
    (base : u.thread.frames.getLast? = some (.task id tag keep)) (parks : u.thread.Parks K)
    (returns : u.process.hook.panics = false) :
    Contains u (u.finish id tag keep (.faulted p)) id p tag keep K := by
  obtain ⟨main, q, k, isMain, ne, parked, -, -⟩ := mainFrames_of_runner sound.thread
  obtain rfl : K = .waiting q :: k := by
    cases (parks_iff.mpr parks).symm.trans parked
    rfl
  obtain ⟨sheds, callback⟩ := dropCallback_sheds tag sound
  have ended : Stage.Sound others ⟨u.undone id tag keep, some id, .except, [id]⟩ :=
    ended_sound (.faulted p) sound base
  have hook : (u.undone id tag keep).process.hook = u.process.hook := by
    change (u.dropCallback tag keep).process.hook = _
    rw [sheds.process]
  have finished := finish_eq_of_returns (.faulted p) sound base isMain parked fun _ _ => returns
  have fault : (u.undone id tag keep).reportFault id (.faulted p) = _ :=
    reportFault_eq p (by rw [hook]; exact returns)
  rw [undone_name sheds] at fault
  have shape : u.finish id tag keep (.faulted p) =
      ⟨((u.undone id tag keep).report (faultText p id u.thread.name)).1.process,
        (u.dropCallback tag keep).thread.handBack id main .except (.waiting q :: k)⟩ := by
    rw [finished, handTo_faulted, ← fault]
    rfl
  have stillMain : (u.dropCallback tag keep).thread.main = some main := by
    rw [sheds.thread.same]
    exact isMain
  obtain ⟨f, found, -, runs⟩ := ended.thread.runner_runs
  obtain ⟨g, foundMain, -, -⟩ := ended.thread.main_presides stillMain
  have states : (u.undone id tag keep).thread.fiber? main = _ :=
    Thread.fiber?_update (u.dropCallback tag keep).thread id main _ fun _ => rfl
  obtain ⟨g', foundMain', -⟩ := Option.map_eq_some_iff.mp (states.symm.trans foundMain)
  obtain ⟨-, task⟩ := finish_hands_over (e := .faulted p) sound base parks fun _ _ => returns
  have home := fiber?_handBack (u.dropCallback tag keep).thread id main .except (.waiting q :: k) main
  rw [foundMain', Option.map_some, Thread.Sound.crossed, Thread.id_of_fiber? foundMain', if_neg ne,
    if_pos rfl] at home
  have told := report_process (u.undone id tag keep) (faultText p id u.thread.name)
  rw [shape] at task ⊢
  refine
    { callback, sheds
      except := ⟨f, found, runs.state⟩
      report := rfl
      trace := ((u.undone id tag keep).report_reports _).trace ended.going
      text := tellsFault_faultText p id u.thread.name
      thread := ⟨main, isMain, rfl⟩
      task := task
      main := ⟨main, _, stillMain, rfl, home, rfl⟩
      frames := rfl
      others := fun x g other notMain there => ?_
      slots := ?_
      process := ?_ }
  · rw [fiber?_handBack, Option.map_eq_some_iff] at there
    obtain ⟨f, there, rfl⟩ := there
    have mine := Thread.id_of_fiber? there
    rw [Thread.Sound.crossed, if_neg (mine ▸ other), if_neg fun same => ?_]
    · exact sheds.thread.fibers x f there
    · exact notMain (by rw [isMain, ← same, mine])
  · change (u.dropCallback tag keep).thread.slots = _
    rw [sheds.thread.same]
  · exact told.trans (congrArg (fun q : Process =>
      { q with
        trace := ((u.undone id tag keep).report (faultText p id u.thread.name)).1.process.trace
        program := ((u.undone id tag keep).report (faultText p id u.thread.name)).1.process.program })
      sheds.process)

/-- A resume that is carried on answers with the state of its fiber. -/
theorem resume_answers {m : Manner} {k : List Frame} {f : Fiber}
    (frames : u.thread.frames = .waiting (.resume m id) :: k) (found : u.thread.fiber? id = some f) :
    u.step = ((u.goOn k).release [id]).conclude (Pending.resume m id).name (.state f.state) := by
  have found : (u.goOn k).thread.fiber? id = some f := found
  simp only [step, frames, carryOn, onHeld, found, answer, letGo, settle]

/-- What becomes of a panic that is thrown in the code of a task, while the main fiber has
parked some code. -/
inductive Settles (u v : World) (id : FiberId) (p : Payload) (K : List Frame) : Prop
  /-- A block of the task catches it. Nothing is reported, and the task goes on. -/
  | caught {k : List Frame} (stops : u.stop = .catching :: k)
    (entry : v = (u.goOn k).emit (.completed (Op.attempt []).name (.panicked p.text?)))
    (runs : v.thread.task? = some id)
    (exec : ∃ f, v.thread.fiber? id = some f ∧ f.state = .exec)
  /-- A demonstration that the task gives ends by it. -/
  | shown {d : Demo} {k : List Frame} (stops : u.stop = .program d :: k)
    (ends : v = (u.goOn k).endDemo d (some p)) (runs : v.thread.task? = some id)
    (exec : ∃ f, v.thread.fiber? id = some f ∧ f.state = .exec)
  /-- It ends the callback, and the main fiber goes on: a resume answers as if the callback
  had ended by itself. -/
  | contained {tag : Option String} {keep : List FiberId} (uncaught : u.stop = [.task id tag keep])
    (returns : u.process.hook.panics = false) (contains : u.Contains v id p tag keep K)
    (answers : ∀ m k, K = .waiting (.resume m id) :: k →
      v.step = ((v.goOn k).release [id]).conclude (Pending.resume m id).name (.state .except))
  /-- The hook panics over the report, and the process ends there and then. -/
  | aborted {tag : Option String} {keep : List FiberId} (uncaught : u.stop = [.task id tag keep])
    (panics : u.process.hook.panics = true) (sheds : u.Sheds (u.dropCallback tag keep))
    (halted : v.process.halted = true)
    (trace : v.process.trace.toList = (u.dropCallback tag keep).process.trace.toList ++
      (u.undone id tag keep).reportEntries (faultText p id u.thread.name) ++
      ((u.undone id tag keep).report (faultText p id u.thread.name)).1.lastEntries)
    (text : TellsFault id u.thread.name p (faultText p id u.thread.name))

/-- A task that goes on behind a block which has stopped a panic. -/
theorem runs_behind {fr : Frame} {k : List Frame} (sound : Stage.Sound others (u.stage (some id)))
    (suffix : fr :: k <:+ u.thread.frames) (rest : Body (some id) k)
    (same : Frame.allHandles k = Frame.allHandles u.thread.frames)
    (stays : Stays (fun _ => True) ((u.goOn k).stage (some id))
      ⟨v, some id, .exec, Frame.allHandles k⟩) :
    v.thread.task? = some id ∧ ∃ f, v.thread.fiber? id = some f ∧ f.state = .exec := by
  have base : k.getLast? = u.thread.frames.getLast? := by
    rw [← Body.getLast?_of_suffix suffix, rest.getLast?_cons]
  have went : Leads (fun _ => True) (u.stage (some id)) ((u.goOn k).stage (some id)) :=
    goOn_leads base same
  have after := stays.sound (went.sound sound)
  obtain ⟨f, found, -, runs⟩ := after.thread.runner_runs
  exact ⟨after.thread.task, f, found, runs.state⟩

/-- Every panic settles, one way or the other. -/
theorem unwind_settles (sound : Stage.Sound others (u.stage (some id)))
    (body : Body (some id) u.thread.frames) (parks : u.thread.Parks K) :
    ∃ v, u.unwind p = (v, .running) ∧ u.Settles v id p K := by
  have stops := body.unwind
  have suffix : (u.thread.frames.dropWhile fun f => !f.stopsPanic) <:+ u.thread.frames :=
    List.dropWhile_suffix _
  unfold unwind
  generalize stop : u.thread.frames.dropWhile (fun f => !f.stopsPanic) = k at stops suffix
  cases stops with
  | @catching k rest same =>
    obtain ⟨runs, exec⟩ := runs_behind sound suffix rest same
      (.emit (.completed (Op.attempt []).name (.panicked p.text?)) trivial rfl)
    exact ⟨_, rfl, .caught stop rfl runs exec⟩
  | @program d k rest same =>
    obtain ⟨runs, exec⟩ := runs_behind sound suffix rest same (endDemo_stays d (some p))
    exact ⟨_, rfl, .shown stop rfl runs exec⟩
  | @task f tag keep mine same =>
    cases mine
    have base := (Body.getLast?_of_suffix suffix).symm
    rw [stage, same] at sound
    refine ⟨_, rfl, ?_⟩
    cases hook : u.process.hook.panics with
    | false =>
      have contains := finish_contains (p := p) sound base parks hook
      refine .contained stop hook contains fun m k eq => ?_
      obtain ⟨f, found, state⟩ := contains.task
      rw [← state]
      exact resume_answers (contains.frames.trans eq) found
    | true =>
      have sheds := (dropCallback_sheds tag sound).1
      obtain ⟨halted, trace⟩ := finish_of_panics (p := p) (x := u.undone id tag keep) rfl rfl sound
        base hook
      rw [undone_name sheds] at trace
      exact .aborted stop hook sheds halted trace (tellsFault_faultText p id u.thread.name)
  | script mine same => cases mine

end

end World

/-! ## 4. Whole runs -/

namespace Machine

/-- A run that goes on has gone on so far. -/
theorem goes_before {m : Machine} {n k : Nat} (goes : (m.steps (n + k)).done = false) :
    (m.steps n).done = false := by
  cases done : (m.steps n).done with
  | false => rfl
  | true =>
    rw [steps_add, steps_of_done done, done] at goes
    cases goes

/-- A resume that is accepted contains every panic of the task, however many steps the task
makes before it panics, and whatever else runs meanwhile. A panic that no block of the task
catches destroys the callback while the task is in `exec`, leaves the task in `except`, is
reported once, and gives control back to the main fiber, which goes on behind its call with
the code that it had. Apart from what the callback takes along, it touches no other fiber,
no slot, no other thread and nothing of the process. A block that catches it leaves the
task running and nothing reported. A hook that panics over the report ends the process. -/
theorem faults_contained (level : Option Level) (hook : ReportHook) (script : List Op) (n i : Nat)
    {id : FiberId} {q : Pending} {k : List Frame} {p : Payload} {u : World}
    (idle : ((start level hook script).steps n).world.thread.task? = none)
    (calls : ((start level hook script).steps n).world.Calls id q k)
    (turn : ∀ j ≤ i, ((start level hook script).steps (n + 1 + j)).RunsAt
      ((start level hook script).steps n).spawners.length id)
    (back : ((start level hook script).steps (n + 1 + i)).spawners.length =
      ((start level hook script).steps n).spawners.length)
    (goes : ((start level hook script).steps (n + 1 + i)).done = false)
    (throws : ((start level hook script).steps (n + 1 + i)).world.Throws p u) :
    ∃ v, (start level hook script).steps (n + 1 + i + 1) =
        { (start level hook script).steps (n + 1 + i) with world := v } ∧
      u.Settles v id p (.waiting q :: k) := by
  have goesNext := goes_before goes
  have goesFirst := goes_before goesNext
  -- the call has parked what stands behind it, and there it stays
  have parks : ∀ t, ((start level hook script).steps (n + 1)).threads[
      ((start level hook script).steps n).spawners.length]? = some t →
      t.Parks (.waiting q :: k) := by
    intro t there
    obtain ⟨t', there', runs⟩ := turn 0 (Nat.zero_le i)
    obtain rfl : t' = t := Option.some.inj (there'.symm.trans there)
    rw [steps_succ_of_goes goesFirst] at there
    refine (sound_of_goes goesFirst).parks_of_call goesFirst idle calls ?_ there runs
    rw [← steps_succ_of_goes goesFirst]
    exact halted_of_goes goesNext
  have still := (sound_of_goes goesNext).parks_steps i
    (fun j le => by rw [← steps_add]; exact turn j le) parks
    (by rw [← steps_add]; exact halted_of_goes goes)
  rw [← steps_add, ← back, threads_running] at still
  obtain ⟨t, there, runs⟩ := turn i (Nat.le_refl i)
  rw [← back, threads_running] at there
  obtain rfl := Option.some.inj there
  -- the panic is thrown in a sound state, and settles
  obtain ⟨stage, ready⟩ := (sound_of_goes goes).stage_of_task runs
  obtain ⟨step, after, body, parked⟩ := World.throws_unwinds stage
    (ready (finished_of_goes goes)) (still _ rfl) throws
  obtain ⟨v, unwinds, settles⟩ := World.unwind_settles (p := p) after body parked
  refine ⟨v, ?_, settles⟩
  rw [steps_succ_of_goes goes]
  exact step_of_running (step.trans unwinds)

/-- A task is created and resumed, and it panics in a block that is repeated. -/
def faulting : List Op :=
  [.create (.named "f") minStackSize .heap [.loop 1 [.panic (.text "x")]] none [],
    .resume .trusted (.slot (.named "f"))]

/-- The panic goes through the repeated block, and the script goes on behind the resume. -/
theorem panic_contained : ∃ u v,
    ((start none (.tagged "hook" false) faulting).steps 4).world.Throws (.text "x") u ∧
      (start none (.tagged "hook" false) faulting).steps 5 =
        { (start none (.tagged "hook" false) faulting).steps 4 with world := v } ∧
      u.Contains v 1 (.text "x") none [] [.waiting (.resume .trusted 1), .ops [], .script] := by
  obtain ⟨_, first⟩ := first_task_created (.tagged "hook" false) (rfl : faulting = _)
  obtain ⟨trace, second⟩ := first_task_enters (.tagged "hook" false) (rfl : faulting = _)
  let w := World.firstEntered (.tagged "hook" false) [.loop 1 [.panic (.text "x")]] [] trace
  have third := steps_of_running second rfl (x := (w.goOn [.ops [], .task 1 none []]).goOn
    [.loop 1 [.panic (.text "x")], .ops [], .task 1 none []]) rfl
  have fourth := steps_of_running third rfl (x := w.goOn [.ops [.panic (.text "x")],
    .loop 0 [.panic (.text "x")], .ops [], .task 1 none []]) rfl
  have runs : ∀ {v : World} {n : Nat}, (start none (.tagged "hook" false) faulting).steps n =
      ⟨v, [], false⟩ → v.thread.task? = some 1 →
      ((start none (.tagged "hook" false) faulting).steps n).RunsAt 0 1 := by
    intro v n same runs
    rw [same]
    exact ⟨v.thread, rfl, runs⟩
  have throws : ((start none (.tagged "hook" false) faulting).steps 4).world.Throws (.text "x")
      (w.goOn [.ops [], .loop 0 [.panic (.text "x")], .ops [], .task 1 none []]) := by
    rw [fourth]
    exact .raised ⟨_, _, rfl, rfl⟩ rfl
  have turn : ∀ j ≤ 2, ((start none (.tagged "hook" false) faulting).steps (1 + 1 + j)).RunsAt
      ((start none (.tagged "hook" false) faulting).steps 1).spawners.length 1 := by
    intro j le
    rw [first]
    obtain rfl | rfl | rfl : j = 0 ∨ j = 1 ∨ j = 2 := by omega
    · exact runs second rfl
    · exact runs third rfl
    · exact runs fourth rfl
  have calls : ((start none (.tagged "hook" false) faulting).steps 1).world.Calls 1
      (.resume .trusted 1) [.ops [], .script] := by
    rw [first]
    exact .resume rfl
  obtain ⟨v, fifth, settles⟩ := faults_contained none (.tagged "hook" false) faulting 1 2
    (by rw [first]; rfl) calls turn (by rw [first, fourth]) (by rw [fourth]; rfl) throws
  refine ⟨_, v, throws, fifth, ?_⟩
  cases settles with
  | caught stops => cases stops
  | shown stops => cases stops
  | contained uncaught returns contains =>
    cases uncaught
    exact contains
  | aborted uncaught panics =>
    cases panics

end Machine

end FiberEngine
