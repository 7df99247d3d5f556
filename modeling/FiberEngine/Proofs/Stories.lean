/-
FiberEngine.Proofs.Stories — the life of all fibers, act by act.

The moves of a path carry acts: a fiber is created, reset, resumed, yields, ends
or is destroyed. `Machine.Story` strings together the acts of all steps of a run,
with the end of the main fiber of a thread that ends. What was done does not
depend on how much of it is logged.

Every run has a story, by `steps_story`. `Story.births` says that its fibers are
created under the ids from one on, and `Story.leaves` that whoever is created and
not destroyed is alive.
-/
import FiberEngine.Proofs.Disposals
import FiberEngine.Proofs.History

namespace FiberEngine

/-! ## 1. The end of a process -/

namespace World

variable {w v : World}

/-- Entries that tell of no disposal leave what is told of disposals as it was. -/
theorem disposed_append {new : List Entry}
    (trace : v.process.trace.toList = w.process.trace.toList ++ new)
    (quiet : ∀ e ∈ new, e.event.givesUp = false) : v.process.disposed = w.process.disposed := by
  have none : (new.map Entry.event).filter Event.givesUp = [] := by
    rw [List.filter_eq_nil_iff]
    intro event mem
    obtain ⟨e, there, rfl⟩ := List.mem_map.mp mem
    simp [quiet e there]
  simp only [Process.disposed, trace, List.map_append, List.filter_append, none, List.append_nil]

theorem givesUp_of_report? {e : Event} {text : String} (report : e.report? = some text) :
    e.givesUp = false := by
  cases e <;> simp_all [Event.report?, Event.givesUp]

/-- A process that ends over a report does not dispose of anything more. -/
theorem fall_disposed {u : World} {text : String} (reports : w.Reports u text)
    (going : w.process.halted = false) (past : Over u.abort.process v) :
    v.process.disposed = w.process.disposed := by
  have trace : v.process.trace.toList =
      w.process.trace.toList ++ (w.reportEntries text ++ u.lastEntries) := by
    rw [past.2.1, abort_trace (reports.halted.trans going), reports.trace going,
      List.append_assoc]
  refine disposed_append trace fun e mem => ?_
  rcases List.mem_append.mp mem with mem | mem
  · exact givesUp_of_report? (reportEntries_report mem).2
  · rcases (lastEntries_last mem).2 with last | ⟨o, last⟩ <;> rw [last] <;> rfl

end World

/-! ## 2. Steps -/

namespace Machine

variable {texts fatal : String → Prop} {m v : Machine} {acts more : List Act}

/-- The stage at which a step of a machine begins. -/
def stage (m : Machine) : Stage :=
  m.world.stage m.world.thread.task?

/-- What a step does. A step that ends the process does what it does on the way. -/
inductive Does (texts : String → Prop) (m : Machine) : List Act → Machine → Prop
  | on {w : World} {r : Option FiberId} {acts : List Act}
    (path : Path texts m.stage acts (w.stage r)) : Does texts m acts { m with world := w }
  | fallen {w v : World} {r : Option FiberId} {s : FiberState} {h : List FiberId} {acts : List Act}
    (path : Path texts m.stage acts ⟨w, r, s, h⟩) (halted : v.process.halted = true)
    (nextId : v.process.nextId = w.process.nextId)
    (disposed : v.process.disposed = w.process.disposed) : Does texts m acts { m with world := v }
  | finished {w : World} {e : Ending} {acts : List Act}
    (path : Path texts m.stage acts
      ⟨({ m with world := w }.finishFirst e).world, none, .exec, []⟩) :
    Does texts m acts ({ m with world := w }.finishFirst e)
  | returned {w : World} {e : Ending} {parent : Thread} {rest : List Thread} {acts : List Act}
    (path : Path texts m.stage acts ⟨w.releaseSlots, none, .exec, []⟩)
    (waiting : m.spawners = parent :: rest) :
    Does texts m (acts ++ w.releaseSlots.parting)
      { m with world := ⟨w.releaseSlots.retire.process, hear parent e⟩, spawners := rest }
  | started {w : World} {r : Option FiberId} {kind : ThreadKind} {ops : List Op} {acts : List Act}
    (path : Path texts m.stage acts (w.stage r)) :
    Does texts m acts
      { m with world := ⟨w.process, World.child kind ops⟩, spawners := w.thread :: m.spawners }

/-- Every step does something. -/
theorem Advances.does {r : Option FiberId} {ends : FiberState → Prop}
    (advances : m.Advances texts fatal ends r v)
    (sound : Stage.Sound m.others (m.world.stage r)) : ∃ acts, Does texts m acts v := by
  obtain rfl : m.world.thread.task? = r := sound.thread.task
  cases advances with
  | on leads ready continues =>
    obtain ⟨acts, path⟩ := leads
    exact ⟨acts, .on path⟩
  | fallen falls =>
    cases falls with
    | @contract w message r h leads cause =>
      obtain ⟨acts, path⟩ := leads
      have going := (path.sound sound).going
      have reports := w.reportFatal_reports message
      exact ⟨acts, .fallen path rfl
        ((w.reportFatal message).1.abort_same.1.trans reports.nextId)
        (World.fall_disposed reports going ⟨rfl, rfl, rfl, rfl⟩)⟩
    | @fault w _ id p h leads ok panics past =>
      obtain ⟨acts, path⟩ := leads
      have going := (path.sound sound).going
      have reports := w.report_reports (faultText p id w.thread.name)
      exact ⟨acts, .fallen path past.1
        (past.2.2.1.trans ((w.report _).1.abort_same.1.trans reports.nextId))
        (World.fall_disposed reports going past)⟩
  | @finished w e leads body alone =>
    have stays : Stays texts _ _ := finishFirst_stays m e body _
    obtain ⟨acts, path⟩ := leads.trans stays.leads
    exact ⟨acts, .finished path⟩
  | returned leads body waiting =>
    have stays : Stays texts _ _ := ended_stays body _
    obtain ⟨acts, path⟩ := leads.trans stays.leads
    exact ⟨_, .returned path waiting⟩
  | started leads body frames =>
    obtain ⟨acts, path⟩ := leads
    exact ⟨acts, .started path⟩

/-- A step creates fibers under the next ids. -/
theorem Does.bears (does : Does texts m acts v) (sound : m.stage.Sound m.others) :
    m.world.process.Bears v.world.process acts := by
  cases does with
  | on path => exact (path.follows sound).bears
  | @fallen w v r s h acts path halted nextId disposed =>
    have ending : w.process.Bears v.process [] := .none nextId rfl
    rw [← acts.append_nil]
    exact (path.follows sound).bears.append ending
  | finished path => exact (path.follows sound).bears
  | returned path waiting =>
    have follows := path.follows sound
    obtain ⟨gone, new, retires⟩ :=
      World.retire_retires follows.sound (World.releaseSlots_slots _)
    exact follows.bears.append (.none retires.nextId (World.parting_births _))
  | started path => exact (path.follows sound).bears

/-- Who is alive elsewhere stays alive while the running thread goes on. -/
theorem leaves_on {w : World} {done : Bool} (leaked : w.process.leaked = m.world.process.leaked)
    (leaves : Leaves m.world.thread.ids acts w.thread.ids) :
    Leaves m.ids acts (ids ⟨w, m.spawners, done⟩) := by
  rw [ids_on leaked]
  exact leaves.append_right m.others

/-- Unless it ends the process, a step leaves alive whomever it does not destroy. -/
theorem Does.leaves (does : Does texts m acts v) (sound : m.stage.Sound m.others)
    (goes : v.world.process.halted = false) : Leaves m.ids acts v.ids := by
  have leaked : ∀ {a : Stage} {acts : List Act}, Path texts m.stage acts a →
      a.world.process.leaked = m.world.process.leaked := fun path => by
    obtain ⟨new, tells⟩ := path.tells sound
    exact tells.leaked
  cases does with
  | on path => exact leaves_on (leaked path) (path.follows sound).leaves
  | fallen path halted nextId disposed => cases halted.symm.trans goes
  | finished path => exact leaves_on (leaked path) (path.follows sound).leaves
  | @returned w e parent rest acts path waiting =>
    have follows := path.follows sound
    obtain ⟨gone, new, retires⟩ :=
      World.retire_retires follows.sound (World.releaseSlots_slots w)
    have kept : w.releaseSlots.process.leaked = m.world.process.leaked := leaked path
    have more : w.releaseSlots.retire.process.leaked = m.world.process.leaked ++ gone := by
      rw [retires.leaked, kept]
    have left := (follows.leaves.append retires.leaves).append_right m.others
    exact left.trans ((ids_returned waiting more).symm.append_left _)
  | @started w r kind ops acts path =>
    have kept : w.process.leaked = m.world.process.leaked := leaked path
    rw [ids_started kept]
    exact (path.follows sound).leaves.append_right m.others

/-- A step shows in the trace what it disposes of. -/
theorem Does.disposes (does : Does texts m acts v) (sound : m.stage.Sound m.others) :
    m.world.Disposes acts v.world := by
  cases does with
  | on path => exact path.disposes sound
  | @fallen w v r s h acts path halted nextId disposed =>
    have shown := path.disposes sound
    rw [World.Disposes] at shown ⊢
    exact disposed.trans shown
  | finished path => exact path.disposes sound
  | @returned w e parent rest acts path waiting =>
    obtain ⟨gone, new, retires⟩ :=
      World.retire_retires (path.sound sound) (World.releaseSlots_slots _)
    have still : w.releaseSlots.Disposes w.releaseSlots.parting w.releaseSlots.retire := by
      have none : w.releaseSlots.parting.filterMap Act.entry? = [] := by
        unfold World.parting
        split
        · split <;> rfl
        · rfl
      rw [World.Disposes, none, List.append_nil]
      refine World.disposed_append retires.trace fun e mem => ?_
      obtain ⟨id, span, torn⟩ := (retires.torn e mem).torn
      rw [torn]
      rfl
    exact (path.disposes sound).trans still
  | started path => exact path.disposes sound

/-! ## 3. Runs -/

/-- What the first steps of a machine do. -/
inductive Story (m : Machine) : Nat → List Act → Prop
  | begin : Story m 0 []
  | next {n : Nat} {acts more : List Act} (story : Story m n acts)
    (goes : (m.steps n).done = false)
    (does : Does (m.steps n).world.MayReport (m.steps n) more (m.steps (n + 1))) :
    Story m (n + 1) (acts ++ more)
  | still {n : Nat} {acts : List Act} (story : Story m n acts) (done : (m.steps n).done = true) :
    Story m (n + 1) acts

section

variable {level : Option Level} {hook : ReportHook} {script : List Op} {n : Nat}

/-- Every run has a story. -/
theorem steps_story (level : Option Level) (hook : ReportHook) (script : List Op) (n : Nat) :
    ∃ acts, Story (start level hook script) n acts := by
  induction n with
  | zero => exact ⟨[], .begin⟩
  | succ n ih =>
    obtain ⟨acts, story⟩ := ih
    cases goes : ((start level hook script).steps n).done with
    | true => exact ⟨acts, .still story goes⟩
    | false =>
      obtain ⟨r, here, advances⟩ := (sound_of_goes goes).advances goes
      obtain ⟨more, does⟩ := advances.does here
      rw [← steps_succ_of_goes goes] at does
      exact ⟨acts ++ more, .next story goes does⟩

/-- A run that goes on is at a sound stage. -/
theorem stage_sound (goes : ((start level hook script).steps n).done = false) :
    ((start level hook script).steps n).stage.Sound ((start level hook script).steps n).others := by
  obtain ⟨r, here, -⟩ := (sound_of_goes goes).running
  obtain rfl : ((start level hook script).steps n).world.thread.task? = r := here.thread.task
  exact here

/-- The fibers of a run are created under the ids from one on, in this order. -/
theorem Story.births (story : Story (start level hook script) n acts) :
    births acts =
      List.range' 1 (((start level hook script).steps n).world.process.nextId - 1) := by
  suffices bears : (start level hook script).world.process.Bears
      ((start level hook script).steps n).world.process acts from bears.births
  induction story with
  | begin => exact .none rfl rfl
  | next story goes does ih => exact ih.append (does.bears (stage_sound goes))
  | still story done ih =>
    rw [steps_succ_of_done done]
    exact ih

/-- As long as the process lasts, whoever is created and not destroyed is alive. -/
theorem Story.leaves (story : Story (start level hook script) n acts)
    (goes : ((start level hook script).steps n).world.process.halted = false) :
    Leaves [] acts ((start level hook script).steps n).ids := by
  induction story with
  | begin => exact .of_quiet ⟨rfl, rfl⟩ rfl
  | next story before does ih =>
    have after := does.leaves (stage_sound before) goes
    exact (ih (halted_of_goes before)).append after
  | still story done ih =>
    rw [steps_succ_of_done done] at goes ⊢
    exact ih goes

/-- At every point of a run, and when it has ended, the trace shows what has been
disposed of. -/
theorem Story.disposes (story : Story (start level hook script) n acts) :
    ((start level hook script).steps n).world.process.disposed = acts.filterMap Act.entry? := by
  suffices shown : (start level hook script).world.Disposes acts
      ((start level hook script).steps n).world by
    have empty : (start level hook script).world.process.disposed = [] := rfl
    rw [World.Disposes, empty, List.nil_append] at shown
    exact shown
  induction story with
  | begin => exact .silent rfl rfl
  | next story goes does ih => exact ih.trans (does.disposes (stage_sound goes))
  | still story done ih =>
    rw [steps_succ_of_done done]
    exact ih

end

end Machine

end FiberEngine
