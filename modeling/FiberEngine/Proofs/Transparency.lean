/-
FiberEngine.Proofs.Transparency — suspension is transparent to the suspended code.

A fiber is created with a body and driven until its callback has ended, and then the
same is done with what is left of the body without its suspensions. Up to the first
resume the two worlds are twins, of which one has another callback bound to the new
fiber (`Guise.bind`). When the callback is entered the binding is gone, and the two
machines are beside each other. How they end is said in `Arrivals`.

The main statement is `suspension_transparent`.
-/
import FiberEngine.Proofs.Arrivals

namespace FiberEngine

open FiberEngine.Frame (allAtoms)

/-! ## 1. A task with another body -/

/-- Another body for the callback of one fiber. -/
def Guise.bind (x : FiberId) (body : List Op) : Guise :=
  ⟨id, fun _ => id, fun id b => if id = x then body else b⟩

namespace Guise

variable {x : FiberId} {body : List Op}

theorem bind_context (id : FiberId) (c : Context) : (bind x body).context id c = c := by
  cases c <;> rfl

theorem bind_fiber_of_ne {f : Fiber} (ne : f.id ≠ x) : (bind x body).fiber f = f := by
  have callback : ∀ cb, (bind x body).callback f.id cb = cb := fun cb => by
    simp [callback, bind, ne]
  simp [fiber, funext (bind_context f.id), funext callback]

theorem bind_fiber {f : Fiber} {cb : Callback} (mine : f.id = x) (callback : f.pending = some cb) :
    (bind x body).fiber f = { f with pending := some { cb with body := body } } := by
  have context : f.context.map ((bind x body).context f.id) = f.context := by
    rw [funext (bind_context f.id), Option.map_id']
  simp only [fiber, context, callback, Option.map_some, Guise.callback]
  simp [bind, mine]

end Guise

/-- A task that was never resumed, in a slot. -/
structure Thread.Newborn (t : Thread) (slot : SlotName) (f : Fiber) (cb : Callback) : Prop where
  holds : t.slot? slot = some f.id
  found : t.fiber? f.id = some f
  state : f.state = .init
  context : f.context = some .fresh
  callback : f.pending = some cb

/-- With another body it is a newborn task, too. -/
theorem Thread.Newborn.bind {t : Thread} {slot : SlotName} {f : Fiber} {cb : Callback}
    (newborn : t.Newborn slot f cb) (body : List Op) :
    ((Guise.bind f.id body).thread t).Newborn slot ((Guise.bind f.id body).fiber f)
      { cb with body := body } where
  holds := newborn.holds
  found := by
    change ((Guise.bind f.id body).thread t).fiber? f.id = _
    rw [Guise.fiber?_thread, newborn.found, Option.map_some]
  state := newborn.state
  context := by
    rw [Guise.bind_fiber rfl newborn.callback]
    exact newborn.context
  callback := by rw [Guise.bind_fiber rfl newborn.callback]

namespace World

variable {others : List FiberId} {w w' : World} {r : Option FiberId} {h : List FiberId}

/-- A new task in a thread, with one body and with another one. -/
theorem insert_bind {t : Thread} {id : FiberId} {lease : StackLease} {cb : Callback}
    {body : List Op} (fresh : ∀ f ∈ t.fibers, f.id ≠ id) :
    t.insert (Fiber.task id lease { cb with body := body }) =
      (Guise.bind id body).thread (t.insert (Fiber.task id lease cb)) := by
  have others : ∀ f ∈ t.fibers, (Guise.bind id body).fiber f = f :=
    fun f mem => Guise.bind_fiber_of_ne (fresh f mem)
  have mine : (Guise.bind id body).fiber (Fiber.task id lease cb) =
      Fiber.task id lease { cb with body := body } := Guise.bind_fiber rfl rfl
  simp only [Guise.thread, Thread.insert, List.map_append, List.map_congr_left others,
    List.map_id', List.map_cons, List.map_nil, mine]
  rfl

/-- A task is created with one body as with another one. -/
theorem createTask_bind (a : Allocator) (asked : Nat) (cb : Callback) (body : List Op)
    (sound : Stage.Sound others ⟨w, r, .exec, cb.keep ++ h⟩) :
    (∃ v why, w.createTask a asked cb = (v, .error why) ∧
        w.createTask a asked { cb with body := body } = (v, .error why)) ∨
      ∃ v v' x, w.createTask a asked cb = (v, .ok x) ∧
        w.createTask a asked { cb with body := body } = (v', .ok x) ∧
        Twins x (.bind x body) v v' := by
  have sized : Stays (fun _ => True) ⟨w, r, .exec, cb.keep ++ h⟩ _ :=
    stackSize_stays (fun _ => trivial) asked
  unfold createTask
  rcases eq : w.stackSize asked with ⟨u, p | size⟩ <;> rw [eq] at sized
  · exact .inl ⟨_, _, rfl, rfl⟩
  · obtain ⟨v, -, stays, ⟨n, allocated⟩ | ⟨e, refused⟩⟩ :=
      @allocateStack_cases (fun _ => True) u r (cb.keep ++ h) a size
    · have fresh : ∀ f ∈ (v.handOut a n).1.thread.fibers, f.id ≠ (v.handOut a n).1.process.nextId :=
        ((sized.trans stays).sound sound).fresh
      simp only [allocated]
      refine .inr ⟨_, _, _, rfl, rfl, ?_, rfl, rfl⟩
      rw [insertTask_thread, insertTask_thread]
      generalize (v.handOut a n).1 = u, (v.handOut a n).2 = b at fresh
      exact insert_bind fresh
    · simp only [refused]
      exact .inl ⟨_, _, rfl, rfl⟩

/-- What is put into a slot stays there, and so does a fiber, if it is not gone. -/
theorem newborn_of_putSlot {slot : SlotName} {x : FiberId} {lease : StackLease} {cb : Callback}
    (found : w.thread.fiber? x = some (Fiber.task x lease cb))
    (sound : (w.putSlot slot x).thread.Sound r .exec h) :
    ∃ f, f.id = x ∧ (w.putSlot slot x).thread.Newborn slot f cb := by
  have holds : (w.putSlot slot x).thread.slot? slot = some x := by
    have kept := (release_keeps (w.onThread fun t => t.setSlot slot x)
      (w.thread.slot? slot).toList).1
    rw [Thread.slot?, putSlot, kept]
    change Slots.find? (Slots.insert slot x w.thread.slots) slot = some x
    rw [Slots.find?_insert, if_pos rfl]
  obtain ⟨f, there⟩ := sound.exists_of_mem
    (List.mem_append_left _ (Thread.Sound.mem_kept_of_slot holds))
  have mine := Thread.id_of_fiber? there
  obtain ⟨f₀, before, same⟩ := fiber?_release there
  obtain rfl : Fiber.task x lease cb = f₀ := Option.some.inj (found.symm.trans before)
  refine ⟨f, mine, ?_⟩
  rw [same] at there ⊢
  exact ⟨holds, there, rfl, rfl, rfl⟩

/-- Two creations that differ by the body come to the same, or to twins. -/
theorem perform_create_bind (slot : SlotName) (size : Nat) (a : Allocator) (tag : Option String)
    (keep : List FiberRef) (body body' : List Op)
    (sound : Stage.Sound others (w.stage none)) (code : Body none w.thread.frames) :
    w.perform (.create slot size a body tag keep) =
        w.perform (.create slot size a body' tag keep) ∨
      ∃ v v' reply f ids, w.perform (.create slot size a body tag keep) = (v, .done reply) ∧
        w.perform (.create slot size a body' tag keep) = (v', .done reply) ∧
        reply.complaint? = none ∧ Twins f.id (.bind f.id body') v v' ∧
        v.thread.Newborn slot f ⟨body, tag, ids⟩ ∧ v.thread.frames = w.thread.frames ∧
        v.process.halted = false := by
  have permits : w.Permits (.create slot size a body tag keep) (fun _ => True) (fun _ => True) :=
    ⟨fun _ => trivial, fun _ _ => trivial, fun _ _ => ⟨trivial, trivial⟩⟩
  have lands : Lands (fun _ => True) (fun _ => True) (w.stage none) _
      (w.perform (.create slot size a body tag keep)) := perform_lands sound code (by simp) permits
  have held : Stays (fun _ => True) (w.stage none) _ := holdAll_stays keep sound
  have holding := held.sound sound
  simp only [perform] at lands ⊢
  generalize w.holdAll keep = u at holding lands ⊢
  obtain ⟨u, ids⟩ := u
  rcases createTask_bind a size ⟨body, tag, ids⟩ body' holding with
    ⟨v, why, left, right⟩ | ⟨v, v', x, left, right, twins⟩
  · left
    simp only [create, left, right]
  · right
    obtain ⟨-, -, lease, -, -, found⟩ := createTask_new holding left
    simp only [create, left, right] at lands ⊢
    have put := putSlot_twins twins slot x
    rw [twins.fiber?]
    simp only [found, Option.map_some] at lands ⊢
    cases lands with
    | done stays _ =>
      obtain ⟨f, rfl, newborn⟩ := newborn_of_putSlot found (stays.sound sound).thread
      exact ⟨_, _, _, f, ids, rfl, rfl, rfl, put, newborn, stays.frames, (stays.sound sound).going⟩

/-! ## 2. The first resume of a drive -/

end World

/-- The world in which the main fiber is about to switch into a task. -/
def World.driver (w : World) (k : List Frame) (x : FiberId) : World :=
  ((w.goOn k).hold x).currentFiber.1

theorem World.driver_twins {w w' : World} {x : FiberId} {body : List Op}
    (twins : Twins x (.bind x body) w w') (k : List Frame) :
    Twins x (.bind x body) (w.driver k x) (w'.driver k x) := by
  have went : Twins x (.bind x body) (w.goOn k) (w'.goOn k) := twins.onThread rfl
  exact (currentFiber_agree (hold_twins went x)).twins

namespace Drive

variable {m m' : Machine} {slot : SlotName} {f : Fiber} {cb : Callback} {max : Nat}
variable {rest : List Op} {k : List Frame}

/-- The next step of a machine switches into a task that enters its callback. -/
structure Starts (D : Drive) (m : Machine) (w : World) (cb : Callback) : Prop where
  isMain : w.thread.main = some D.main
  ne : D.task ≠ D.main
  there : w.thread.fiber? D.main ≠ none
  frames : w.thread.frames = D.rest
  going : w.process.halted = false
  level : w.process.level = m.world.process.level
  step : m.world.step =
    ((w.depart D.task (.drive D.task 1 D.max)).begin D.task cb, .running)

/-- The main fiber resumes a new task for the first time. -/
theorem begins (sound : Stage.Sound m.others (m.world.stage none))
    (frames : m.world.thread.frames = .ops (.drive (.slot slot) max :: rest) :: k)
    (code : Body none k) (newborn : m.world.thread.Newborn slot f cb) (room : 0 < max)
    (quiet : Level.admits m.world.process.level .trace = false) :
    ∃ main, Starts ⟨f.id, main, max, .ops rest :: k⟩ m (m.world.driver (.ops rest :: k) f.id)
      cb := by
  have base : (Frame.ops rest :: k).getLast? = m.world.thread.frames.getLast? := by
    rw [frames, code.getLast?_cons, code.getLast?_cons]
  have after := World.sound_goOn sound base
  have fetched : (m.world.goOn (.ops rest :: k)).fetch (.slot slot) =
      (m.world.goOn (.ops rest :: k), some f.id) := congrArg (Prod.mk _) newborn.holds
  have found₀ : (m.world.goOn (.ops rest :: k)).thread.fiber? f.id = some f := newborn.found
  obtain ⟨found, performs⟩ := World.onFiber_eq fetched found₀ (fun w f => w.driveOn f 0 max)
  have holding : Stage.Sound m.others ⟨(m.world.goOn (.ops rest :: k)).hold f.id, none, .exec,
      f.id :: Frame.allHandles m.world.thread.frames⟩ :=
    (World.hold_stays found₀ : Stays (fun _ => True) _ _).sound after
  have level : ((m.world.goOn (.ops rest :: k)).hold f.id).process.level =
    m.world.process.level := rfl
  have here : ((m.world.goOn (.ops rest :: k)).hold f.id).thread.frames = .ops rest :: k := rfl
  have starts : (m.world.goOn (.ops rest :: k)).perform (.drive (.slot slot) max) = _ := performs
  unfold World.driver
  generalize (m.world.goOn (.ops rest :: k)).hold f.id = u at *
  have can : f.state.canResume = true := by rw [newborn.state]; rfl
  -- the resume is accepted
  have accepted : (u.resumeRefusal { f with handles := f.handles + 1 }).2 = none := by
    rw [World.resumeRefusal_eq holding found, if_pos can]
    rfl
  obtain ⟨-, -, same⟩ := World.accepted_of_resume holding accepted
  have asked : u.resumeRefusal { f with handles := f.handles + 1 } = (u.currentFiber.1, none) :=
    Prod.ext same accepted
  have asking : Stays (fun _ => True) _ _ := World.currentFiber_stays holding
  have home := asking.sound holding
  have isMain := World.main_of_currentFiber holding
  have there := World.fiber?_currentFiber found
  have notMain : u.currentFiber.1.thread.main ≠ some f.id :=
    (World.rests_of_canResume (f := { f with handles := f.handles + 1 }) home.thread there can).2
  obtain ⟨g, foundMain, -, -⟩ := home.thread.main_presides isMain
  obtain ⟨new, tells⟩ := (asking : Stays (fun _ => True) _ _).leads.tells holding
  have level : u.currentFiber.1.process.level = m.world.process.level := tells.level.trans level
  rw [← level] at quiet
  have ne : f.id ≠ u.currentFiber.2 := fun same => notMain (same ▸ isMain)
  refine ⟨u.currentFiber.2, isMain, ne, by simp [foundMain], asking.frames.trans here, home.going,
    level, ?_⟩
  have switched : u.currentFiber.1.switchTo { f with handles := f.handles + 1 }
      (.drive f.id 1 max) = (u.currentFiber.1.depart f.id (.drive f.id 1 max)).begin f.id cb := by
    refine (World.switchTo_fresh (f := { f with handles := f.handles + 1 }) newborn.context
      newborn.callback).trans ?_
    rw [log_quiet quiet rfl]
    refine log_quiet ?_ rfl
    have same : ((u.currentFiber.1.depart f.id (.drive f.id 1 max)).begin f.id cb).process =
      u.currentFiber.1.process := World.depart_process isMain f.id _
    rw [same]
    exact quiet
  have goes : f.state.terminal = false := by rw [newborn.state]; rfl
  simp only [World.step, frames, starts, World.driveOn, goes, Bool.false_or, decide_eq_true_eq,
    Nat.not_le.mpr room, if_false, World.resume, asked, switched, World.letGo, World.settle]

variable {D : Drive} {w w' : World}

theorem Starts.on (starts : D.Starts m w cb) (sound : m.Sound) (goes : m.done = false)
    (quiet : Level.admits m.world.process.level .trace = false) (room : m.weight ≤ D.max) :
    D.On 1 m.step := by
  have thread := World.begin_thread (.drive D.task 1 D.max) cb starts.isMain starts.ne
  have process : ((w.depart D.task (.drive D.task 1 D.max)).begin D.task cb).process = w.process :=
    World.depart_process starts.isMain D.task _
  have step := Machine.step_of_running starts.step
  have going : ((w.depart D.task (.drive D.task 1 D.max)).begin D.task cb).process.halted =
      false := by
    rw [process]
    exact starts.going
  have on := sound.on goes starts.step going
  have goes' := Machine.goes_of_going goes going
  have parked := World.mainFrames_of_parked starts.isMain starts.ne starts.there thread fun _ => rfl
  rw [starts.frames] at parked
  have lighter := (Machine.step_lighter sound goes).resolve_left (by rw [step, goes']; simp)
  rw [step] at lighter ⊢
  refine ⟨on, goes', ⟨congrArg Thread.current thread, ?_, starts.ne⟩, parked, ?_, by omega⟩
  · exact (congrArg Thread.main thread).trans starts.isMain
  · rw [process, starts.level]
    exact quiet

/-- Where the callbacks have the same atoms, the machines begin beside each other. -/
theorem Starts.beside {body : List Op} (starts : D.Starts m w cb)
    (starts' : D.Starts m' w' { cb with body := body })
    (twins : Twins D.task (.bind D.task body) w w') (on : D.On 1 m.step) (on' : D.On 1 m'.step)
    (spawners : m'.spawners = m.spawners) (same : Op.allAtoms cb.body = Op.allAtoms body) :
    D.Beside 1 1 m.step m'.step := by
  have thread := World.begin_thread (.drive D.task 1 D.max) cb starts.isMain starts.ne
  have thread' := World.begin_thread (.drive D.task 1 D.max) { cb with body := body }
    starts'.isMain starts'.ne
  have process : ((w.depart D.task (.drive D.task 1 D.max)).begin D.task cb).process = w.process :=
    World.depart_process starts.isMain D.task _
  have process' : ((w'.depart D.task (.drive D.task 1 D.max)).begin D.task
      { cb with body := body }).process = w'.process := World.depart_process starts'.isMain D.task _
  have self := on.twins_self
  have step := Machine.step_of_running starts.step
  have step' := Machine.step_of_running starts'.step
  generalize (w.depart D.task (.drive D.task 1 D.max)).begin D.task cb = v at *
  generalize (w'.depart D.task (.drive D.task 1 D.max)).begin D.task { cb with body := body } = v'
    at *
  -- the callback that a task has entered is bound no more
  have fibers : v'.thread.fibers = v.thread.fibers := by
    rw [thread, thread', starts.frames, starts'.frames, twins.thread]
    simp only [Guise.thread, List.map_map]
    refine List.map_congr_left fun f _ => ?_
    by_cases mine : f.id = D.task
    · have mine' : ((Guise.bind D.task body).fiber f).id = D.task := mine
      simp only [Function.comp, Thread.Sound.crossed, if_pos mine, if_pos mine']
      rfl
    · simp only [Function.comp, Guise.bind_fiber_of_ne mine]
  have switched : v'.thread = v.thread.goOn [.ops body, .task D.task cb.tag cb.keep] := by
    have whole : v'.thread = { v'.thread with fibers := v.thread.fibers } := by rw [← fibers]
    refine whole.trans ?_
    rw [thread', thread, twins.thread]
    rfl
  refine ⟨on, on', ?_, ?_, ?_⟩ <;> rw [step, step']
  · have frames : v'.thread.frames = [.ops body, .task D.task cb.tag cb.keep] :=
      congrArg Thread.frames switched
    rw [step] at self
    rw [frames]
    refine ⟨switched.trans (Drive.goOn self _).thread, ?_, ?_⟩ <;> rw [process, process']
    · exact twins.process
    · exact twins.trace
  · exact spawners
  · have frames : v.thread.frames = [.ops cb.body, .task D.task cb.tag cb.keep] :=
      congrArg Thread.frames thread
    rw [frames, congrArg Thread.frames switched]
    simp [Frame.atoms, Thread.goOn, same]

end Drive

/-! ## 3. Transparency -/

namespace Machine

/-- The machine whose running thread performs some operations before it goes on. -/
def doing (m : Machine) (ops : List Op) : Machine :=
  { m with world := m.world.goOn (.ops ops :: m.world.thread.frames) }

/-- The machine whose running thread first creates a fiber with a body, and drives it
until its callback has ended. -/
def driving (m : Machine) (slot : SlotName) (size : Nat) (a : Allocator) (tag : Option String)
    (keep : List FiberRef) (max : Nat) (body : List Op) : Machine :=
  m.doing [.create slot size a body tag keep, .drive (.slot slot) max]

variable {m : Machine}

theorem Sound.doing (sound : m.Sound) (here : Stage.Sound m.others (m.world.stage none))
    (code : Body none m.world.thread.frames) (ops : List Op) : (m.doing ops).Sound where
  running := by
    have base : (Frame.ops ops :: m.world.thread.frames).getLast? =
        m.world.thread.frames.getLast? := code.getLast?_cons _
    exact ⟨none, World.sound_goOn here base, fun _ => .body (.ops ops code)⟩
  waiting := sound.waiting
  forgotten := sound.forgotten

theorem doing_weight (m : Machine) (ops : List Op) :
    (m.doing ops).weight = m.weight + Op.weightAll ops := by
  have change := m.world.goOn_weight (.ops ops :: m.world.thread.frames)
  simp only [Frame.weights_cons, Frame.weight] at change
  simp only [weight, doing]
  omega

/-- Two machines that differ by their code only make the same of a step. -/
theorem take_doing (m : Machine) (ops ops' : List Op) (r : World × World.Signal) :
    (m.doing ops).take r = (m.doing ops').take r := by
  obtain ⟨w, _ | e | child⟩ := r <;> rfl

section

variable {slot : SlotName} {size : Nat} {a : Allocator} {tag : Option String}
variable {keep : List FiberRef} {max : Nat} {body : List Op}

/-- What the creation of the fiber comes to, with one body and with another. -/
theorem driving_step (body' : List Op) (here : Stage.Sound m.others (m.world.stage none))
    (code : Body none m.world.thread.frames) :
    (m.driving slot size a tag keep max body).step =
        (m.driving slot size a tag keep max body').step ∨
      ∃ v v' f ids, (m.driving slot size a tag keep max body).step = { m with world := v } ∧
        (m.driving slot size a tag keep max body').step = { m with world := v' } ∧
        Twins f.id (.bind f.id body') v v' ∧ v.thread.Newborn slot f ⟨body, tag, ids⟩ ∧
        v.thread.frames = .ops [.drive (.slot slot) max] :: m.world.thread.frames ∧
        v.process.halted = false := by
  have base : (Frame.ops [.drive (.slot slot) max] :: m.world.thread.frames).getLast? =
      m.world.thread.frames.getLast? := code.getLast?_cons _
  have after := World.sound_goOn here base
  have step : ∀ ops, (m.driving slot size a tag keep max ops).world.step =
      World.settle "new" ((m.world.goOn (.ops [.drive (.slot slot) max] ::
        m.world.thread.frames)).perform (.create slot size a ops tag keep)) := fun _ => rfl
  rw [step_eq, step_eq, step, step]
  rcases World.perform_create_bind slot size a tag keep body body' after (.ops _ code) with
    same | ⟨v, v', reply, f, ids, left, right, fine, twins, newborn, frames, going⟩
  · left
    rw [same]
    exact take_doing m _ _ _
  · right
    rw [left, right, World.settle, World.settle, World.conclude_running fine v,
      World.conclude_running fine v']
    have same := World.conclude_same fine v "new"
    refine ⟨_, _, f, ids, rfl, rfl, World.conclude_twins fine twins "new", ?_, ?_, ?_⟩
    · rw [same.thread]
      exact newborn
    · rw [same.thread]
      exact frames
    · rw [same.halted]
      exact going

/-- What is known of a machine that has created a fiber and is about to drive it. -/
structure Drives (m : Machine) (k : List Frame) (slot : SlotName) (max : Nat) (f : Fiber)
    (cb : Callback) : Prop where
  sound : m.Sound
  goes : m.done = false
  frames : m.world.thread.frames = .ops [.drive (.slot slot) max] :: k
  newborn : m.world.thread.Newborn slot f cb
  room : m.weight ≤ max
  quiet : Level.admits m.world.process.level .trace = false

/-- An accepted creation comes to a machine that drives, if the drive has room. -/
theorem Sound.drives {w : World} {f : Fiber} {cb : Callback}
    (sound : (m.driving slot size a tag keep max body).Sound) (goes : m.done = false)
    (quiet : Level.admits m.world.process.level .trace = false)
    (room : m.weight + Op.weightAll body + 17 ≤ max)
    (step : (m.driving slot size a tag keep max body).step = { m with world := w })
    (going : w.process.halted = false) (newborn : w.thread.Newborn slot f cb)
    (frames : w.thread.frames = .ops [.drive (.slot slot) max] :: m.world.thread.frames) :
    Drives { m with world := w } m.world.thread.frames slot max f cb := by
  have before : (m.driving slot size a tag keep max body).done = false := goes
  have after := sound.step before (by rw [step]; exact going)
  have goes' : done { m with world := w } = false := goes_of_going goes going
  have lighter := (step_lighter sound before).resolve_left (by
    rw [step, goes']
    simp)
  have level := sound.steps_level 1
  have weight : (m.driving slot size a tag keep max body).weight =
      m.weight + Op.weightAll body + 17 := by
    rw [driving, doing_weight]
    simp only [Op.weightAll, Op.weight]
    omega
  rw [steps_of_step before, Machine.steps, step] at level
  rw [step] at after lighter
  rw [weight] at lighter
  exact ⟨after, goes', frames, newborn, by omega,
    (congrArg (Level.admits · .trace) level).trans quiet⟩

/-- The main fiber then switches into the fiber, which enters its callback. -/
theorem Drives.starts {k : List Frame} {f : Fiber} {cb : Callback}
    (drives : m.Drives k slot max f cb) (code : Body none k) :
    ∃ main, Drive.Starts ⟨f.id, main, max, .ops [] :: k⟩ m (m.world.driver (.ops [] :: k) f.id)
      cb := by
  have task : m.world.thread.task? = none := by
    rw [Thread.task?, drives.frames, Body.owner_cons _ code]
  have room := drives.room
  have pos := thread_weight_pos m.world.thread
  rw [weight] at room
  exact Drive.begins (drives.sound.stage_of_task task).1 drives.frames code drives.newborn
    (by omega) drives.quiet

/-- Two machines drive a fiber to the same end, if its bodies have the same atoms. -/
theorem Drives.sameEnd {m' : Machine} {k : List Frame} {f f' : Fiber} {cb : Callback}
    {body : List Op} (drives : m.Drives k slot max f cb)
    (drives' : m'.Drives k slot max f' { cb with body := body }) (same : f'.id = f.id)
    (twins : Twins f.id (.bind f.id body) m.world m'.world) (spawners : m'.spawners = m.spawners)
    (code : Body none k) (atoms : Op.allAtoms cb.body = Op.allAtoms body) :
    SameEnd f.id m.step m'.step := by
  obtain ⟨main, starts⟩ := drives.starts code
  obtain ⟨main', starts'⟩ := drives'.starts code
  rw [same] at starts'
  have went := World.driver_twins twins (.ops [] :: k)
  obtain rfl : main' = main :=
    Option.some.inj (starts'.isMain.symm.trans (went.main.trans starts.isMain))
  have on := starts.on drives.sound drives.goes drives.quiet drives.room
  have on' := starts'.on drives'.sound drives'.goes drives'.quiet drives'.room
  exact (starts.beside starts' went on on' spawners atoms).ends

/-- A machine whose main fiber is about to go on drives a fiber with a body to the same
end as one without the suspensions of this body. -/
theorem driving_sameEnd (sound : m.Sound) (goes : m.done = false)
    (here : Stage.Sound m.others (m.world.stage none)) (code : Body none m.world.thread.frames)
    (quiet : Level.admits m.world.process.level .trace = false)
    (room : m.weight + Op.weightAll body + 17 ≤ max) :
    (m.driving slot size a tag keep max body).step =
        (m.driving slot size a tag keep max (Op.unyieldingAll body)).step ∨
      ∃ x, (m.driving slot size a tag keep max body).step.world.thread.slot? slot = some x ∧
        SameEnd x (m.driving slot size a tag keep max body)
          (m.driving slot size a tag keep max (Op.unyieldingAll body)) := by
  refine (driving_step (Op.unyieldingAll body) here code).imp id ?_
  rintro ⟨v, v', f, ids, left, right, twins, newborn, frames, on⟩
  refine ⟨f.id, by rw [left]; exact newborn.holds, SameEnd.after 2 2 ?_⟩
  have sounds : ∀ ops, (m.driving slot size a tag keep max ops).Sound := fun ops =>
    sound.doing here code _
  have less := Op.weightAll_unyielding body
  have newborn' := twins.thread ▸ newborn.bind (Op.unyieldingAll body)
  have frames' : v'.thread.frames = .ops [.drive (.slot slot) max] :: m.world.thread.frames :=
    (congrArg Thread.frames twins.thread).trans frames
  have drives := (sounds body).drives goes quiet room left on newborn frames
  have drives' := (sounds (Op.unyieldingAll body)).drives goes quiet (by omega) right
    (twins.halted.trans on) newborn' frames'
  have two : ∀ {ops w}, (m.driving slot size a tag keep max ops).step = { m with world := w } →
      done { m with world := w } = false →
      (m.driving slot size a tag keep max ops).steps 2 = step { m with world := w } := by
    intro ops w step goes'
    have before : (m.driving slot size a tag keep max ops).done = false := goes
    rw [steps_of_step before, step, steps_of_step goes']
    rfl
  rw [two left drives.goes, two right drives'.goes]
  exact drives.sameEnd drives' rfl twins rfl code (Op.allAtoms_unyielding body).symm

end

/-- Suspension is transparent to the suspended code. Let the main fiber of the running
thread be current in some state of a run, in between its operations. There it may
create a fiber with a body and drive it until its callback has ended, or do the same
with the body that is left without the operations by which it suspends itself. If
the drive may take as many resumes as there can be, both come to the same: no fiber
is created, and nothing differs; or the process ends in both, or the drive is
answered in both. What the traces show is then the same but for the suspensions of
the new fiber, and so is all that the process and its threads consist of. The
answer may tell another number of resumes. -/
theorem suspension_transparent (level : Option Level) (hook : ReportHook) (script : List Op)
    (n : Nat) (slot : SlotName) (size : Nat) (a : Allocator) (tag : Option String)
    (keep : List FiberRef) (max : Nat) (body : List Op)
    (goes : ((start level hook script).steps n).done = false)
    (onMain : ((start level hook script).steps n).world.thread.current =
      ((start level hook script).steps n).world.thread.main)
    (between : ∀ p k, ((start level hook script).steps n).world.thread.frames ≠ .waiting p :: k)
    (quiet : Level.admits level .trace = false)
    (room : ((start level hook script).steps n).weight + Op.weightAll body + 17 ≤ max) :
    (((start level hook script).steps n).driving slot size a tag keep max body).step =
        (((start level hook script).steps n).driving slot size a tag keep max
          (Op.unyieldingAll body)).step ∨
      ∃ x, (((start level hook script).steps n).driving slot size a tag keep max
          body).step.world.thread.slot? slot = some x ∧
        SameEnd x (((start level hook script).steps n).driving slot size a tag keep max body)
          (((start level hook script).steps n).driving slot size a tag keep max
            (Op.unyieldingAll body)) := by
  have sound := sound_of_goes goes
  have quiet' : Level.admits ((start level hook script).steps n).world.process.level .trace =
      false := by
    rw [(start_sound level hook script).steps_level n]
    exact quiet
  obtain ⟨r, here, ready⟩ := sound.running
  obtain rfl : r = none := by
    cases r with
    | none => rfl
    | some task =>
      exact absurd (onMain.symm.trans here.thread.current) (here.thread.apart task rfl).2
  refine driving_sameEnd sound goes here ?_ quiet' room
  cases ready (finished_of_goes goes) with
  | body body => exact body
  | behind frames => exact absurd frames (between _ _)

/-- A body that suspends itself in a loop and in a block whose panic is caught. -/
def patient : List Op :=
  [.loop 2 [.park .ready, .attempt [.park .hold, .panic (.text "torn")]], .say .null]

theorem patient_transparent :
    ((start none .sink []).driving (.named "f") 65536 .heap none [] 200 patient).step =
        ((start none .sink []).driving (.named "f") 65536 .heap none [] 200
          (Op.unyieldingAll patient)).step ∨
      ∃ x, ((start none .sink []).driving (.named "f") 65536 .heap none [] 200
          patient).step.world.thread.slot? (.named "f") = some x ∧
        SameEnd x ((start none .sink []).driving (.named "f") 65536 .heap none [] 200 patient)
          ((start none .sink []).driving (.named "f") 65536 .heap none [] 200
            (Op.unyieldingAll patient)) :=
  suspension_transparent none .sink [] 0 (.named "f") 65536 .heap none [] 200 patient rfl rfl
    (by simp [steps, start, Thread.start]) rfl (by decide)

end Machine

end FiberEngine
