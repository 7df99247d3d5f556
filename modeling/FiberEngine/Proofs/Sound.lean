/-
FiberEngine.Proofs.Sound — every move keeps a stage sound.

Most moves leave the ids of the fibers and the counts of the process as they
are; for these it is enough that the thread stays sound. Two moves create a
fiber, under an id that no fiber had before, and a release takes fibers out, one
in each of its rounds. `Stage.Follows` says so together with the acts of the
move, so that the account of who is alive is kept by the same proof.
-/
import FiberEngine.Proofs.Lives

namespace FiberEngine

/-! ## 1. Writing leaves all but the trace as it was -/

namespace World

theorem emit_of_going {w : World} (going : w.process.halted = false) (e : Event) :
    w.emit e =
      { w with process := { w.process with trace := w.process.trace.push ⟨w.thread, e⟩ } } := by
  simp [emit, going]

/-- Of the process, only the trace changes. -/
theorem emit_process (w : World) (e : Event) :
    (w.emit e).process = { w.process with trace := (w.emit e).process.trace } := by
  unfold emit
  split <;> rfl

theorem log_cases (w : World) (n : Notice) :
    w.log n = w ∨ w.log n = w.emit (.logged n w.span?) := by
  unfold log
  split
  · exact .inr rfl
  · exact .inl rfl

/-- Processes that differ in their traces alone. -/
structure SameButTrace (w v : World) : Prop where
  thread : v.thread = w.thread
  nextId : v.process.nextId = w.process.nextId
  live : v.process.live = w.process.live
  registry : v.process.registry = w.process.registry
  hook : v.process.hook = w.process.hook
  defaultSize : v.process.defaultSize = w.process.defaultSize
  level : v.process.level = w.process.level
  leaked : v.process.leaked = w.process.leaked
  program : v.process.program = w.process.program
  halted : v.process.halted = w.process.halted

theorem SameButTrace.refl (w : World) : SameButTrace w w :=
  ⟨rfl, rfl, rfl, rfl, rfl, rfl, rfl, rfl, rfl, rfl⟩

theorem SameButTrace.trans {w v u : World} (first : SameButTrace w v) (second : SameButTrace v u) :
    SameButTrace w u where
  thread := second.thread.trans first.thread
  nextId := second.nextId.trans first.nextId
  live := second.live.trans first.live
  registry := second.registry.trans first.registry
  hook := second.hook.trans first.hook
  defaultSize := second.defaultSize.trans first.defaultSize
  level := second.level.trans first.level
  leaked := second.leaked.trans first.leaked
  program := second.program.trans first.program
  halted := second.halted.trans first.halted

theorem emit_same (w : World) (e : Event) : SameButTrace w (w.emit e) := by
  unfold emit
  split
  · exact .refl w
  · exact ⟨rfl, rfl, rfl, rfl, rfl, rfl, rfl, rfl, rfl, rfl⟩

theorem log_same (w : World) (n : Notice) : SameButTrace w (w.log n) := by
  rcases w.log_cases n with same | same
  · rw [same]
    exact .refl w
  · rw [same]
    exact emit_same ..

theorem dropTag_same (w : World) (tag : Option String) : SameButTrace w (w.dropTag tag) := by
  cases tag with
  | none => exact .refl w
  | some tag => exact emit_same ..

theorem deallocate_same (w : World) (lease : StackLease) :
    SameButTrace (w.onThread fun t => t.takeBack lease)
      (w.deallocate lease.allocator lease.block) := by
  rw [deallocate_eq]
  split
  · exact emit_same ..
  · exact .refl _

/-- What is left when a task that no code is on is destroyed. -/
theorem destroy_same {w : World} {f : Fiber} {lease : StackLease} (onStack : f.lease = some lease)
    (can : f.state.canReset) :
    SameButTrace ((w.onThread fun t => (t.erase f.id).takeBack lease).uncount) (w.destroy f).1 := by
  have given := deallocate_same (w.onThread fun t => t.erase f.id).uncount lease
  rw [destroy_eq onStack can]
  exact (given.trans (log_same ..)).trans (dropTag_same ..)

end World

namespace Thread

variable (t : Thread) (lease : StackLease)

@[simp]
theorem takeBack_fibers : (t.takeBack lease).fibers = t.fibers := by
  unfold takeBack; split <;> rfl

@[simp]
theorem takeBack_slots : (t.takeBack lease).slots = t.slots := by
  unfold takeBack; split <;> rfl

@[simp]
theorem takeBack_main : (t.takeBack lease).main = t.main := by
  unfold takeBack; split <;> rfl

@[simp]
theorem takeBack_current : (t.takeBack lease).current = t.current := by
  unfold takeBack; split <;> rfl

@[simp]
theorem takeBack_frames : (t.takeBack lease).frames = t.frames := by
  unfold takeBack; split <;> rfl

/-- Taking a block back leaves the fibers and the code of a thread as they are. -/
theorem takeBack_alike : (t.takeBack lease).Alike t := by
  constructor <;> simp

end Thread

/-! ## 2. Ids -/

namespace Thread

theorem ids_update (t : Thread) (id : FiberId) (c : Fiber → Fiber) (keeps : ∀ f, (c f).id = f.id) :
    (t.update id c).ids = t.ids := by
  simp only [ids, update, List.map_map]
  apply List.map_congr_left
  intro f _
  by_cases h : f.id = id <;> simp [h, keeps]

theorem crossed_id {task main : FiberId} {c d : Fiber → Fiber} (hc : ∀ x, (c x).id = x.id)
    (hd : ∀ x, (d x).id = x.id) (x : Fiber) : (Sound.crossed task main c d x).id = x.id := by
  simp only [Sound.crossed]
  split
  · exact hc x
  · split
    · exact hd x
    · rfl

theorem ids_crossed {t t' : Thread} {task main : FiberId} {c d : Fiber → Fiber}
    (fibers : t'.fibers = t.fibers.map (Sound.crossed task main c d))
    (hc : ∀ x, (c x).id = x.id) (hd : ∀ x, (d x).id = x.id) : t'.ids = t.ids := by
  rw [ids, fibers, List.map_map]
  exact List.map_congr_left fun x _ => crossed_id hc hd x

/-- What a switch makes of a fiber. -/
theorem fiber?_crossed {t t' : Thread} {task main : FiberId} {c d : Fiber → Fiber}
    (fibers : t'.fibers = t.fibers.map (Sound.crossed task main c d))
    (hc : ∀ x, (c x).id = x.id) (hd : ∀ x, (d x).id = x.id) (id : FiberId) :
    t'.fiber? id = (t.fiber? id).map (Sound.crossed task main c d) := by
  have same : (fun f : Fiber => f.id == id) ∘ Sound.crossed task main c d =
      fun f => f.id == id := by
    funext f
    simp only [Function.comp, crossed_id hc hd]
  rw [fiber?, fiber?, fibers, List.find?_map, same]

theorem ids_erase {t : Thread} {id : FiberId} {f : Fiber} (distinct : t.Distinct)
    (found : t.fiber? id = some f) : t.ids.Perm (id :: (t.erase id).ids) := by
  have := (fibers_perm distinct found).map Fiber.id
  rwa [List.map_cons, id_of_fiber? found] at this

end Thread

/-- What a sound stage comes to by some acts. -/
structure Stage.Follows (others : List FiberId) (a : Stage) (acts : List Act) (b : Stage) :
    Prop where
  sound : b.Sound others
  bears : a.world.process.Bears b.world.process acts
  leaves : Leaves a.world.thread.ids acts b.world.thread.ids

theorem Stage.Follows.trans {others : List FiberId} {a b c : Stage} {acts more : List Act}
    (first : a.Follows others acts b) (second : b.Follows others more c) :
    a.Follows others (acts ++ more) c :=
  ⟨second.sound, first.bears.append second.bears, first.leaves.append second.leaves⟩

theorem Thread.Sound.alike {t u : Thread} {r : Option FiberId} {s : FiberState}
    {held : List FiberId} (h : u.Sound r s held) (alike : t.Alike u) : t.Sound r s held :=
  h.congr alike.fibers alike.slots alike.main alike.current
    (by rw [Thread.task?, Thread.task?, alike.frames])

theorem Thread.Alike.ids {t u : Thread} (alike : t.Alike u) : t.ids = u.ids :=
  congrArg (List.map Fiber.id) alike.fibers

namespace Stage.Sound

variable {others : List FiberId} {a b : Stage} {acts : List Act}

/-- The ids of a thread are all below the next one. -/
theorem fresh (h : a.Sound others) :
    ∀ g ∈ a.world.thread.fibers, g.id ≠ a.world.process.nextId := by
  intro g mem same
  have below := (h.numbered g.id (List.mem_append_left _ (List.mem_map_of_mem mem))).2
  exact Nat.ne_of_lt below same

/-- A move that neither creates a fiber nor takes one out. -/
theorem keep (h : a.Sound others) (quiet : Quiet acts)
    (thread : b.world.thread.Sound b.runner b.state b.held)
    (ids : b.world.thread.ids = a.world.thread.ids)
    (nextId : b.world.process.nextId = a.world.process.nextId)
    (live : b.world.process.live = a.world.process.live)
    (halted : b.world.process.halted = a.world.process.halted) : a.Follows others acts b where
  sound := {
    thread := thread
    distinct := by rw [ids]; exact h.distinct
    numbered := by rw [ids, nextId]; exact h.numbered
    live := by rw [ids, live]; exact h.live
    first := by rw [nextId]; exact h.first
    going := halted.trans h.going }
  bears := .none nextId (quiet.1)
  leaves := .of_quiet quiet ids

/-- A move that changes the thread alone. -/
theorem onThread (h : a.Sound others) {c : Thread → Thread} {r : Option FiberId} {s : FiberState}
    {held : List FiberId} (quiet : Quiet acts)
    (thread : (c a.world.thread).Sound r s held)
    (ids : (c a.world.thread).ids = a.world.thread.ids) :
    a.Follows others acts ⟨a.world.onThread c, r, s, held⟩ :=
  h.keep quiet thread ids rfl rfl rfl

/-- A move that creates a fiber under the next id. -/
theorem bear (h : a.Sound others) (born : births acts = [a.world.process.nextId])
    (none : deaths acts = []) (thread : b.world.thread.Sound b.runner b.state b.held)
    (ids : b.world.thread.ids = a.world.thread.ids ++ [a.world.process.nextId])
    (nextId : b.world.process.nextId = a.world.process.nextId + 1)
    (live : b.world.process.live = a.world.process.live + 1)
    (halted : b.world.process.halted = a.world.process.halted) : a.Follows others acts b where
  sound := {
    thread := thread
    distinct := by
      have perm : (a.world.thread.ids ++ [a.world.process.nextId] ++ others).Perm
          (a.world.process.nextId :: (a.world.thread.ids ++ others)) := by
        rw [List.append_assoc, List.singleton_append]
        exact List.perm_middle
      rw [ids, perm.nodup_iff, List.nodup_cons]
      exact ⟨fun mem => Nat.lt_irrefl _ (h.numbered _ mem).2, h.distinct⟩
    numbered := fun id mem => by
      rw [ids] at mem
      rw [nextId]
      simp only [List.append_assoc, List.mem_append, List.mem_singleton] at mem
      rcases mem with mem | rfl | mem
      · obtain ⟨first, below⟩ := h.numbered id (List.mem_append_left _ mem)
        exact ⟨first, Nat.lt_succ_of_lt below⟩
      · exact ⟨h.first, Nat.lt_succ_self _⟩
      · obtain ⟨first, below⟩ := h.numbered id (List.mem_append_right _ mem)
        exact ⟨first, Nat.lt_succ_of_lt below⟩
    live := by
      have := h.live
      rw [ids, live]
      simp only [List.length_append, List.length_singleton] at this ⊢
      omega
    first := by
      rw [nextId]
      exact Nat.succ_pos _
    going := halted.trans h.going }
  bears := .one nextId born
  leaves := by
    rw [Leaves, ids, born, none]
    exact List.Perm.refl _

/-- A move that takes a fiber out. -/
theorem lose (h : a.Sound others) {id : FiberId} (none : births acts = [])
    (dead : deaths acts = [id]) (thread : b.world.thread.Sound b.runner b.state b.held)
    (ids : a.world.thread.ids.Perm (id :: b.world.thread.ids))
    (nextId : b.world.process.nextId = a.world.process.nextId)
    (live : b.world.process.live = a.world.process.live - 1)
    (halted : b.world.process.halted = a.world.process.halted) : a.Follows others acts b where
  sound := by
    have perm : (a.world.thread.ids ++ others).Perm (id :: (b.world.thread.ids ++ others)) :=
      ids.append_right others
    refine ⟨thread, ?_, ?_, ?_, ?_, halted.trans h.going⟩
    · exact (List.nodup_cons.mp (perm.nodup_iff.mp h.distinct)).2
    · intro x mem
      rw [nextId]
      exact h.numbered x (perm.mem_iff.mpr (List.mem_cons_of_mem _ mem))
    · have count := perm.length_eq
      have := h.live
      rw [live]
      simp only [List.length_cons] at count
      omega
    · rw [nextId]
      exact h.first
  bears := .none nextId none
  leaves := by
    rw [Leaves, none, dead, List.append_nil]
    exact ids

/-- A thread without a main fiber has no current fiber. -/
theorem current_of_missing {w : World} {s : FiberState} {held : List FiberId}
    (h : Stage.Sound others ⟨w, none, s, held⟩) (missing : w.thread.main = none) :
    w.thread.current = none := by
  rw [h.thread.current, missing]
  rfl

end Stage.Sound

/-! ## 3. Switches -/

namespace World

/-- The thread from which the main fiber has gone. -/
theorem depart_thread {w : World} {task main : FiberId} (p : Pending)
    (isMain : w.thread.main = some main) (ne : task ≠ main) :
    (w.depart task p).thread =
      { w.thread with
        fibers := w.thread.fibers.map
          (Thread.Sound.crossed task main (fun f => { f with state := .exec, context := none })
            (Thread.Sound.parkedIn p w.thread.frames))
        current := some task
        frames := [] } := by
  simp only [depart, onThread, setCurrent, Thread.push, Thread.setMainState, isMain, parkMain,
    Thread.setState, Thread.setContext, Thread.update, Thread.goOn, List.map_map]
  congr 1
  apply List.map_congr_left
  intro f _
  by_cases ht : f.id = task
  · have hm : f.id ≠ main := fun h => ne (ht.symm.trans h)
    simp [Thread.Sound.crossed, ht, ne]
  · by_cases hm : f.id = main
    · simp [Thread.Sound.crossed, Thread.Sound.parkedIn, hm, ne.symm]
    · simp [Thread.Sound.crossed, ht, hm]

theorem depart_process {w : World} {main : FiberId} (isMain : w.thread.main = some main)
    (task : FiberId) (p : Pending) : (w.depart task p).process = w.process := by
  simp only [depart, onThread, setCurrent, Thread.push, Thread.setMainState, isMain, parkMain,
    Thread.setState, Thread.setContext, Thread.update]

/-- The thread in which a task has entered its callback. -/
theorem begin_thread {w : World} {task main : FiberId} (p : Pending) (cb : Callback)
    (isMain : w.thread.main = some main) (ne : task ≠ main) :
    ((w.depart task p).begin task cb).thread =
      { w.thread with
        fibers := w.thread.fibers.map
          (Thread.Sound.crossed task main
            (fun f =>
              { f with state := .exec, context := none, handles := f.handles + 1, pending := none })
            (Thread.Sound.parkedIn p w.thread.frames))
        current := some task
        frames := [.ops cb.body, .task task cb.tag cb.keep] } := by
  simp only [begin, hold, onThread, depart_thread p isMain ne, Thread.hold, Thread.update,
    Thread.goOn, List.map_map]
  congr 1
  apply List.map_congr_left
  intro f _
  by_cases ht : f.id = task
  · simp [Thread.Sound.crossed, ht]
  · by_cases hm : f.id = main
    · simp [Thread.Sound.crossed, Thread.Sound.parkedIn, hm, ne.symm]
    · simp [Thread.Sound.crossed, ht, hm]

/-- The thread to whose main fiber control has passed back. -/
theorem comeBack_thread {w : World} {task main : FiberId} (context : Context) (k : List Frame)
    (isMain : w.thread.main = some main) (ne : task ≠ main) :
    (w.comeBack task main context k).thread =
      { w.thread with
        fibers := w.thread.fibers.map
          (Thread.Sound.crossed task main (fun f => { f with context := some context })
            Thread.Sound.atHome)
        current := some main
        frames := k } := by
  simp only [comeBack, onThread, Thread.setMainState, isMain, Thread.setState, Thread.setContext,
    Thread.update, Thread.goOn, List.map_map]
  congr 1
  apply List.map_congr_left
  intro f _
  by_cases ht : f.id = task
  · simp [Thread.Sound.crossed, ht, ne]
  · by_cases hm : f.id = main
    · simp [Thread.Sound.crossed, Thread.Sound.atHome, hm, ne.symm]
    · simp [Thread.Sound.crossed, ht, hm]

/-- The thread in which the task that ran has suspended itself. -/
theorem yield_thread {w : World} {task main : FiberId} (p : Pending) (next : Parking)
    (k : List Frame) (isMain : w.thread.main = some main) (ne : task ≠ main) :
    ((w.onThread fun t => t.setState task next.state).comeBack task main
        (.suspended (.waiting p :: w.thread.frames)) k).thread =
      { w.thread with
        fibers := w.thread.fibers.map
          (Thread.Sound.crossed task main
            (fun f =>
              { f with
                state := next.state
                context := some (.suspended (.waiting p :: w.thread.frames)) })
            Thread.Sound.atHome)
        current := some main
        frames := k } := by
  rw [comeBack_thread _ _ (by exact isMain) ne]
  simp only [onThread, Thread.setState, Thread.update, List.map_map]
  congr 1
  apply List.map_congr_left
  intro x _
  by_cases hx : x.id = task <;> simp [Thread.Sound.crossed, hx]

/-- The parked code of the main fiber is in its context. -/
theorem mainFrames_eq_ok {w : World} {main : FiberId} {k : List Frame}
    (isMain : w.thread.main = some main) (h : w.mainFrames = .ok k) :
    ∃ g, w.thread.fiber? main = some g ∧ g.context = some (.suspended k) := by
  simp only [mainFrames, isMain] at h
  split at h
  · rename_i frames found
    obtain ⟨g, found, context⟩ := Option.bind_eq_some_iff.mp found
    obtain rfl : frames = k := Except.ok.inj h
    exact ⟨g, found, context⟩
  · cases h

end World

/-! ## 4. Moves that create a fiber -/

/-- Handing out a block leaves the fibers and the code of a thread as they are. -/
theorem World.handOut_alike (w : World) (a : Allocator) (n : Nat) :
    (w.handOut a n).1.thread.Alike w.thread :=
  ⟨rfl, rfl, rfl, rfl, rfl⟩

/-- The thread that has just got its main fiber. -/
theorem World.bearMain_thread {w : World} (current : w.thread.current = none)
    (missing : w.thread.main = none) : w.currentFiber.1.thread =
      { w.thread.insert (Fiber.main w.process.nextId) with
        main := some w.process.nextId, current := some w.process.nextId } := by
  have same := (w.count.1).log_same (.mainCreated w.process.nextId)
  simp only [currentFiber, current, missing, onThread]
  rw [show w.count.2 = w.process.nextId from rfl, same.thread]
  rfl

theorem World.bearMain_process {w : World} (current : w.thread.current = none)
    (missing : w.thread.main = none) : w.currentFiber.1.process =
      ((w.count.1).log (.mainCreated w.process.nextId)).process := by
  simp only [currentFiber, current, missing, onThread]
  rfl

theorem World.insertTask_thread (w : World) (a : Allocator) (b : Block) (size : Nat)
    (cb : Callback) : (w.insertTask a b size cb).1.thread =
      w.thread.insert (Fiber.task w.process.nextId ⟨b, a⟩ cb) := by
  have same := (w.count.1).log_same (.fiberCreated w.process.nextId size)
  change ((w.count.1).log (.fiberCreated w.process.nextId size)).thread.insert _ = _
  rw [same.thread]
  rfl

namespace Stage.Sound

variable {others : List FiberId} {w : World} {held : List FiberId}

/-- A thread gets its main fiber. -/
theorem bearMain (h : Stage.Sound others ⟨w, none, .exec, held⟩) (missing : w.thread.main = none) :
    Stage.Follows others ⟨w, none, .exec, held⟩ [.created w.process.nextId]
      ⟨w.currentFiber.1, none, .exec, held⟩ := by
  have current := h.current_of_missing missing
  have same := (w.count.1).log_same (.mainCreated w.process.nextId)
  have thread := World.bearMain_thread current missing
  have process := World.bearMain_process current missing
  refine h.bear rfl rfl ?_ ?_ ?_ ?_ ?_
  · rw [thread]
    exact h.thread.insertMain missing h.fresh
  · rw [thread]
    simp [Thread.ids, Thread.insert, Fiber.main]
  · rw [process, same.nextId]
    rfl
  · rw [process, same.live]
    rfl
  · rw [process, same.halted]
    rfl

/-- A task is created with a callback, which takes the handles that it captures. -/
theorem bearTask {r : Option FiberId} (a : Allocator) (n size : Nat) (cb : Callback)
    (h : Stage.Sound others ⟨w, r, .exec, cb.keep ++ held⟩) :
    Stage.Follows others ⟨w, r, .exec, cb.keep ++ held⟩
      [.created w.process.nextId, .equipped w.process.nextId ⟨(w.handOut a n).2, a⟩ cb]
      ⟨((w.handOut a n).1.insertTask a (w.handOut a n).2 size cb).1, r, .exec,
        w.process.nextId :: held⟩ := by
  have thread := World.insertTask_thread (w.handOut a n).1 a (w.handOut a n).2 size cb
  have alike := w.handOut_alike a n
  have same := ((w.handOut a n).1.count.1).log_same (.fiberCreated w.process.nextId size)
  refine h.bear rfl rfl ?_ ?_ same.nextId same.live same.halted
  · rw [thread]
    exact (h.thread.alike alike).insertTask h.fresh
  · rw [thread]
    simp [Thread.ids, Thread.insert, Fiber.task, World.handOut, World.onThread]

/-! ## 5. Moves that take fibers out -/

variable {r : Option FiberId} {id : FiberId} {f : Fiber}

/-- A fiber dies with its last handle. -/
theorem destroy {s : FiberState} (h : Stage.Sound others ⟨w, r, s, id :: held⟩)
    (found : w.thread.fiber? id = some f) (last : f.handles ≤ 1) :
    Stage.Follows others ⟨w, r, s, id :: held⟩ (f.ending w.thread.current)
      ⟨(w.destroy f).1, r, s, (w.destroy f).2 ++ held⟩ := by
  obtain ⟨can, lease, onStack⟩ := h.thread.leased_last found last
  obtain rfl : f.id = id := Thread.id_of_fiber? found
  have same := World.destroy_same (w := w) onStack can
  have freed : (w.destroy f).2 = f.pending.elim [] Callback.keep := by
    rw [World.destroy_eq onStack can]
  have alike := (w.thread.erase f.id).takeBack_alike lease
  refine h.lose (ending_births f _) (ending_deaths f _) ?_ ?_ same.nextId same.live same.halted
  · rw [same.thread, freed]
    exact (h.thread.bury found last).alike alike
  · rw [same.thread]
    change w.thread.ids.Perm (f.id :: ((w.thread.erase f.id).takeBack lease).ids)
    rw [alike.ids]
    exact Thread.ids_erase h.thread.distinct found

/-- Handles are released, with all that follows from it. -/
theorem release {s : FiberState} (ids : List FiberId)
    (h : Stage.Sound others ⟨w, r, s, ids ++ held⟩) :
    Stage.Follows others ⟨w, r, s, ids ++ held⟩ (w.fallout ids)
      ⟨w.release ids, r, s, held⟩ := by
  refine World.release_rounds (P := fun v rest acts =>
    Stage.Follows others ⟨w, r, s, ids ++ held⟩ acts ⟨v, r, s, rest ++ held⟩)
    w ids [] ?_ ?_ ?_ ?_
  · exact h.keep ⟨rfl, rfl⟩ h.thread rfl rfl rfl rfl
  · intro v id rest acts before none
    obtain ⟨f, found⟩ := before.sound.thread.exists_of_held (by simp : id ∈ id :: rest ++ held)
    exact absurd found (by simp [none])
  · intro v id rest acts f before found last
    rw [List.append_assoc]
    exact before.trans (before.sound.destroy found last)
  · intro v id rest acts f before found more
    have quiet : Quiet [] := ⟨rfl, rfl⟩
    have less := before.sound.onThread
      (c := fun t => t.update id fun f => { f with handles := f.handles - 1 }) quiet
      (before.sound.thread.giveUp found more) (Thread.ids_update _ _ _ fun _ => rfl)
    simpa using before.trans less

/-- A callback is destroyed, or a block is given back: fibers and handles stay. -/
theorem dropTag (tag : Option String) {acts : List Act} (quiet : Quiet acts)
    {s : FiberState} (h : Stage.Sound others ⟨w, r, s, held⟩) :
    Stage.Follows others ⟨w, r, s, held⟩ acts ⟨w.dropTag tag, r, s, held⟩ := by
  have same := w.dropTag_same tag
  refine h.keep quiet ?_ (by rw [same.thread]) same.nextId same.live same.halted
  rw [same.thread]
  exact h.thread

theorem freeBlock {b : Block} (name : String) (a : Allocator)
    (h : Stage.Sound others ⟨w, r, .exec, held⟩) :
    Stage.Follows others ⟨w, r, .exec, held⟩ [.freed ⟨b, a⟩]
      ⟨(w.onThread fun t => t.clearBlock name).deallocate a b, r, .exec, held⟩ := by
  have same := (w.onThread fun t => t.clearBlock name).deallocate_same ⟨b, a⟩
  have alike : ((w.thread.clearBlock name).takeBack ⟨b, a⟩).Alike w.thread := by
    constructor <;> simp [Thread.clearBlock]
  refine h.keep ⟨rfl, rfl⟩ ?_ ?_ same.nextId same.live same.halted
  · rw [same.thread]
    exact h.thread.alike alike
  · rw [same.thread]
    exact alike.ids

/-- A fiber is bound to a callback, and one that it never entered is destroyed. -/
theorem install {cb : Callback} (h : Stage.Sound others ⟨w, r, .exec, cb.keep ++ held⟩)
    (found : w.thread.fiber? id = some f) (can : f.state.canReset) :
    Stage.Follows others ⟨w, r, .exec, cb.keep ++ held⟩ [.reset id cb f.pending]
      ⟨(w.onThread fun t => t.update id (Fiber.bound cb)).dropTag (f.pending.bind Callback.tag), r,
        .exec, f.pending.elim [] Callback.keep ++ held⟩ := by
  have quiet : Quiet [.reset id cb f.pending] := ⟨rfl, rfl⟩
  have bound := h.onThread (c := fun t => t.update id (Fiber.bound cb)) quiet
    (h.thread.install found can) (Thread.ids_update _ _ _ fun _ => rfl)
  simpa using bound.trans (bound.sound.dropTag (f.pending.bind Callback.tag) ⟨rfl, rfl⟩)

/-- The callback of the task that runs ends. -/
theorem conclude {tag : Option String} {keep : List FiberId} (last : FiberState)
    (h : Stage.Sound others ⟨w, some id, .exec, keep ++ [id]⟩) :
    Stage.Follows others ⟨w, some id, .exec, keep ++ [id]⟩
      (.shed id tag keep :: (w.dropTag tag).fallout keep ++ [.ended id last])
      ⟨(w.dropCallback tag keep).onThread fun t => t.setState id last, some id, last, [id]⟩ := by
  have quiet : Quiet [.shed id tag keep] := ⟨rfl, rfl⟩
  have dropped := h.dropTag tag quiet
  have released := dropped.trans (dropped.sound.release keep)
  exact released.trans (released.sound.onThread ⟨rfl, rfl⟩ (released.sound.thread.conclude last)
    (Thread.ids_update _ _ _ fun _ => rfl))

/-! ## 6. Moves that switch -/

variable {main : FiberId} {p : Pending} {k : List Frame} {last : FiberState}

/-- The task that runs is not the main fiber. -/
theorem ne_of_main (h : Stage.Sound others ⟨w, some id, last, held⟩)
    (isMain : w.thread.main = some main) : id ≠ main := by
  obtain ⟨-, other⟩ := h.thread.apart id rfl
  rw [isMain] at other
  exact fun same => other (same ▸ rfl)

/-- A task is resumed for the first time. -/
theorem enter {cb : Callback} (h : Stage.Sound others ⟨w, none, .exec, [id]⟩)
    (isMain : w.thread.main = some main) (found : w.thread.fiber? id = some f) (ne : id ≠ main)
    (body : Body none w.thread.frames) (awaits : p.Awaits id) (context : f.context = some .fresh)
    (callback : f.pending = some cb) :
    Stage.Follows others ⟨w, none, .exec, [id]⟩ [.resumed id f.state]
      ⟨(w.depart id p).begin id cb, some id, .exec, id :: cb.keep⟩ := by
  have thread := World.begin_thread p cb isMain ne
  have process : ((w.depart id p).begin id cb).process = w.process :=
    World.depart_process isMain id p
  have rests := h.thread.rests found (by rw [isMain]; simpa using ne.symm) (by simp)
  refine h.keep ⟨rfl, rfl⟩ ?_ (Thread.ids_crossed (congrArg Thread.fibers thread) (fun _ => rfl)
    fun _ => rfl) (by rw [process]) (by rw [process]) (by rw [process])
  rw [thread]
  refine h.thread.handOver
    (fun f =>
      { f with state := .exec, context := none, handles := f.handles + 1, pending := none })
    isMain found ne body awaits (fun _ => rfl) (Nat.succ_pos _) ⟨rests.lease, rfl, rfl, rfl⟩
    rfl rfl rfl rfl rfl ?_
  intro x
  simp only [Fiber.owns, context, callback, Option.elim_some, Context.handles, List.nil_append,
    List.count_cons, beq_iff_eq]
  split <;> omega

/-- A suspended task is resumed. -/
theorem resume (h : Stage.Sound others ⟨w, none, .exec, [id]⟩)
    (isMain : w.thread.main = some main) (found : w.thread.fiber? id = some f) (ne : id ≠ main)
    (body : Body none w.thread.frames) (awaits : p.Awaits id)
    (context : f.context = some (.suspended k)) :
    Stage.Follows others ⟨w, none, .exec, [id]⟩ [.resumed id f.state]
      ⟨(w.depart id p).goOn k, some id, .exec, Frame.allHandles k⟩ := by
  have thread := World.depart_thread p isMain ne
  have process := World.depart_process isMain id p
  have rests := h.thread.rests found (by rw [isMain]; simpa using ne.symm) (by simp)
  have same := Thread.id_of_fiber? found
  refine h.keep ⟨rfl, rfl⟩ ?_ ?_ (by simp [World.goOn, World.onThread, process])
    (by simp [World.goOn, World.onThread, process])
    (by simp [World.goOn, World.onThread, process])
  · simp only [World.goOn, World.onThread, thread]
    cases rests with
    | waiting onStack state context' callback => simp [context] at context'
    | finished onStack state context' callback => simp [context] at context'
    | @suspended lease q k' onStack state context' callback body' pauses =>
      obtain rfl : k = .waiting q :: k' :=
        Context.suspended.inj (Option.some.inj (context.symm.trans context'))
      refine h.thread.handOver (fun f => { f with state := .exec, context := none })
        isMain found ne body awaits (fun _ => rfl) (h.thread.alive f (Thread.mem_of_fiber? found))
        ⟨by simp [onStack], rfl, rfl, callback⟩ rfl rfl rfl rfl ?_ ?_
      · rw [← same]
        exact body'.owner_cons _
      · intro x
        simp only [Fiber.owns, context, callback, Option.elim_some, Option.elim_none,
          Context.handles, List.append_nil]
  · simp only [World.goOn, World.onThread, thread]
    exact Thread.ids_crossed rfl (fun _ => rfl) fun _ => rfl

/-- The task that runs suspends itself. -/
theorem yield (next : Parking)
    (h : Stage.Sound others
      ⟨w, some id, .exec, p.handles ++ Frame.allHandles w.thread.frames⟩)
    (isMain : w.thread.main = some main) (parked : w.mainFrames = .ok k)
    (body : Body (some id) w.thread.frames) (pauses : p.Pauses id) :
    Stage.Follows others ⟨w, some id, .exec, p.handles ++ Frame.allHandles w.thread.frames⟩
      [.yielded id next.state]
      ⟨(w.onThread fun t => t.setState id next.state).comeBack id main
          (.suspended (.waiting p :: w.thread.frames)) k,
        none, .exec, Frame.allHandles k⟩ := by
  obtain ⟨f, found, same, runs⟩ := h.thread.runner_runs
  obtain ⟨g, foundMain, context⟩ := World.mainFrames_eq_ok isMain parked
  have ne := h.ne_of_main isMain
  obtain ⟨lease, onStack⟩ := Option.ne_none_iff_exists'.mp runs.onStack
  have thread := World.yield_thread p next k isMain ne
  refine h.keep ⟨rfl, rfl⟩ ?_ (Thread.ids_crossed (congrArg Thread.fibers thread) (fun _ => rfl)
    fun _ => rfl) rfl rfl rfl
  rw [thread]
  refine h.thread.handBack
    (fun f =>
      { f with
        state := next.state
        context := some (.suspended (.waiting p :: w.thread.frames)) })
    isMain found foundMain context (fun _ => rfl) rfl ?_ ?_ rfl rfl rfl rfl rfl
  · refine .suspended onStack ?_ rfl runs.callback (same ▸ body) (same ▸ pauses)
    cases next <;> simp [Parking.state]
  · intro x
    simp [Fiber.owns, runs.callback, Context.handles, Frame.handles]

/-- The task whose callback has ended gives way for good. -/
theorem leave (h : Stage.Sound others ⟨w, some id, last, []⟩) (isMain : w.thread.main = some main)
    (parked : w.mainFrames = .ok k) (terminal : last.terminal) :
    Stage.Follows others ⟨w, some id, last, []⟩ []
      ⟨w.comeBack id main .spent k, none, .exec, Frame.allHandles k⟩ := by
  obtain ⟨f, found, same, runs⟩ := h.thread.runner_runs
  obtain ⟨g, foundMain, context⟩ := World.mainFrames_eq_ok isMain parked
  have ne := h.ne_of_main isMain
  obtain ⟨lease, onStack⟩ := Option.ne_none_iff_exists'.mp runs.onStack
  have thread := World.comeBack_thread .spent k isMain ne
  refine h.keep ⟨rfl, rfl⟩ ?_ (Thread.ids_crossed (congrArg Thread.fibers thread) (fun _ => rfl)
    fun _ => rfl) rfl rfl rfl
  rw [thread]
  refine h.thread.handBack (fun f => { f with context := some .spent }) isMain found foundMain
    context (fun _ => rfl) rfl ?_ ?_ rfl rfl rfl rfl rfl
  · exact .finished onStack (by rw [runs.state]; exact terminal) rfl runs.callback
  · intro x
    simp [Fiber.owns, runs.callback, Context.handles]

end Stage.Sound

/-! ## 7. Every move -/

section

variable {texts : String → Prop} {others : List FiberId} {a b : Stage} {acts : List Act}

/-- Every move keeps a stage sound and the account of who is alive. -/
theorem Move.follows (m : Move texts a acts b) (h : a.Sound others) : a.Follows others acts b := by
  cases m with
  | regroup perm => exact h.keep ⟨rfl, rfl⟩ (h.thread.regroup perm) rfl rfl rfl rfl
  | @write w r s held e plain keeps fits =>
    have same := w.emit_same e
    refine h.keep ⟨rfl, rfl⟩ ?_ (by rw [same.thread]) same.nextId same.live same.halted
    rw [same.thread]
    exact h.thread
  | complain text ok fits => exact h.keep ⟨rfl, rfl⟩ h.thread rfl rfl rfl rfl
  | tune p alike => exact h.keep ⟨rfl, rfl⟩ h.thread rfl alike.nextId alike.live alike.halted
  | equip t alike blocks => exact h.keep ⟨rfl, rfl⟩ (h.thread.alike alike) alike.ids rfl rfl rfl
  | goOn k same =>
    refine h.onThread ⟨rfl, rfl⟩ (h.thread.goOn ?_) rfl
    rw [same]
    exact h.thread.task
  | bearMain missing => exact h.bearMain missing
  | bearTask a n size cb => exact h.bearTask a n size cb
  | hold found =>
    exact h.onThread ⟨rfl, rfl⟩ (h.thread.hold found) (Thread.ids_update _ _ _ fun _ => rfl)
  | giveUp found more =>
    exact h.onThread ⟨rfl, rfl⟩ (h.thread.giveUp found more) (Thread.ids_update _ _ _ fun _ => rfl)
  | release ids => exact h.release ids
  | setSlot name => exact h.onThread ⟨rfl, rfl⟩ (h.thread.setSlot name) rfl
  | clearSlot name => exact h.onThread ⟨rfl, rfl⟩ (h.thread.clearSlot name) rfl
  | clearSlots => exact h.onThread ⟨rfl, rfl⟩ h.thread.clearSlots rfl
  | allocBlock name a n =>
    exact h.keep ⟨rfl, rfl⟩ (h.thread.congr rfl rfl rfl rfl rfl) rfl rfl rfl rfl
  | saveBlock name found block => exact h.onThread ⟨rfl, rfl⟩ (h.thread.congr rfl rfl rfl rfl rfl) rfl
  | freeBlock name a kept => exact h.freeBlock name a
  | refuse cb => exact h.dropTag cb.tag ⟨rfl, rfl⟩
  | install cb found can => exact h.install found can
  | enter isMain found ne body awaits context callback =>
    exact h.enter isMain found ne body awaits context callback
  | resume isMain found ne body awaits context =>
    exact h.resume isMain found ne body awaits context
  | yield next isMain parked body pauses parks => exact h.yield next isMain parked body pauses
  | conclude last terminal base => exact h.conclude last
  | leave isMain parked terminal => exact h.leave isMain parked terminal

theorem Path.follows (path : Path texts a acts b) (h : a.Sound others) :
    a.Follows others acts b := by
  induction path with
  | nil => exact h.keep ⟨rfl, rfl⟩ h.thread rfl rfl rfl rfl
  | snoc path move ih =>
    exact ih.trans (move.follows ih.sound)

theorem Path.sound (path : Path texts a acts b) (h : a.Sound others) : b.Sound others :=
  (path.follows h).sound

theorem Leads.sound (leads : Leads texts a b) (h : a.Sound others) : b.Sound others := by
  obtain ⟨_, path⟩ := leads
  exact path.sound h

end

end FiberEngine
