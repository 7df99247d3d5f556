/-
FiberEngine.Proofs.Accounts — who is alive, and who is held.

A fiber is alive as long as there is a handle to it. Handles are in the slots of
threads that have not ended, in their operations that wait, in callbacks that
have not ended, and each such thread has one to its main fiber. The fibers that
ended threads have left behind have handles to each other.

Each part of a machine keeps its own account of its fibers and handles. Here the
accounts are put together. The main statement is `alive_iff_held`.
-/
import FiberEngine.Proofs.Stories

namespace FiberEngine

/-! ## 1. Fibers under different ids -/

section

variable {fs : List Fiber} {f : Fiber}

/-- Among fibers of different ids, each has the handles that it counts. -/
theorem handlesTo_of_mem (distinct : (fs.map Fiber.id).Nodup) (mem : f ∈ fs) :
    handlesTo fs f.id = f.handles := by
  induction fs with
  | nil => cases mem
  | cons g rest ih =>
    obtain ⟨fresh, distinct⟩ := List.nodup_cons.mp distinct
    rw [handlesTo_cons]
    rcases List.mem_cons.mp mem with rfl | mem
    · have none : handlesTo rest f.id = 0 :=
        handlesTo_eq_zero fun g mem same => fresh (List.mem_map.mpr ⟨g, mem, same⟩)
      rw [if_pos rfl, none, Nat.add_zero]
    · have other : g.id ≠ f.id := fun same => fresh (List.mem_map.mpr ⟨f, mem, same.symm⟩)
      rw [if_neg other, ih distinct mem, Nat.zero_add]

end

/-! ## 2. All fibers and all handles -/

/-- All handles of a thread. -/
def Thread.handles (t : Thread) : List FiberId :=
  t.kept ++ Frame.allHandles t.frames

/-- The account of some threads balances if that of each does. -/
theorem handlesTo_threads {ts : List Thread}
    (each : ∀ t ∈ ts, ∀ id, handlesTo t.fibers id = t.handles.count id) (id : FiberId) :
    handlesTo (ts.flatMap Thread.fibers) id = (ts.flatMap Thread.handles).count id := by
  induction ts with
  | nil => rfl
  | cons t rest ih =>
    have ih := ih fun u mem => each u (List.mem_cons_of_mem _ mem)
    rw [List.flatMap_cons, List.flatMap_cons, handlesTo_append, List.count_append,
      each t List.mem_cons_self, ih]

namespace Machine

/-- All fibers that are alive. -/
def fibers (m : Machine) : List Fiber :=
  m.world.thread.fibers ++ m.spawners.flatMap Thread.fibers ++ m.world.process.leaked

/-- All handles to fibers. -/
def handles (m : Machine) : List FiberId :=
  m.world.thread.handles ++ m.spawners.flatMap Thread.handles ++
    m.world.process.leaked.flatMap Fiber.owns

/-- Fibers and handles are accounted for. -/
structure Balanced (m : Machine) : Prop where
  /-- A fiber is alive just if there is a handle to it. -/
  alive : ∀ id, (∃ f ∈ m.fibers, f.id = id) ↔ id ∈ m.handles
  /-- Every fiber counts its handles. -/
  counted : ∀ f ∈ m.fibers, f.handles = m.handles.count f.id
  /-- The process counts its fibers, and tells so when it is asked for the total. -/
  total : m.world.process.live = m.fibers.length
  distinct : (m.fibers.map Fiber.id).Nodup
  numbered : ∀ f ∈ m.fibers, 0 < f.id ∧ f.id < m.world.process.nextId

variable {m : Machine}

theorem fibers_ids (m : Machine) : m.fibers.map Fiber.id = m.ids := by
  have spawned : (m.spawners.flatMap Thread.fibers).map Fiber.id =
      m.spawners.flatMap Thread.ids := by
    rw [List.map_flatMap]
    rfl
  rw [fibers, List.map_append, List.map_append, spawned, ids, others, List.append_assoc]
  rfl

/-- In a sound machine, fibers count the handles that there are. -/
theorem Sound.census (sound : m.Sound) (id : FiberId) :
    handlesTo m.fibers id = m.handles.count id := by
  obtain ⟨r, here, -⟩ := sound.running
  have running : handlesTo m.world.thread.fibers id = m.world.thread.handles.count id :=
    here.thread.census id
  have waiting : handlesTo (m.spawners.flatMap Thread.fibers) id =
      (m.spawners.flatMap Thread.handles).count id := by
    refine handlesTo_threads ?_ id
    intro t mem id
    obtain ⟨r, kind, k, frames, body, thread⟩ := sound.waiting t mem
    exact thread.census id
  rw [fibers, handles, handlesTo_append, handlesTo_append, List.count_append, List.count_append,
    running, waiting, sound.forgotten.census id]

/-- In a sound machine, every fiber that is alive has a handle to it. -/
theorem Sound.alive (sound : m.Sound) {f : Fiber} (mem : f ∈ m.fibers) : 0 < f.handles := by
  obtain ⟨r, here, -⟩ := sound.running
  rcases List.mem_append.mp mem with mem | mem
  · rcases List.mem_append.mp mem with mem | mem
    · exact here.thread.alive f mem
    · obtain ⟨t, waits, mem⟩ := List.mem_flatMap.mp mem
      obtain ⟨r, kind, k, frames, body, thread⟩ := sound.waiting t waits
      exact thread.alive f mem
  · exact sound.forgotten.alive f mem

theorem Sound.balanced (sound : m.Sound) : m.Balanced := by
  obtain ⟨r, here, -⟩ := sound.running
  have distinct : (m.fibers.map Fiber.id).Nodup := by
    rw [fibers_ids]
    exact here.distinct
  have counted : ∀ f ∈ m.fibers, f.handles = m.handles.count f.id := fun f mem => by
    rw [← sound.census, handlesTo_of_mem distinct mem]
  refine ⟨fun id => ⟨?_, ?_⟩, counted, ?_, distinct, ?_⟩
  · rintro ⟨f, mem, rfl⟩
    have positive := sound.alive mem
    rw [counted f mem] at positive
    exact List.count_pos_iff.mp positive
  · intro held
    refine exists_of_handlesTo_pos ?_
    rw [sound.census]
    exact List.count_pos_iff.mpr held
  · rw [← List.length_map Fiber.id, fibers_ids]
    exact here.live
  · intro f mem
    refine here.numbered f.id ?_
    have mem : f.id ∈ m.ids := fibers_ids m ▸ List.mem_map_of_mem mem
    exact mem

/-! ## 3. Whole runs -/

variable {level : Option Level} {hook : ReportHook} {script : List Op} {n : Nat} {acts : List Act}

/-- In a story, whoever was created and not destroyed is alive. -/
theorem Story.alive_iff (story : Story (start level hook script) n acts)
    (goes : ((start level hook script).steps n).world.process.halted = false) (id : FiberId) :
    (∃ f ∈ ((start level hook script).steps n).fibers, f.id = id) ↔
      .created id ∈ acts ∧ ∀ last, .destroyed id last ∉ acts := by
  have left := story.leaves goes
  rw [Leaves, List.nil_append] at left
  have distinct : (deaths acts ++ ((start level hook script).steps n).ids).Nodup := by
    rw [← left.nodup_iff, story.births]
    exact List.nodup_range'
  obtain ⟨-, -, apart⟩ := List.nodup_append.mp distinct
  rw [← List.mem_map, fibers_ids, ← mem_births]
  constructor
  · intro mem
    refine ⟨left.mem_iff.mpr (List.mem_append_right _ mem), ?_⟩
    intro last gone
    exact apart id (mem_deaths.mpr ⟨last, gone⟩) id mem rfl
  · rintro ⟨born, lives⟩
    rcases List.mem_append.mp (left.mem_iff.mp born) with gone | mem
    · obtain ⟨last, gone⟩ := mem_deaths.mp gone
      exact absurd gone (lives last)
    · exact mem

/-- At level `debug` and finer, every creation is in the trace, in the order of ids. -/
theorem told_births (level : Option Level) (hook : ReportHook) (script : List Op) (n : Nat)
    (admits : Level.admits level .debug) :
    ((start level hook script).steps n).world.process.trace.toList.filterMap
        (fun e => e.event.birth?) =
      List.range' 1 (((start level hook script).steps n).world.process.nextId - 1) := by
  suffices h : ((start level hook script).steps n).world.process.level = level ∧
      1 ≤ ((start level hook script).steps n).world.process.nextId ∧
      ((start level hook script).steps n).world.process.trace.toList.filterMap
          (fun e => e.event.birth?) =
        List.range' 1 (((start level hook script).steps n).world.process.nextId - 1) from h.2.2
  induction n with
  | zero => exact ⟨rfl, Nat.le_refl 1, rfl⟩
  | succ n ih =>
    cases goes : ((start level hook script).steps n).done with
    | true =>
      rw [steps_succ_of_done goes]
      exact ih
    | false =>
      obtain ⟨new, adds, -⟩ := (sound_of_goes goes).step_adds goes
      rw [← steps_succ_of_goes goes] at adds
      obtain ⟨same, first, told⟩ := ih
      refine ⟨adds.level.trans same, Nat.le_trans first adds.order, ?_⟩
      rw [adds.trace, List.filterMap_append, told, adds.births (same.symm ▸ admits)]
      exact range'_append_range' first adds.order

/-- At every point of every run, the fibers that are alive are those that were
created and not destroyed, and those to which there is a handle; the process
counts them, and all fibers were created under the ids from one on, in order. -/
theorem alive_iff_held (level : Option Level) (hook : ReportHook) (script : List Op) (n : Nat) :
    let m := (start level hook script).steps n
    (m.world.process.halted = false → m.Balanced) ∧
      (∃ acts, Story (start level hook script) n acts) ∧
      (∀ acts, Story (start level hook script) n acts →
        births acts = List.range' 1 (m.world.process.nextId - 1) ∧
        (m.world.process.halted = false → ∀ id, (∃ f ∈ m.fibers, f.id = id) ↔
          .created id ∈ acts ∧ ∀ last, .destroyed id last ∉ acts)) ∧
      (Level.admits level .debug →
        m.world.process.trace.toList.filterMap (fun e => e.event.birth?) =
          List.range' 1 (m.world.process.nextId - 1)) := by
  intro m
  refine ⟨fun goes => (sound_of_lasts goes).balanced, steps_story level hook script n,
    ?_, told_births level hook script n⟩
  intro acts story
  exact ⟨story.births, fun goes => story.alive_iff goes⟩

end Machine

end FiberEngine
