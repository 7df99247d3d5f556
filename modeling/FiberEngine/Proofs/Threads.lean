/-
FiberEngine.Proofs.Threads — threads that wait and threads that end.

A thread that waits for another one stands as it did when it started it. A
thread that ends releases its slots and gives up its main fiber; what is then
still alive is kept alive by other fibers that are never run again. `Forgotten`
says that the handles of such fibers balance among themselves.

The main statements are `releaseSlots_stays` and `retire_retires`: what a thread
leaves behind when it ends.
-/
import FiberEngine.Proofs.Order

namespace FiberEngine

variable {texts : String → Prop} {others : List FiberId}

/-! ## 1. Waiting -/

/-- A thread that waits for the end of one that it has started. -/
def Thread.Waits (t : Thread) : Prop :=
  ∃ r kind k, t.frames = .waiting (.join kind none) :: k ∧ Body r k ∧
    t.Sound r .exec (Frame.allHandles t.frames)

/-- A thread that starts is sound, with no fiber and no handle. -/
theorem Thread.start_sound (setName ownName span : Option String) (script : List Op) :
    (Thread.start setName ownName span script).Sound none .exec [] where
  distinct := List.nodup_nil
  census _ := rfl
  alive := by simp [Thread.start]
  current := rfl
  apart := by simp
  fits := by simp [Thread.start]
  task := rfl
  slots := List.Pairwise.nil

/-- A world is sound if its thread is, and if all fibers are counted. -/
theorem Stage.Sound.of_thread {p : Process} {t : Thread} {r : Option FiberId} {h all : List FiberId}
    (thread : t.Sound r .exec h) (perm : (t.ids ++ others).Perm all) (distinct : all.Nodup)
    (numbered : ∀ id ∈ all, 0 < id ∧ id < p.nextId) (live : p.live = all.length)
    (first : 0 < p.nextId) (going : p.halted = false) :
    Stage.Sound others ⟨⟨p, t⟩, r, .exec, h⟩ where
  thread := thread
  distinct := perm.nodup_iff.mpr distinct
  numbered id mem := numbered id (perm.mem_iff.mp mem)
  live := live.trans perm.length_eq.symm
  first := first
  going := going

/-- Fibers that only have handles to each other. -/
structure Forgotten (fs : List Fiber) : Prop where
  census : ∀ id, handlesTo fs id = (fs.flatMap Fiber.owns).count id
  alive : ∀ f ∈ fs, 0 < f.handles

namespace Forgotten

theorem nil : Forgotten [] :=
  ⟨fun _ => rfl, by simp⟩

theorem append {fs gs : List Fiber} (hf : Forgotten fs) (hg : Forgotten gs) :
    Forgotten (fs ++ gs) where
  census id := by
    rw [handlesTo_append, hf.census id, hg.census id, List.flatMap_append, List.count_append]
  alive f mem := by
    rcases List.mem_append.mp mem with mem | mem
    · exact hf.alive f mem
    · exact hg.alive f mem

end Forgotten

/-! ## 2. Ending -/

/-- The entry of the end of a main fiber, which is that of its thread. -/
structure Entry.Torn (e : Entry) : Prop where
  order : e.thread.InOrder .exec
  regular : e.thread.Regular
  noMain : e.thread.main = none
  torn : ∃ id span, e.event = .logged (.mainDestroyed id) span

namespace World

variable {w : World}

/-- A thread that ends releases what is in its slots. -/
theorem releaseSlots_stays {r : Option FiberId} {h : List FiberId} :
    Stays texts ⟨w, r, .exec, h⟩ ⟨w.releaseSlots, r, .exec, h⟩ := by
  have cleared : Stays texts ⟨w, r, .exec, h⟩
      ⟨w.onThread fun t => { t with slots := [] }, r, .exec, w.thread.slots.map Prod.snd ++ h⟩ :=
    ⟨.move .clearSlots, rfl, rfl⟩
  exact cleared.trans (release_stays _)

theorem releaseSlots_slots (w : World) : w.releaseSlots.thread.slots = [] :=
  (release_keeps _ _).1

/-- A thread that has left its span and does not know its main fiber any more. -/
def disown (w : World) : World :=
  w.onThread fun t => { t with span := none, main := none }

/-- The fibers of the thread will never be released. -/
def forget (w : World) : World :=
  { w with process := { w.process with leaked := w.process.leaked ++ w.thread.fibers } }

/-- What a thread that ends does to its main fiber. -/
def parting (w : World) : List Act :=
  match w.thread.main.bind w.thread.fiber? with
  | some f => if f.handles ≤ 1 then [.destroyed f.id f.state] else []
  | none => []

theorem parting_births (w : World) : births w.parting = [] := by
  unfold parting
  split
  · split <;> rfl
  · rfl

theorem retire_eq (w : World) : w.retire = (w.disown.release w.thread.main.toList).forget :=
  rfl

/-- What the end of a thread leaves behind. -/
structure Retires (others : List FiberId) (w v : World) (gone : List Fiber) (new : List Entry) :
    Prop where
  leaked : v.process.leaked = w.process.leaked ++ gone
  /-- They are as they were, but for their handles. -/
  kept : ∀ g ∈ gone, ∃ f ∈ w.thread.fibers, g = { f with handles := g.handles }
  /-- Their blocks are all that the fibers of the thread had. -/
  leases : (gone.filterMap Fiber.lease).Perm (w.thread.fibers.filterMap Fiber.lease)
  forgotten : Forgotten gone
  leaves : Leaves w.thread.ids w.parting (gone.map Fiber.id)
  live : v.process.live = (gone.map Fiber.id ++ others).length
  trace : v.process.trace.toList = w.process.trace.toList ++ new
  torn : ∀ e ∈ new, e.Torn
  nextId : v.process.nextId = w.process.nextId
  level : v.process.level = w.process.level
  halted : v.process.halted = w.process.halted
  program : v.process.program = w.process.program

/-- Without its main fiber, the account of a thread that has ended balances. -/
theorem balance_without_main {f : Fiber} (sound : Stage.Sound others ⟨w, none, .exec, []⟩)
    (empty : w.thread.slots = []) (main : w.thread.main = some f.id)
    (found : w.thread.fiber? f.id = some f) (noOwn : f.owns = []) (x : FiberId) :
    (if f.id = x then f.handles else 0) + handlesTo (w.thread.erase f.id).fibers x =
      (if f.id = x then 1 else 0) +
        ((w.thread.erase f.id).fibers.flatMap Fiber.owns).count x := by
  have perm := Thread.fibers_perm sound.thread.distinct found
  have total := sound.thread.census x
  rw [handlesTo_perm perm, handlesTo_cons] at total
  simp only [Thread.kept, empty, main, List.map_nil, Option.toList_some, List.append_nil,
    List.nil_append, List.count_append, (perm.flatMap_right Fiber.owns).count_eq,
    List.flatMap_cons, noOwn, List.count_cons, List.count_nil, beq_iff_eq] at total
  omega

/-- A thread without a main fiber leaves all of its fibers behind. -/
theorem retires_bare (sound : Stage.Sound others ⟨w, none, .exec, []⟩)
    (empty : w.thread.slots = []) (main : w.thread.main = none) :
    Retires others w w.retire w.thread.fibers [] := by
  have same : w.retire = w.disown.forget := by
    rw [retire_eq, main, Option.toList_none, release]
  rw [same]
  exact {
    leaked := rfl
    kept := fun g mem => ⟨g, mem, rfl⟩
    leases := .refl _
    forgotten := ⟨fun id => by simpa [Thread.kept, empty, main] using sound.thread.census id,
      sound.thread.alive⟩
    leaves := by
      have quiet : w.parting = [] := by simp [parting, main]
      exact .of_quiet (by rw [quiet]; exact ⟨rfl, rfl⟩) rfl
    live := sound.live
    trace := by simp [forget, disown, onThread]
    torn := by simp
    nextId := rfl
    level := rfl
    halted := rfl
    program := rfl }

/-- A main fiber that other fibers have handles to is left behind with them. -/
theorem retires_shared {f : Fiber} (sound : Stage.Sound others ⟨w, none, .exec, []⟩)
    (empty : w.thread.slots = []) (main : w.thread.main = some f.id)
    (found : w.thread.fiber? f.id = some f) (noOwn : f.owns = []) (more : ¬ f.handles ≤ 1) :
    ∃ gone, Retires others w w.retire gone [] := by
  have changed := Thread.update_perm (fun f => { f with handles := f.handles - 1 })
    sound.thread.distinct found
  have ids : Thread.ids (w.thread.update f.id fun f => { f with handles := f.handles - 1 }) =
      w.thread.ids := Thread.ids_update _ _ _ fun _ => rfl
  have same : w.retire = (w.disown.onThread fun t =>
      t.update f.id fun f => { f with handles := f.handles - 1 }).forget := by
    rw [retire_eq, main, Option.toList_some, release_more (by exact found) more]
  rw [same]
  refine ⟨(w.thread.update f.id fun f => { f with handles := f.handles - 1 }).fibers, {
    leaked := rfl
    kept := ?_
    leases := ?_
    forgotten := ⟨?_, ?_⟩
    leaves := by
      have quiet : w.parting = [] := by simp [parting, main, found, more]
      exact .of_quiet (by rw [quiet]; exact ⟨rfl, rfl⟩) ids
    live := by
      rw [← Thread.ids, ids]
      exact sound.live
    trace := by simp [forget, disown, onThread]
    torn := by simp
    nextId := rfl
    level := rfl
    halted := rfl
    program := rfl }⟩
  · intro g mem
    rcases List.mem_cons.mp (changed.mem_iff.mp mem) with rfl | mem
    · exact ⟨f, Thread.mem_of_fiber? found, rfl⟩
    · exact ⟨g, (Thread.mem_erase.mp mem).1, rfl⟩
  · have same := (Thread.fibers_perm sound.thread.distinct found).filterMap Fiber.lease
    exact (changed.filterMap Fiber.lease).trans same.symm
  · intro x
    have balance := balance_without_main sound empty main found noOwn x
    have noOwn' : Fiber.owns { f with handles := f.handles - 1 } = [] := noOwn
    rw [handlesTo_perm changed, handlesTo_cons, (changed.flatMap_right _).count_eq,
      List.flatMap_cons, noOwn', List.nil_append]
    split at balance <;> simp_all
    all_goals omega
  · intro g mem
    rcases List.mem_cons.mp (changed.mem_iff.mp mem) with rfl | mem
    · exact Nat.sub_pos_of_lt (Nat.lt_of_not_le more)
    · exact sound.thread.alive g (Thread.mem_erase.mp mem).1

/-- The thread once its main fiber has ended with it. -/
def withoutMain (w : World) (main : FiberId) : World :=
  (w.disown.onThread fun t => { t.erase main with current := none }).uncount

/-- A main fiber has no stack, and no callback to enter. -/
theorem parts_of_presides {f : Fiber} (presides : f.Presides none) :
    f.lease = none ∧ f.pending = none ∧ f.state = .exec := by
  cases presides with
  | home noStack callback state context => exact ⟨noStack, callback, state⟩

/-- The end of a thread takes its main fiber along. -/
theorem retire_alone_eq {f : Fiber} (current : w.thread.current = w.thread.main)
    (main : w.thread.main = some f.id) (found : w.thread.fiber? f.id = some f)
    (presides : f.Presides none) (last : f.handles ≤ 1) :
    w.retire = ((w.withoutMain f.id).log (.mainDestroyed f.id)).forget := by
  obtain ⟨noStack, callback, state⟩ := parts_of_presides presides
  have faultless : f.destructionFault? = none := by
    simp [Fiber.destructionFault?, Fiber.isMain, noStack, callback, state]
  have destroyed : w.disown.destroy f =
      ((w.withoutMain f.id).log (.mainDestroyed f.id), []) := by
    simp [destroy, faultless, callback, dismantle, noStack, onThread, uncount, Thread.erase,
      current, main, withoutMain, disown]
  rw [retire_eq, main, Option.toList_some, release_last (by exact found) last (by rw [destroyed]),
    destroyed]

/-- What is written when the main fiber ends with its thread. -/
theorem log_torn (main : FiberId) (going : w.process.halted = false)
    (order : w.thread.InOrder .exec) (regular : w.thread.Regular)
    (gone : w.thread.main = none) :
    ∃ new : List Entry, (w.log (.mainDestroyed main)).process.trace.toList =
      w.process.trace.toList ++ new ∧ ∀ e ∈ new, e.Torn := by
  rcases w.log_cases (.mainDestroyed main) with eq | eq
  · exact ⟨[], by rw [eq, List.append_nil], by simp⟩
  · refine ⟨[⟨w.thread, .logged (.mainDestroyed main) w.span?⟩], ?_, ?_⟩
    · rw [eq, emit_of_going going, Array.toList_push]
    · intro e mem
      rw [List.mem_singleton.mp mem]
      exact ⟨order, regular, gone, _, _, rfl⟩

/-- A main fiber that no other fiber has a handle to ends with its thread. -/
theorem retires_alone {f : Fiber} (sound : Stage.Sound others ⟨w, none, .exec, []⟩)
    (empty : w.thread.slots = []) (main : w.thread.main = some f.id)
    (found : w.thread.fiber? f.id = some f) (noOwn : f.owns = []) (presides : f.Presides none)
    (last : f.handles ≤ 1) :
    ∃ new, Retires others w w.retire (w.thread.erase f.id).fibers new := by
  have one : f.handles = 1 :=
    Nat.le_antisymm last (sound.thread.alive f (Thread.mem_of_fiber? found))
  obtain ⟨noStack, -, -⟩ := parts_of_presides presides
  have logged := (w.withoutMain f.id).log_same (.mainDestroyed f.id)
  have order : (w.withoutMain f.id).thread.InOrder .exec := by
    refine .bare rfl sound.thread.task rfl ?_
    intro g mem
    obtain ⟨mem, other⟩ := Thread.mem_erase.mp mem
    exact ((sound.thread.fits g mem).rests (by simpa [main] using other.symm) (by simp)).idle
  have regular : (w.withoutMain f.id).thread.Regular :=
    ⟨Thread.distinct_erase f.id sound.thread.distinct, by
      simp [withoutMain, onThread, uncount, disown, Thread.erase]⟩
  obtain ⟨new, trace, torn⟩ :=
    log_torn (w := w.withoutMain f.id) f.id (by exact sound.going) order regular rfl
  have count := (Thread.ids_erase sound.thread.distinct found).length_eq
  rw [retire_alone_eq sound.thread.current main found presides last]
  refine ⟨new, {
    leaked := ?_
    kept := fun g mem => ⟨g, (Thread.mem_erase.mp mem).1, rfl⟩
    leases := ?_
    forgotten := ⟨?_, fun g mem => sound.thread.alive g (Thread.mem_erase.mp mem).1⟩
    leaves := ?_
    live := ?_
    trace := trace
    torn := torn
    nextId := logged.nextId
    level := logged.level
    halted := logged.halted
    program := logged.program }⟩
  · rw [forget, logged.leaked, logged.thread]
    rfl
  · have same := (Thread.fibers_perm sound.thread.distinct found).filterMap Fiber.lease
    rw [List.filterMap_cons_none noStack] at same
    exact same.symm
  · intro x
    have balance := balance_without_main sound empty main found noOwn x
    rw [one] at balance
    omega
  · have ends : w.parting = [.destroyed f.id f.state] := by simp [parting, main, found, last]
    rw [ends, Leaves, show births [.destroyed f.id f.state] = [] from rfl, List.append_nil]
    exact Thread.ids_erase sound.thread.distinct found
  · have live := sound.live
    have less : ((w.withoutMain f.id).log (.mainDestroyed f.id)).forget.process.live =
        w.process.live - 1 := logged.live
    simp only [List.length_append, List.length_cons, Thread.ids] at live count less ⊢
    omega

theorem retire_retires (sound : Stage.Sound others ⟨w, none, .exec, []⟩)
    (empty : w.thread.slots = []) : ∃ gone new, Retires others w w.retire gone new := by
  cases main : w.thread.main with
  | none => exact ⟨_, _, retires_bare sound empty main⟩
  | some id =>
    obtain ⟨f, found, rfl, presides⟩ := sound.thread.main_presides main
    have noOwn : f.owns = [] := by
      cases presides with
      | home noStack callback state context => simp [Fiber.owns, callback, context]
    by_cases last : f.handles ≤ 1
    · obtain ⟨new, retires⟩ := retires_alone sound empty main found noOwn presides last
      exact ⟨_, new, retires⟩
    · obtain ⟨gone, retires⟩ := retires_shared sound empty main found noOwn last
      exact ⟨gone, _, retires⟩

end World

end FiberEngine
