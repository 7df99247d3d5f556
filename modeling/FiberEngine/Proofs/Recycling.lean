/-
FiberEngine.Proofs.Recycling — a fiber that was reset is a new one.

A reset that is accepted puts a newly constructed fiber into the place of the old
one: with the same id, on the same stack and with as many handles to it, but with
nothing that its earlier runs left. `Fiber.anew` is that fiber, and `Recycled` says of
a step of a machine that it comes to this and to nothing else: the step is the
one that replaces the fiber, destroys the callback that the old one never
entered, logs the reset and answers it, and no run can tell the fiber from a
new one afterwards.

What a reset does besides is what it is to destroy that callback. `ApartFrom` compares
two worlds that differ in one fiber, and in what is remembered of this fiber in the
entries written since; `release_apart` says that handles are released in both
alike, as long as the fiber lasts. The main statement is `recycled_as_new`.
-/
import FiberEngine.Proofs.Acceptance
import FiberEngine.Proofs.Faults

namespace FiberEngine

/-! ## 1. A fiber in the place of another -/

/-- A fiber as it is constructed on a stack for a callback, in the place of one with
the same id and as many handles to it. -/
def Fiber.anew (lease : StackLease) (cb : Callback) (f : Fiber) : Fiber :=
  { Fiber.task f.id lease cb with handles := f.handles }

/-- Being bound to a callback leaves nothing of the past of a fiber. -/
theorem Fiber.bound_eq_anew {f : Fiber} {lease : StackLease} (onStack : f.lease = some lease)
    (cb : Callback) : Fiber.bound cb f = Fiber.anew lease cb f := by
  simp [Fiber.bound, Fiber.anew, Fiber.task, onStack]

/-- Put a newly constructed fiber into the place of one of a thread. -/
def Thread.renew (t : Thread) (id : FiberId) (lease : StackLease) (cb : Callback) : Thread :=
  t.update id (Fiber.anew lease cb)

def World.renew (w : World) (id : FiberId) (lease : StackLease) (cb : Callback) : World :=
  w.onThread fun t => t.renew id lease cb

def Machine.renew (m : Machine) (id : FiberId) (lease : StackLease) (cb : Callback) : Machine :=
  { m with world := m.world.renew id lease cb }

section

variable {id : FiberId} {lease : StackLease} {cb : Callback}

theorem Thread.fiber?_renew (t : Thread) (other : FiberId) :
    (t.renew id lease cb).fiber? other =
      (t.fiber? other).map fun f => if other = id then Fiber.anew lease cb f else f :=
  Thread.fiber?_update _ _ _ _ fun _ => rfl

/-- A change that does not look at what is new about the fiber. -/
theorem Thread.update_renew (t : Thread) (other : FiberId) {c : Fiber → Fiber}
    (keeps : ∀ f, (c f).id = f.id)
    (same : ∀ f, c (Fiber.anew lease cb f) = Fiber.anew lease cb (c f)) :
    (t.renew id lease cb).update other c = (t.update other c).renew id lease cb := by
  simp only [renew, update, List.map_map]
  congr 1
  refine List.map_congr_left fun f _ => ?_
  have kept : (Fiber.anew lease cb f).id = f.id := rfl
  by_cases mine : f.id = id <;> by_cases his : f.id = other
  · simp only [Function.comp, if_pos mine, kept, if_pos his, keeps, same]
  · simp only [Function.comp, if_pos mine, kept, if_neg his]
  · simp only [Function.comp, if_neg mine, if_pos his, keeps]
  · simp only [Function.comp, if_neg mine, if_neg his]

/-- A thread in which the fiber is new already does not change. -/
theorem Thread.renew_eq_self {t : Thread} {n : Nat} (distinct : t.Distinct)
    (found : t.fiber? id = some { Fiber.task id lease cb with handles := n }) :
    t.renew id lease cb = t := by
  have same : t.renew id lease cb = t.update id fun f => f :=
    World.update_congr distinct found rfl
  rw [same]
  simp [Thread.update]

/-! ## 2. Worlds that differ in one fiber -/

/-- Two worlds are the same, but for a fiber that is a newly constructed one in the
second; so it is in the entries that were written since both had the trace `base`. -/
structure ApartFrom (id : FiberId) (lease : StackLease) (cb : Callback) (base : Array Entry)
    (w w' : World) : Prop where
  thread : w'.thread = w.thread.renew id lease cb
  process : w'.process.untraced = w.process.untraced
  trace : ∃ new, w.process.trace.toList = base.toList ++ new ∧
    w'.process.trace.toList =
      base.toList ++ new.map fun e => ⟨e.thread.renew id lease cb, e.event⟩

namespace World

variable {base : Array Entry} {w w' : World}

theorem apart_renew (w : World) :
    ApartFrom id lease cb w.process.trace w (w.renew id lease cb) :=
  ⟨rfl, rfl, [], by simp, by simp [renew, onThread]⟩

theorem emit_apart (h : ApartFrom id lease cb base w w') (e : Event) :
    ApartFrom id lease cb base (w.emit e) (w'.emit e) := by
  have halted : w'.process.halted = w.process.halted := (congrArg Process.halted h.process :)
  unfold emit
  rw [halted]
  split
  · exact h
  · obtain ⟨new, left, right⟩ := h.trace
    exact ⟨h.thread, h.process, new ++ [⟨w.thread, e⟩], by simp [left], by simp [right, h.thread]⟩

theorem log_apart (h : ApartFrom id lease cb base w w') (n : Notice) :
    ApartFrom id lease cb base (w.log n) (w'.log n) := by
  have level : w'.process.level = w.process.level := (congrArg Process.level h.process :)
  have span : w'.span? = w.span? := by
    rw [span?, span?, level, h.thread]
    rfl
  unfold log
  rw [level, span]
  split
  · exact emit_apart h _
  · exact h

/-- A change of the process that does not touch the trace. -/
theorem withProcess_apart (h : ApartFrom id lease cb base w w') (change : Process → Process)
    (blind : ∀ p, (change p).untraced = change p.untraced := by intro; rfl)
    (keeps : ∀ p, (change p).trace = p.trace := by intro; rfl) :
    ApartFrom id lease cb base { w with process := change w.process }
      { w' with process := change w'.process } where
  thread := h.thread
  process := by
    change (change w'.process).untraced = (change w.process).untraced
    rw [blind, blind, h.process]
  trace := by
    change ∃ new, (change w.process).trace.toList = _ ∧ (change w'.process).trace.toList = _
    rw [keeps, keeps]
    exact h.trace

theorem onThread_apart (h : ApartFrom id lease cb base w w') {c : Thread → Thread}
    (same : c (w.thread.renew id lease cb) = (c w.thread).renew id lease cb) :
    ApartFrom id lease cb base (w.onThread c) (w'.onThread c) :=
  ⟨(congrArg c h.thread).trans same, h.process, h.trace⟩

theorem report_apart (h : ApartFrom id lease cb base w w') (text : String) :
    ApartFrom id lease cb base (w.report text).1 (w'.report text).1 := by
  have hook : w'.process.hook = w.process.hook := (congrArg Process.hook h.process :)
  unfold report
  rw [hook]
  split
  · exact log_apart h _
  · exact emit_apart h _
  · exact withProcess_apart h fun p => { p with program := p.program.map _ }

theorem fatalInside_apart (h : ApartFrom id lease cb base w w') (message : String) :
    ApartFrom id lease cb base (w.fatalInside message) (w'.fatalInside message) := by
  have reported : ApartFrom id lease cb base (w.reportFatal message).1
      (w'.reportFatal message).1 := by
    have hook : w'.process.hook = w.process.hook := (congrArg Process.hook h.process :)
    unfold reportFatal
    rw [hook]
    split
    · exact withProcess_apart h fun p => { p with program := p.program.map _ }
    · exact report_apart h _
  unfold fatalInside
  generalize (w.reportFatal message).1 = v, (w'.reportFatal message).1 = v' at reported
  have program : v'.process.program = v.process.program :=
    (congrArg Process.program reported.process :)
  have ended : ∀ {v v'}, ApartFrom id lease cb base v v' →
      ApartFrom id lease cb base { v with process := { v.process with halted := true } }
        { v' with process := { v'.process with halted := true } } := fun h =>
    withProcess_apart h fun p => { p with halted := true }
  unfold abort
  rw [program]
  split
  · exact ended (emit_apart (emit_apart reported _) _)
  · exact ended (emit_apart reported _)

/-! ## 3. Releasing handles -/

theorem dropTag_apart (h : ApartFrom id lease cb base w w') (tag : Option String) :
    ApartFrom id lease cb base (w.dropTag tag) (w'.dropTag tag) := by
  cases tag with
  | none => exact h
  | some tag => exact emit_apart h _

theorem dismantle_apart (h : ApartFrom id lease cb base w w') (f : Fiber) :
    ApartFrom id lease cb base (w.dismantle f) (w'.dismantle f) := by
  unfold dismantle
  split
  · refine log_apart ?_ _
    rename_i lease' _
    cases lease'.allocator with
    | heap | exhausted | refusing => exact h
    | guarded =>
      unfold deallocate
      exact onThread_apart h rfl
    | counting | doubling => exact emit_apart (onThread_apart h (by rfl)) _
  · refine log_apart (onThread_apart h ?_) _
    change (if w.thread.current = some f.id then _ else _) = Thread.renew (if _ then _ else _) _ _ _
    split <;> rfl

/-- The same fiber is destroyed in both worlds. -/
theorem destroy_apart (h : ApartFrom id lease cb base w w') (f : Fiber) :
    ApartFrom id lease cb base (w.destroy f).1 (w'.destroy f).1 ∧
      (w'.destroy f).2 = (w.destroy f).2 := by
  have erased : ApartFrom id lease cb base (w.onThread fun t => t.erase f.id)
      (w'.onThread fun t => t.erase f.id) := by
    refine onThread_apart h ?_
    simp only [Thread.renew, Thread.update, Thread.erase, List.filter_map]
    congr 2
    refine List.filter_congr fun g _ => ?_
    by_cases mine : g.id = id <;> simp [mine, Fiber.anew, Fiber.task]
  have counted : ApartFrom id lease cb base (w.onThread fun t => t.erase f.id).uncount
      (w'.onThread fun t => t.erase f.id).uncount :=
    withProcess_apart erased fun p => { p with live := p.live - 1 }
  unfold destroy
  simp only
  split
  · exact ⟨fatalInside_apart counted _, rfl⟩
  · cases f.pending with
    | none => exact ⟨dismantle_apart counted f, rfl⟩
    | some cb => exact ⟨dropTag_apart (dismantle_apart counted f) cb.tag, rfl⟩

/-- A fiber that loses its last handle is gone. -/
theorem fiber?_release_last {f : Fiber} (found : w.thread.fiber? id = some f)
    (last : f.handles ≤ 1) (rest : List FiberId) :
    (w.release (id :: rest)).thread.fiber? id = none := by
  have mine := Thread.id_of_fiber? found
  rw [release_of_last found last]
  cases eq : ((w.destroy f).1.release ((w.destroy f).2 ++ rest)).thread.fiber? id with
  | none => rfl
  | some g =>
    obtain ⟨g', there, -⟩ := fiber?_release eq
    rw [Thread.fiber?, destroy_fibers, ← Thread.fiber?, Thread.fiber?_erase, if_pos mine] at there
    cases there

/-- Handles are released alike, as long as the fiber lasts. -/
theorem release_apart (h : ApartFrom id lease cb base w w') (ids : List FiberId)
    (lasts : (w'.release ids).thread.fiber? id ≠ none) :
    ApartFrom id lease cb base (w.release ids) (w'.release ids) := by
  fun_induction World.release w ids generalizing w' with
  | case1 w =>
    rw [release]
    exact h
  | case2 w other rest missing ih =>
    have missing' : w'.thread.fiber? other = none := by
      rw [h.thread, Thread.fiber?_renew, missing, Option.map_none]
    rw [release_of_none missing'] at lasts ⊢
    exact ih h lasts
  | case3 w other rest f found last destroyed =>
    rename_i ih
    have found' : w'.thread.fiber? other =
        some (if other = id then Fiber.anew lease cb f else f) := by
      rw [h.thread, Thread.fiber?_renew, found, Option.map_some]
    by_cases mine : other = id
    · subst mine
      rw [if_pos rfl] at found'
      exact absurd (fiber?_release_last found' last rest) lasts
    · rw [if_neg mine] at found'
      obtain ⟨apart, same⟩ := destroy_apart h f
      rw [release_of_last found' last, same] at lasts ⊢
      exact ih apart lasts
  | case4 w other rest f found more ih =>
    have found' : w'.thread.fiber? other =
        some (if other = id then Fiber.anew lease cb f else f) := by
      rw [h.thread, Thread.fiber?_renew, found, Option.map_some]
    have more' : ¬ (if other = id then Fiber.anew lease cb f else f).handles ≤ 1 := by
      split <;> exact more
    rw [release_of_more found' more'] at lasts ⊢
    exact ih (onThread_apart h (Thread.update_renew _ _ (fun _ => rfl) fun _ => rfl)) lasts

theorem dropPending_apart (h : ApartFrom id lease cb base w w') (pending : Option Callback)
    (lasts : (w'.dropPending pending).thread.fiber? id ≠ none) :
    ApartFrom id lease cb base (w.dropPending pending) (w'.dropPending pending) := by
  cases pending with
  | none => exact h
  | some old => exact release_apart (dropTag_apart h old.tag) old.keep lasts

end World

end

/-! ## 4. A reset that is accepted -/

namespace World

variable {others : List FiberId} {w u v : World} {r : Option FiberId} {h : List FiberId} {f : Fiber}

/-- Asking for the current fiber leaves the slots as they are. -/
theorem fetch_slots (w : World) (ref : FiberRef) : (w.fetch ref).1.thread.slots = w.thread.slots := by
  cases ref with
  | slot name => rfl
  | current =>
    change w.currentFiber.1.thread.slots = w.thread.slots
    unfold currentFiber
    split
    · rfl
    · split
      · rfl
      · have same := ((w.count.1).log_same (.mainCreated w.process.nextId)).thread
        exact (congrArg Thread.slots same :)

theorem holdAll_slots (w : World) (fs : List FiberRef) :
    (w.holdAll fs).1.thread.slots = w.thread.slots := by
  induction fs generalizing w with
  | nil => rfl
  | cons f rest ih =>
    have fetched := w.fetch_slots f
    rcases eq : w.fetch f with ⟨v, _ | id⟩ <;> rw [eq] at fetched <;> simp only [holdAll, eq]
    · exact (ih v).trans fetched
    · exact (ih (v.hold id)).trans fetched

theorem dropPending_slots (w : World) (pending : Option Callback) :
    (w.dropPending pending).thread.slots = w.thread.slots := by
  cases pending with
  | none => rfl
  | some old =>
    change ((w.dropTag old.tag).release old.keep).thread.slots = _
    rw [(release_keeps _ _).1, dropTag_thread]

/-- A fiber in a slot lasts, whatever the running code releases. -/
theorem lasts_in_slot {ids : List FiberId} {name : SlotName} {id : FiberId}
    (sound : Stage.Sound others ⟨w, r, .exec, ids ++ h⟩) (slot : w.thread.slot? name = some id) :
    (w.release ids).thread.Distinct ∧ ∃ g, (w.release ids).thread.fiber? id = some g := by
  have stays : Stays (fun _ => True) _ _ := release_stays (w := w) (r := r) (h := h) ids
  have after := (stays.sound sound).thread
  have same := (release_keeps w ids).1
  exact ⟨after.distinct, after.exists_of_mem (List.mem_append_left _
    (Thread.Sound.mem_kept_of_slot ((congrArg (Slots.find? · name) same).trans slot)))⟩

/-- A fiber that can be reset is not the current one: it is in a slot. -/
theorem slot_of_reset {ref : FiberRef} (sound : Stage.Sound others ⟨w, r, .exec, h⟩)
    (fetched : w.fetch ref = (u, some f.id)) (found : u.thread.fiber? f.id = some f)
    (can : f.state.canReset) : u = w ∧ ∃ name, w.thread.slot? name = some f.id := by
  cases ref with
  | slot name =>
    obtain ⟨rfl, slot⟩ := Prod.mk.inj fetched
    exact ⟨rfl, name, slot⟩
  | current =>
    exfalso
    have stays : Stays (fun _ => True) _ _ := currentFiber_stays sound
    have current := w.currentFiber_current
    obtain ⟨rfl, same⟩ : w.currentFiber.1 = u ∧ w.currentFiber.2 = f.id := by
      simpa [fetch] using fetched
    have after := stays.sound sound
    obtain ⟨notMain, notRunner, -, -⟩ := after.thread.rests_of_canReset found can
    rw [after.thread.current, same] at current
    cases r with
    | none => exact notMain current
    | some task => exact notRunner current

section

variable {lease : StackLease} {cb : Callback} {h : List FiberId} {id : FiberId}

/-- A fiber that replaced one is as it was constructed, whatever is destroyed then. -/
theorem new_of_dropPending {g : Fiber} {pending : Option Callback}
    (there : ((v.renew id lease cb).dropPending pending).thread.fiber? id = some g) :
    g = { Fiber.task id lease cb with handles := g.handles } := by
  have anew : ∀ {x : World} {f : Fiber}, x.thread = v.thread.renew id lease cb →
      x.thread.fiber? id = some f → f = { Fiber.task id lease cb with handles := f.handles } := by
    intro x f thread found
    rw [thread, Thread.fiber?_renew] at found
    obtain ⟨f', found', rfl⟩ := Option.map_eq_some_iff.mp found
    simp [Fiber.anew, Thread.id_of_fiber? found']
  cases pending with
  | none => exact anew rfl there
  | some old =>
    obtain ⟨f, found, same⟩ := fiber?_release there
    have constructed := anew (dropTag_thread ..) found
    rw [same, constructed]

/-- A reset that is accepted, under a handle to the fiber. -/
theorem reset_anew (m : Manner) (cb : Callback)
    (sound : Stage.Sound others ⟨v, r, .exec, cb.keep ++ f.id :: h⟩)
    (found : v.thread.fiber? f.id = some f) (accepted : f.resetRefusal? = none)
    (onStack : f.lease = some lease) :
    v.reset m f cb = (((v.renew f.id lease cb).dropPending f.pending).log
      (.fiberReset f.id f.state), .done (.state .init)) ∧
      Stage.Sound others ⟨(v.renew f.id lease cb).dropPending f.pending, r, .exec, f.id :: h⟩ := by
  have can := canReset_of_reset accepted
  have renewed : v.thread.update f.id (Fiber.bound cb) = v.thread.renew f.id lease cb :=
    update_congr sound.thread.distinct found (Fiber.bound_eq_anew onStack cb)
  have bound : v.bindAnew f cb = (v.renew f.id lease cb).dropPending f.pending := by
    simp only [bindAnew, renew, onThread, renewed]
  have stays : Stays (fun _ => True) ⟨v, r, .exec, cb.keep ++ f.id :: h⟩ ⟨_, r, .exec, f.id :: h⟩ :=
    bindAnew_stays found can
  have after := stays.sound sound
  have rebound := rebind_eq sound found can
  rw [bound] at after rebound
  refine ⟨?_, after⟩
  have mine : f.id ∈ f.id :: h := by simp
  obtain ⟨g, there⟩ := after.thread.exists_of_held mine
  have state : (v.rebind f cb).stateOf f.id = .init := by
    have thread := (((v.renew f.id lease cb).dropPending f.pending).log_same
      (.fiberReset f.id f.state)).thread
    rw [rebound, stateOf, thread, there, new_of_dropPending there]
    rfl
  simp only [reset, accepted]
  rw [state, rebound]

end

/-- What an accepted reset comes to. -/
structure Recycles (v : World) (f : Fiber) (lease : StackLease) (cb : Callback)
    (x : World × Outcome) : Prop where
  /-- A new fiber takes the place of the old one, the callback that this one never
  entered is destroyed, and the reset is logged and answered. -/
  outcome : x = letGo f.id
    (((v.renew f.id lease cb).dropPending f.pending).log (.fiberReset f.id f.state),
      .done (.state .init))
  /-- To destroy that callback is all that happens, apart from the fiber. -/
  apart : ApartFrom f.id lease cb v.process.trace (v.dropPending f.pending)
    ((v.renew f.id lease cb).dropPending f.pending)
  /-- The fiber is as it was constructed, and there is no other one of its id. -/
  alone : x.1.thread.Distinct
  new : ∃ n, x.1.thread.fiber? f.id = some { Fiber.task f.id lease cb with handles := n }

theorem perform_recycles (m : Manner) {ref : FiberRef} (body : List Op) (tag : Option String)
    (keep : List FiberRef) (sound : Stage.Sound others ⟨w, r, .exec, h⟩)
    (fetched : w.fetch ref = (u, some f.id)) (found : u.thread.fiber? f.id = some f)
    (accepted : f.resetRefusal? = none) :
    ∃ lease v ids, f.lease = some lease ∧ (u.hold f.id).holdAll keep = (v, ids) ∧
      v.Recycles f lease ⟨body, tag, ids⟩ (w.perform (.reset m ref body tag keep)) := by
  have can := canReset_of_reset accepted
  obtain ⟨rfl, name, slot⟩ := slot_of_reset sound fetched found can
  obtain ⟨-, -, onStack, -⟩ := sound.thread.rests_of_canReset found can
  obtain ⟨lease, onStack⟩ := Option.ne_none_iff_exists'.mp onStack
  have found' := (onFiber_eq fetched found fun w _ => w.answer .nothing).1
  have held : Stays (fun _ => True) ⟨u, r, .exec, h⟩ ⟨u.hold f.id, r, .exec, f.id :: h⟩ :=
    hold_stays found
  have kept : Stays (fun _ => True) _ _ := holdAll_stays keep (held.sound sound)
  have after := kept.sound (held.sound sound)
  obtain ⟨n, found''⟩ := fiber?_holdAll keep found'
  have slots := (u.hold f.id).holdAll_slots keep
  rcases eq : (u.hold f.id).holdAll keep with ⟨v, ids⟩
  rw [eq] at after found'' slots
  obtain ⟨performed, settled⟩ := reset_anew m ⟨body, tag, ids⟩ (f := { f with handles := n })
    after found'' accepted onStack
  have outcome : u.perform (.reset m ref body tag keep) = letGo f.id
      (((v.renew f.id lease ⟨body, tag, ids⟩).dropPending f.pending).log
        (.fiberReset f.id f.state), .done (.state .init)) := by
    rw [perform, (onFiber_eq fetched found _).2]
    simp only [eq]
    exact congrArg (letGo f.id) performed
  have apart : ApartFrom f.id lease ⟨body, tag, ids⟩ v.process.trace (v.dropPending f.pending)
      ((v.renew f.id lease ⟨body, tag, ids⟩).dropPending f.pending) := by
    have mine : f.id ∈ f.id :: h := by simp
    obtain ⟨g, there⟩ := settled.thread.exists_of_held mine
    exact dropPending_apart v.apart_renew f.pending (by simp [there])
  -- the slot keeps the fiber alive when the handle of the operation is released
  have logged : Stays (fun _ => True) _
      ⟨((v.renew f.id lease ⟨body, tag, ids⟩).dropPending f.pending).log
        (.fiberReset f.id f.state), r, .exec, [f.id] ++ h⟩ := .log _ trivial
  have thread := (((v.renew f.id lease ⟨body, tag, ids⟩).dropPending f.pending).log_same
    (.fiberReset f.id f.state)).thread
  have slot : (((v.renew f.id lease ⟨body, tag, ids⟩).dropPending f.pending).log
      (.fiberReset f.id f.state)).thread.slot? name = some f.id := by
    rw [thread, Thread.slot?, dropPending_slots]
    exact (congrArg (Slots.find? · name) slots).trans slot
  obtain ⟨distinct, g, alive⟩ := lasts_in_slot (logged.sound settled) slot
  obtain ⟨g', before, kept⟩ := fiber?_release alive
  rw [thread] at before
  refine ⟨lease, v, ids, onStack, rfl, outcome, apart, outcome ▸ distinct, g.handles, ?_⟩
  rw [outcome]
  refine alive.trans (congrArg some ?_)
  rw [kept, new_of_dropPending before]

/-- The answer of a reset leaves the thread as it is. -/
theorem conclude_state (w : World) (name : String) (state : FiberState) :
    ∃ v, w.conclude name (.state state) = (v, .running) ∧ v.thread = w.thread := by
  unfold conclude
  split
  · exact ⟨_, rfl, emit_thread ..⟩
  · exact ⟨_, rfl, rfl⟩

end World

/-! ## 5. Whole runs -/

namespace Machine

/-- Whatever a task ran before, its reset is accepted in state `init`, `term` or
`except`, and then it is the fiber that its construction with the new callback gives.
Apart from the fiber, the reset does what it is to destroy the callback that the fiber
never entered, and no continuation of the script can tell the fiber from a new
one. -/
theorem recycled_as_new (level : Option Level) (hook : ReportHook) (script : List Op) (n : Nat)
    {m : Manner} {ref : FiberRef} {body : List Op} {tag : Option String} {keep : List FiberRef}
    {w u : World} {f : Fiber} (goes : ((start level hook script).steps n).done = false)
    (starts : ((start level hook script).steps n).world.Starts (.reset m ref body tag keep) w)
    (fetched : w.fetch ref = (u, some f.id)) (found : u.thread.fiber? f.id = some f)
    (may : u.thread.MayReset f) :
    ∃ lease v ids, f.lease = some lease ∧ (u.hold f.id).holdAll keep = (v, ids) ∧
      v.Recycles f lease ⟨body, tag, ids⟩ (w.perform (.reset m ref body tag keep)) ∧
      (start level hook script).steps (n + 1) = ((start level hook script).steps n).take
        (World.settle (Op.reset m ref body tag keep).name
          (w.perform (.reset m ref body tag keep))) ∧
      ∀ later, (((start level hook script).steps (n + 1)).renew f.id lease ⟨body, tag, ids⟩).steps
        later = (start level hook script).steps (n + 1 + later) := by
  obtain ⟨r, here, ready⟩ := (sound_of_goes goes).running
  obtain ⟨sound, -⟩ := starts.sound here (ready (finished_of_goes goes))
  have stays : Stays (fun _ => True) _ _ := World.fetch_stays ref sound
  rw [fetched] at stays
  have accepted := (World.mayReset_iff (stays.sound sound) found).mpr may
  obtain ⟨lease, v, ids, onStack, held, recycles⟩ :=
    World.perform_recycles m body tag keep sound fetched found accepted
  have stepped : (start level hook script).steps (n + 1) =
      ((start level hook script).steps n).take (World.settle (Op.reset m ref body tag keep).name
        (w.perform (.reset m ref body tag keep))) := by
    obtain ⟨rest, k, frames, rfl⟩ := starts
    rw [steps_succ_of_goes goes, step_eq]
    simp only [World.step, frames]
  refine ⟨lease, v, ids, onStack, held, recycles, stepped, fun later => ?_⟩
  have same : ((start level hook script).steps (n + 1)).world.thread =
      (w.perform (.reset m ref body tag keep)).1.thread := by
    obtain ⟨v', concluded, thread⟩ := World.conclude_state
      ((((v.renew f.id lease ⟨body, tag, ids⟩).dropPending f.pending).log
        (.fiberReset f.id f.state)).release [f.id]) (Op.reset m ref body tag keep).name .init
    rw [stepped, recycles.outcome]
    simp only [World.letGo, World.settle, concluded, take, thread]
  obtain ⟨k, there⟩ := recycles.new
  have unchanged : ((start level hook script).steps (n + 1)).renew f.id lease ⟨body, tag, ids⟩ =
      (start level hook script).steps (n + 1) := by
    rw [renew, World.renew, World.onThread, same, Thread.renew_eq_self recycles.alone there, ← same]
  rw [unchanged, steps_add (n + 1) later]

/-- A task is created and resumed, it panics, and it is reset. -/
def faultedAndReset : List Op :=
  [.create (.named "f") minStackSize .heap [.panic (.text "x")] none [],
    .resume .trusted (.slot (.named "f")), .reset .checked (.slot (.named "f")) [] none []]

/-- The panic ends the task, and the main fiber goes on with its resume. -/
theorem faultedAndReset_faults : ∃ v,
    (start none .sink faultedAndReset).steps 3 = ⟨v, [], false⟩ ∧ v.process.halted = false ∧
      v.process.program = none ∧
      v.thread = { (World.firstEntered .sink [] [] #[]).thread with
        current := some 2
        fibers := [⟨1, some ⟨⟨0, minStackSize⟩, .heap⟩, .except, some .spent, none, 2⟩,
          ⟨2, none, .exec, none, none, 1⟩]
        frames := [.waiting (.resume .trusted 1), .ops (faultedAndReset.drop 2), .script] } ∧
      v.step = ((v.goOn [.ops (faultedAndReset.drop 2), .script]).release [1]).conclude "resume"
        (.state .except) := by
  obtain ⟨trace, second⟩ := first_task_enters .sink (rfl : faultedAndReset = _)
  let w := World.firstEntered .sink [.panic (.text "x")] (faultedAndReset.drop 2) trace
  have sound := sound_of_goes (by rw [second]; rfl)
  rw [second] at sound
  obtain ⟨stage, ready⟩ := sound.stage_of_task (r := some 1) rfl
  have throws : w.Throws (.text "x") (w.goOn [.ops [], .task 1 none []]) :=
    .raised ⟨_, _, rfl, rfl⟩ rfl
  obtain ⟨step, after, body, parks⟩ := World.throws_unwinds stage (ready rfl)
    ⟨2, _, rfl, rfl, rfl⟩ throws
  obtain ⟨v, unwinds, settles⟩ := World.unwind_settles (p := .text "x") after body parks
  cases settles with
  | caught stops => cases stops
  | shown stops => cases stops
  | aborted uncaught panics => cases panics
  | contained uncaught returns contains answers =>
    cases uncaught
    obtain ⟨main, isMain, thread⟩ := contains.thread
    cases isMain
    have whole : (w.goOn [.ops [], .task 1 none []]).dropCallback none [] =
        w.goOn [.ops [], .task 1 none []] := by
      simp only [World.dropCallback, World.dropTag, World.release]
    rw [whole] at thread
    have calm : ((w.goOn [.ops [], .task 1 none []]).undone 1 none []).process.program = none := by
      rw [World.undone, whole]
      rfl
    refine ⟨v, steps_of_running second rfl (step.trans unwinds), ?_, ?_, thread,
      answers .trusted _ rfl⟩
    · rw [contains.process]
      rfl
    · rw [contains.report]
      exact (World.report_same calm _).program.trans calm

/-- The script goes on behind the resume. -/
theorem faultedAndReset_goes : ∃ w f,
    ((start none .sink faultedAndReset).steps 4).done = false ∧
      ((start none .sink faultedAndReset).steps 4).world.Starts
        (.reset .checked (.slot (.named "f")) [] none []) w ∧
      w.fetch (.slot (.named "f")) = (w, some 1) ∧ w.thread.fiber? 1 = some f ∧
      f.state = .except ∧ w.thread.main = some 2 := by
  obtain ⟨⟨process, thread⟩, third, going, calm, rfl, step⟩ := faultedAndReset_faults
  rw [World.release_more (f := ⟨1, _, _, _, _, 2⟩) rfl (by decide), World.conclude_of_calm] at step
  case calm => exact calm
  have fourth := steps_of_running third going step
  have goes : ((start none .sink faultedAndReset).steps 4).done = false := by
    rw [fourth, done, (World.emit_same _ _).halted]
    exact going
  have thread : ((start none .sink faultedAndReset).steps 4).world.thread = _ :=
    (congrArg (fun m => m.world.thread) fourth).trans (World.emit_same _ _).thread
  generalize (start none .sink faultedAndReset).steps 4 = m at goes thread
  obtain ⟨⟨p, t⟩, spawners, finished⟩ := m
  obtain rfl : t = _ := thread
  exact ⟨_, _, goes, ⟨[], [.script], rfl, rfl⟩, rfl, rfl, rfl, rfl⟩

/-- It has a new callback then, on its old stack. -/
theorem recycled_faulted : ∃ w f lease v ids,
    ((start none .sink faultedAndReset).steps 4).world.Starts
      (.reset .checked (.slot (.named "f")) [] none []) w ∧
    w.thread.fiber? 1 = some f ∧ f.state = .except ∧
    World.Recycles v f lease ⟨[], none, ids⟩
      (w.perform (.reset .checked (.slot (.named "f")) [] none [])) := by
  obtain ⟨w, f, goes, starts, fetched, found, state, isMain⟩ := faultedAndReset_goes
  have mine := Thread.id_of_fiber? found
  obtain ⟨lease, v, ids, onStack, -, recycles, -⟩ :=
    recycled_as_new none .sink faultedAndReset 4 (f := f) goes starts (by rw [fetched, mine])
      (by rw [mine, found]) ⟨by simp [isMain, mine], .inr (.inr state)⟩
  exact ⟨w, f, lease, v, ids, starts, found, state, recycles⟩

end Machine

end FiberEngine
