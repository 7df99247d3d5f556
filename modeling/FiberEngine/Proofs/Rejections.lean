/-
FiberEngine.Proofs.Rejections — a rejected call changes nothing.

A call on a fiber is made under a handle, and a reset takes further ones for the
callback that it is given. `Thread.lend` gives the fibers of a thread one handle more
for each of a list of ids, so that a world in which the running code has taken some
handles is described by the one in which it has not. What was lent is given back
without a trace (`release_lent`): every fiber has a handle of its own, and none dies.

A resume asks for the current fiber before it knows whether it is legal, and that
creates a main fiber in a thread that has none. No such resume is rejected
(`resumeRefusal_inert`): where the main fiber is new, no task runs, and a fiber in a
state that can be resumed has a context.

The main statement is `rejected_calls_inert`.
-/
import FiberEngine.Proofs.Acceptance
import FiberEngine.Proofs.Guises

namespace FiberEngine

variable {others : List FiberId}

/-! ## 1. Handles that are taken for a while -/

/-- A fiber with one handle more for each time that its id is listed. -/
def Fiber.lent (ids : List FiberId) (f : Fiber) : Fiber :=
  { f with handles := f.handles + ids.count f.id }

namespace Thread

/-- A thread whose running code has taken some handles more. -/
def lend (t : Thread) (ids : List FiberId) : Thread :=
  { t with fibers := t.fibers.map (Fiber.lent ids) }

variable {t : Thread} {ids : List FiberId} {id : FiberId}

@[simp]
theorem lend_nil (t : Thread) : t.lend [] = t := by
  have same : t.fibers.map (Fiber.lent []) = t.fibers :=
    List.map_id'' (fun _ => rfl) t.fibers
  rw [lend, same]

theorem fiber?_lend (t : Thread) (ids : List FiberId) (id : FiberId) :
    (t.lend ids).fiber? id = (t.fiber? id).map (Fiber.lent ids) := by
  simp only [lend, fiber?, List.find?_map]
  rfl

/-- A handle that is taken is lent, too. -/
theorem hold_lend (t : Thread) (ids : List FiberId) (id : FiberId) :
    (t.lend ids).hold id = t.lend (id :: ids) := by
  simp only [hold, update, lend, List.map_map]
  congr 1
  refine List.map_congr_left fun f _ => ?_
  by_cases mine : f.id = id
  · subst mine
    simp [Fiber.lent, Nat.add_assoc]
  · simp [Fiber.lent, mine, Ne.symm mine]

theorem lend_perm {more : List FiberId} (perm : ids.Perm more) (t : Thread) :
    t.lend ids = t.lend more := by
  have same : Fiber.lent ids = Fiber.lent more := funext fun f => by
    rw [Fiber.lent, Fiber.lent, perm.count_eq]
  rw [lend, lend, same]

/-- One of the handles that were lent is given back. -/
theorem update_lend (t : Thread) (ids : List FiberId) (id : FiberId) :
    (t.lend (id :: ids)).update id (fun f => { f with handles := f.handles - 1 }) =
      t.lend ids := by
  simp only [update, lend, List.map_map]
  congr 1
  refine List.map_congr_left fun f _ => ?_
  by_cases mine : f.id = id
  · subst mine
    simp [Fiber.lent, ← Nat.add_assoc]
  · simp [Fiber.lent, mine, Ne.symm mine]

/-- What there is no fiber for cannot be lent. -/
theorem lend_of_none (missing : t.fiber? id = none) (ids : List FiberId) :
    t.lend (id :: ids) = t.lend ids := by
  simp only [lend]
  congr 1
  refine List.map_congr_left fun f mem => ?_
  have other : f.id ≠ id := by simpa using List.find?_eq_none.mp missing f mem
  simp [Fiber.lent, Ne.symm other]

/-- A fiber that nothing was lent of may be added before or afterwards. -/
theorem insert_lend (t : Thread) (ids : List FiberId) {f : Fiber} (new : f.id ∉ ids) :
    (t.lend ids).insert f = (t.insert f).lend ids := by
  have same : Fiber.lent ids f = f := by simp [Fiber.lent, List.count_eq_zero_of_not_mem new]
  simp [insert, lend, same]

end Thread

/-- What a process has written down so far, as it is shown. -/
def Process.shown (p : Process) : List (FiberId × Event) :=
  p.trace.toList.map fun e => (e.current, e.event)

namespace World

/-- A world that is another one but for handles that its running code has taken, also in
the threads as they stand in the entries of the trace. -/
structure Borrows (ids : List FiberId) (w v : World) : Prop where
  thread : v.thread = w.thread.lend ids
  process : v.process.untraced = w.process.untraced
  shown : v.process.shown = w.process.shown

variable {w v : World} {r : Option FiberId} {h ids l : List FiberId} {f : Fiber} {e : FiberError}

/-- What was lent is given back, and no fiber dies of it. -/
theorem release_lent {t : Thread} (alive : ∀ f ∈ t.fibers, 0 < f.handles) (w : World)
    (lent : w.thread = t.lend (ids ++ l)) : w.release ids = { w with thread := t.lend l } := by
  induction ids generalizing w with
  | nil =>
    rw [release, ← List.nil_append l, ← lent]
  | cons id rest ih =>
    cases there : t.fiber? id with
    | none =>
      have missing : w.thread.fiber? id = none := by rw [lent, Thread.fiber?_lend, there]; rfl
      rw [release_of_none missing]
      exact ih w (lent.trans (Thread.lend_of_none there _))
    | some f =>
      obtain rfl := Thread.id_of_fiber? there
      have found : w.thread.fiber? f.id = some (f.lent (f.id :: (rest ++ l))) := by
        rw [lent, Thread.fiber?_lend, there]; rfl
      have more : ¬ (f.lent (f.id :: (rest ++ l))).handles ≤ 1 := by
        have := alive f (Thread.mem_of_fiber? there)
        simp only [Fiber.lent, List.count_cons_self]
        omega
      rw [release_of_more found more]
      refine ih _ ?_
      change w.thread.update f.id _ = _
      rw [lent]
      exact Thread.update_lend ..

/-- A handle that is taken and given back. -/
theorem release_hold (alive : ∀ f ∈ w.thread.fibers, 0 < f.handles) (id : FiberId) :
    (w.hold id).release [id] = w := by
  have lent : (w.hold id).thread = w.thread.lend ([id] ++ []) := by
    have held := Thread.hold_lend w.thread [] id
    rwa [Thread.lend_nil] at held
  rw [release_lent alive _ lent, Thread.lend_nil]
  rfl

/-! ## 2. Handles that are taken for a callback -/

namespace Borrows

theorem refl (w : World) : Borrows [] w w :=
  ⟨(Thread.lend_nil _).symm, rfl, rfl⟩

theorem current (b : Borrows ids w v) : v.thread.current = w.thread.current :=
  (congrArg Thread.current b.thread :)

theorem main (b : Borrows ids w v) : v.thread.main = w.thread.main :=
  (congrArg Thread.main b.thread :)

theorem slot? (b : Borrows ids w v) (name : SlotName) : v.thread.slot? name = w.thread.slot? name :=
  (congrArg (Thread.slot? · name) b.thread :)

theorem emit (b : Borrows ids w v) (e : Event) : Borrows ids (w.emit e) (v.emit e) := by
  have halted : v.process.halted = w.process.halted := (congrArg Process.halted b.process :)
  have shown := b.shown
  unfold World.emit
  rw [halted]
  split
  · exact b
  · refine ⟨b.thread, b.process, ?_⟩
    simp only [Process.shown, Array.toList_push, List.map_append, List.map_cons, List.map_nil,
      Entry.current, Thread.currentId, b.current] at shown ⊢
    rw [shown]

theorem log (b : Borrows ids w v) (n : Notice) : Borrows ids (w.log n) (v.log n) := by
  have level : v.process.level = w.process.level := (congrArg Process.level b.process :)
  have span : v.thread.span = w.thread.span := (congrArg Thread.span b.thread :)
  unfold World.log span?
  rw [level, span]
  split
  · exact b.emit _
  · exact b

theorem dropTag (b : Borrows ids w v) (tag : Option String) :
    Borrows ids (w.dropTag tag) (v.dropTag tag) := by
  cases tag with
  | none => exact b
  | some tag => exact b.emit _

theorem hold (b : Borrows ids w v) (id : FiberId) : Borrows (id :: ids) w (v.hold id) where
  thread := by
    change v.thread.hold id = _
    rw [b.thread, Thread.hold_lend]
  process := b.process
  shown := b.shown

theorem regroup (b : Borrows ids w v) (perm : ids.Perm l) : Borrows l w v :=
  ⟨b.thread.trans (Thread.lend_perm perm _), b.process, b.shown⟩

theorem count (b : Borrows ids w v) :
    v.count.2 = w.count.2 ∧ Borrows ids w.count.1 v.count.1 := by
  have nextId : v.process.nextId = w.process.nextId := (congrArg Process.nextId b.process :)
  have counted := congrArg
    (fun p : Process => { p with nextId := p.nextId + 1, live := p.live + 1 }) b.process
  exact ⟨nextId, b.thread, counted, b.shown⟩

/-- The current fiber is the same, also if it is created. -/
theorem currentFiber (b : Borrows ids w v) (fresh : w.process.nextId ∉ ids) :
    v.currentFiber.2 = w.currentFiber.2 ∧ Borrows ids w.currentFiber.1 v.currentFiber.1 := by
  unfold World.currentFiber
  rw [b.current, b.main]
  split
  · exact ⟨rfl, b⟩
  · split
    · refine ⟨rfl, ?_, b.process, b.shown⟩
      simp only [onThread, b.thread]
      rfl
    · obtain ⟨same, counted⟩ := b.count
      have logged := counted.log (.mainCreated w.count.2)
      simp only [same, true_and]
      refine ⟨?_, logged.process, logged.shown⟩
      simp only [onThread, logged.thread, Thread.insert_lend _ _ (f := Fiber.main w.count.2) fresh]
      rfl

/-- What was lent is given back. -/
theorem release (b : Borrows (ids ++ l) w v) (alive : ∀ f ∈ w.thread.fibers, 0 < f.handles) :
    Borrows l w (v.release ids) := by
  rw [release_lent alive v b.thread]
  exact ⟨rfl, b.process, b.shown⟩

/-- With all of it given back, only the threads in the entries differ. -/
theorem same (b : Borrows [] w v) : SameButTrace w v where
  thread := b.thread.trans (Thread.lend_nil _)
  nextId := (congrArg Process.nextId b.process :)
  live := (congrArg Process.live b.process :)
  registry := (congrArg Process.registry b.process :)
  hook := (congrArg Process.hook b.process :)
  defaultSize := (congrArg Process.defaultSize b.process :)
  level := (congrArg Process.level b.process :)
  leaked := (congrArg Process.leaked b.process :)
  program := (congrArg Process.program b.process :)
  halted := (congrArg Process.halted b.process :)

end Borrows

/-- Look references up, one after the other. -/
def fetchAll (w : World) : List FiberRef → World
  | [] => w
  | f :: rest => fetchAll (w.fetch f).1 rest

/-- Looking references up creates nothing where there is a main fiber. -/
theorem fetchAll_eq (sound : Stage.Sound others ⟨w, r, .exec, h⟩) (keep : List FiberRef)
    (known : .current ∈ keep → w.thread.main ≠ none) : w.fetchAll keep = w := by
  induction keep with
  | nil => rfl
  | cons f rest ih =>
    have same : (w.fetch f).1 = w := by
      cases f with
      | slot name => rfl
      | current =>
        obtain ⟨main, isMain⟩ := Option.ne_none_iff_exists'.mp (known (by simp))
        have current : w.thread.current = (r <|> some main) := isMain ▸ sound.thread.current
        obtain ⟨id, found⟩ : ∃ id, w.thread.current = some id := by
          rw [current]
          cases r <;> simp
        simp only [fetch, World.currentFiber, found]
    rw [fetchAll, same]
    exact ih fun mem => known (by simp [mem])

theorem fetchAll_stays {texts : String → Prop} (sound : Stage.Sound others ⟨w, r, .exec, h⟩)
    (keep : List FiberRef) :
    Stays texts ⟨w, r, .exec, h⟩ ⟨w.fetchAll keep, r, .exec, h⟩ := by
  induction keep generalizing w with
  | nil => exact .refl _
  | cons f rest ih =>
    have fetched : Stays texts _ _ := fetch_stays f sound
    exact fetched.trans (ih (fetched.sound sound))

/-- The handles that are taken for a callback come on top of those that the running code
has. -/
theorem holdAll_borrows (keep : List FiberRef) (sound : Stage.Sound others ⟨v, r, .exec, l ++ h⟩)
    (b : Borrows l w v) : Borrows ((v.holdAll keep).2 ++ l) (w.fetchAll keep) (v.holdAll keep).1 := by
  induction keep generalizing w v l with
  | nil => exact b
  | cons f rest ih =>
    have fetched : Stays (fun _ => True) _ _ := fetch_stays f sound
    have there : ∀ id, (v.fetch f).2 = some id → ∃ g, (v.fetch f).1.thread.fiber? id = some g :=
      fun _ => exists_of_fetch sound
    obtain ⟨same, after⟩ : (v.fetch f).2 = (w.fetch f).2 ∧ Borrows l (w.fetch f).1 (v.fetch f).1 := by
      cases f with
      | slot name => exact ⟨b.slot? name, b⟩
      | current =>
        -- a new main fiber has an id that no handle can be of
        have fresh : w.process.nextId ∉ l := by
          intro mem
          obtain ⟨g, found⟩ := sound.thread.exists_of_held (List.mem_append_left h mem)
          have nextId : v.process.nextId = w.process.nextId :=
            (congrArg Process.nextId b.process :)
          exact sound.fresh g (Thread.mem_of_fiber? found)
            ((Thread.id_of_fiber? found).trans nextId.symm)
        obtain ⟨same, after⟩ := b.currentFiber fresh
        exact ⟨congrArg some same, after⟩
    rcases eq : v.fetch f with ⟨u, id?⟩
    rw [eq] at fetched there after
    have sound := fetched.sound sound
    rw [fetchAll]
    cases id? with
    | none =>
      simp only [holdAll, eq]
      exact ih sound after
    | some id =>
      obtain ⟨g, found⟩ := there id rfl
      have held : Stays (fun _ => True) ⟨u, r, .exec, l ++ h⟩ _ := hold_stays found
      have taken := ih (l := id :: l) (held.sound sound) (after.hold id)
      simp only [holdAll, eq]
      exact taken.regroup List.perm_middle

/-! ## 3. Rejected calls -/

section

variable (sound : Stage.Sound others ⟨w, r, .exec, h⟩) (found : w.thread.fiber? f.id = some f)

include sound found

/-- A resume that is rejected has not created a main fiber. -/
theorem resumeRefusal_inert (refused : (w.resumeRefusal f).2 = some e) :
    (w.resumeRefusal f).1 = w := by
  by_cases can : f.state.canResume
  · rw [resumeRefusal_eq sound found, if_pos can] at refused
    obtain ⟨task, rfl, -⟩ := Option.map_eq_some_iff.mp refused
    simp only [resumeRefusal, Fiber.resumeRefusal?, if_pos can,
      currentFiber_of_runner sound.thread]
    split <;> rfl
  · simp [resumeRefusal, Fiber.resumeRefusal?, can]

theorem tryResume_inert {s : FiberState} (refused : (w.tryResume f).2 = .done (.refused s e)) :
    (w.tryResume f).1 = w := by
  obtain ⟨sound', found'⟩ := held_sound sound found
  rw [tryResume, under, letGo_outcome, resume] at refused
  rw [tryResume, under, resume]
  rcases eq : (w.hold f.id).resumeRefusal { f with handles := f.handles + 1 } with ⟨v, _ | e'⟩ <;>
    rw [eq] at refused
  · cases refused
  · have inert := resumeRefusal_inert sound' found' (congrArg Prod.snd eq)
    rw [eq] at inert
    subst inert
    exact release_hold sound.thread.alive f.id

theorem tryYield_inert {s : FiberState} (refused : (w.tryYield f).2 = .done (.refused s e)) :
    (w.tryYield f).1 = w := by
  obtain ⟨sound', found'⟩ := held_sound sound found
  rw [tryYield, under, letGo_outcome] at refused
  have rejected := suspend_breach sound' found' (Prod.ext rfl refused)
  rw [tryYield, under, suspend]
  simp only [rejected]
  exact release_hold sound.thread.alive f.id

/-- A reset that is rejected costs the callback that it was given. -/
theorem tryReset_inert {s : FiberState} {body : List Op} {tag : Option String}
    {keep : List FiberRef} (refused : (w.tryReset f body tag keep).2 = .done (.refused s e)) :
    Borrows [] ((w.fetchAll keep).dropTag tag) (w.tryReset f body tag keep).1 := by
  obtain ⟨sound', found'⟩ := held_sound sound found
  have alive : ∀ g ∈ ((w.fetchAll keep).dropTag tag).thread.fibers, 0 < g.handles := by
    have stays : Stays (fun _ => True) _ _ := fetchAll_stays sound keep
    rw [dropTag_thread]
    exact (stays.sound sound).thread.alive
  have taken := holdAll_borrows (l := [f.id]) keep sound' ((Borrows.refl w).hold f.id)
  rw [tryReset, under, letGo_outcome] at refused
  rw [tryReset, under]
  rcases eq : (w.hold f.id).holdAll keep with ⟨v, ids⟩
  rw [eq] at taken
  simp only [eq] at refused ⊢
  unfold reset at refused ⊢
  cases rejected : Fiber.resetRefusal? { f with handles := f.handles + 1 } with
  | none =>
    simp only [rejected] at refused
    cases refused
  | some e' =>
    -- the handles of the callback are given back first, then that of the call
    have dropped : Borrows ([f.id] ++ []) _ _ := (taken.dropTag tag).release alive
    exact dropped.release alive

end

/-- What the rejected calls on a fiber leave behind: those of a resume and of a yield
nothing at all, that of a reset the end of the callback that it was given, in the world in
which the references to the handles of the callback have been looked up. -/
structure Withstands (w : World) (f : Fiber) : Prop where
  resume : ∀ s e, (w.tryResume f).2 = .done (.refused s e) → (w.tryResume f).1 = w
  yield : ∀ s e, (w.tryYield f).2 = .done (.refused s e) → (w.tryYield f).1 = w
  reset : ∀ body tag keep s e, (w.tryReset f body tag keep).2 = .done (.refused s e) →
    SameButTrace ((w.fetchAll keep).dropTag tag) (w.tryReset f body tag keep).1 ∧
      (w.tryReset f body tag keep).1.process.shown = ((w.fetchAll keep).dropTag tag).process.shown
  /-- Looking up references has no effect either where there is a main fiber. -/
  captures : ∀ keep, (.current ∈ keep → w.thread.main ≠ none) → w.fetchAll keep = w

theorem withstands_of_sound (sound : Stage.Sound others ⟨w, r, .exec, h⟩)
    (found : w.thread.fiber? f.id = some f) : w.Withstands f where
  resume _ _ refused := tryResume_inert sound found refused
  yield _ _ refused := tryYield_inert sound found refused
  reset _ _ _ _ _ refused :=
    have inert := tryReset_inert sound found refused
    ⟨inert.same, inert.shown⟩
  captures keep known := fetchAll_eq sound keep known

end World

/-! ## 4. Whole runs -/

namespace Machine

/-- A call that is rejected leaves the whole process as it was, whichever fiber it is made
on and whoever makes it. A reset destroys the callback that it was given, and no fiber dies
with the handles that this one had captured. The step of which the call is a part writes
down its answer and touches nothing else, no other thread either. -/
theorem rejected_calls_inert (level : Option Level) (hook : ReportHook) (script : List Op) (n : Nat)
    (op : Op) (w : World) (goes : ((start level hook script).steps n).done = false)
    (starts : ((start level hook script).steps n).world.Starts op w) :
    (∀ f ∈ w.thread.fibers, w.Withstands f) ∧
      (∀ ref u id, w.fetch ref = (u, some id) →
        ∃ f, f.id = id ∧ w.Denotes ref u f ∧ u.Withstands f) ∧
      ∀ v s e, w.perform op = (v, .done (.refused s e)) → ∃ x, World.SameButTrace v x ∧
        (start level hook script).steps (n + 1) =
          { (start level hook script).steps n with world := x } := by
  obtain ⟨r, here, ready⟩ := (sound_of_goes goes).running
  obtain ⟨sound, -⟩ := starts.sound here (ready (finished_of_goes goes))
  refine ⟨fun f mem => ?_, fun ref u id fetched => ?_, fun v s e refused => ?_⟩
  · exact World.withstands_of_sound sound (Thread.fiber?_of_mem sound.thread.distinct mem)
  · have stays : Stays (fun _ => True) _ _ := World.fetch_stays ref sound
    have there : ∃ f, (w.fetch ref).1.thread.fiber? id = some f :=
      World.exists_of_fetch sound (by rw [fetched])
    rw [fetched] at stays there
    obtain ⟨f, found⟩ := there
    obtain rfl : f.id = id := Thread.id_of_fiber? found
    exact ⟨f, rfl, World.denotes_of_fetch fetched found,
      World.withstands_of_sound (stays.sound sound) found⟩
  · obtain ⟨rest, k, frames, rfl⟩ := starts
    have step : ((start level hook script).steps n).world.step =
        v.conclude op.name (.refused s e) := by
      simp only [World.step, frames, refused, World.settle]
    rw [steps_succ_of_goes goes]
    cases program : v.process.program with
    | none =>
      refine ⟨_, v.emit_same (.completed op.name (.refused s e)), step_of_running ?_⟩
      simp only [step, World.conclude, program]
    | some p =>
      refine ⟨v, .refl v, step_of_running ?_⟩
      simp only [step, World.conclude, program]
      rfl

/-- The main fiber of a fresh process can neither yield nor be resumed, and trying to
changes nothing. -/
theorem first_calls_inert : ∃ w u f,
    (start none .sink [.resume .checked .current]).world.Starts (.resume .checked .current) w ∧
      w.fetch .current = (u, some 1) ∧ f ∈ u.thread.fibers ∧
      (u.tryYield f).2 = .done (.refused .exec (.mainFiberYield 1)) ∧ (u.tryYield f).1 = u ∧
      (u.tryResume f).2 = .done (.refused .exec (.invalidState "resume" 1 .exec)) ∧
      (u.tryResume f).1 = u := by
  have starts : (start none .sink [.resume .checked .current]).world.Starts
      (.resume .checked .current) _ := ⟨[], [.script], rfl, rfl⟩
  obtain ⟨-, inert, -⟩ := rejected_calls_inert none .sink _ 0 _ _ rfl starts
  obtain ⟨f, -, denotes, withstands⟩ := inert .current _ 1 rfl
  obtain rfl : f = Fiber.main 1 := List.mem_singleton.mp denotes.there
  exact ⟨_, _, _, starts, rfl, denotes.there, (World.letGo_outcome ..).trans rfl,
    withstands.yield _ _ ((World.letGo_outcome ..).trans rfl), (World.letGo_outcome ..).trans rfl,
    withstands.resume _ _ ((World.letGo_outcome ..).trans rfl)⟩

end Machine

end FiberEngine
