/-
FiberEngine.Proofs.Creating — where fibers and handles come from.

A thread gets its main fiber when it is first asked for its current one; a
reference denotes a fiber that is there; and a handle that is taken belongs to
the running code. A task fiber that is created is new, and the running code has
the first handle to it; one that cannot be created leaves nothing behind but an
entry in the log, a report, or the end of its callback.

The requests on tunables stay in place as well, since they touch no fiber.
-/
import FiberEngine.Proofs.Releasing

namespace FiberEngine

variable {texts : String → Prop} {others : List FiberId}
variable {w : World} {r : Option FiberId} {h : List FiberId}

/-! ## 1. The current fiber -/

namespace World

/-- While a task runs, it is the current fiber. -/
theorem currentFiber_of_runner {task : FiberId} {s : FiberState}
    (sound : w.thread.Sound (some task) s h) : w.currentFiber = (w, task) := by
  have current : w.thread.current = some task := sound.current
  simp [currentFiber, current]

theorem currentFiber_stays (sound : Stage.Sound others ⟨w, r, .exec, h⟩) :
    Stays texts ⟨w, r, .exec, h⟩ ⟨w.currentFiber.1, r, .exec, h⟩ := by
  cases r with
  | some task =>
    rw [currentFiber_of_runner sound.thread]
    exact .refl _
  | none =>
    have current : w.thread.current = w.thread.main := sound.thread.current
    cases main : w.thread.main with
    | some id =>
      rw [main] at current
      simp only [currentFiber, current]
      exact .refl _
    | none =>
      refine ⟨.move (.bearMain main), rfl, ?_⟩
      have same := (w.count.1).log_same (.mainCreated w.process.nextId)
      rw [main] at current
      simp only [currentFiber, current, main, onThread, Thread.insert]
      exact congrArg Thread.frames same.thread

/-- A thread that was asked for its current fiber has one. -/
theorem currentFiber_current (w : World) :
    w.currentFiber.1.thread.current = some w.currentFiber.2 := by
  unfold currentFiber
  split
  · assumption
  · split <;> rfl

/-- While no task runs, the current fiber is the main fiber. -/
theorem main_of_currentFiber (sound : Stage.Sound others ⟨w, none, .exec, h⟩) :
    w.currentFiber.1.thread.main = some w.currentFiber.2 := by
  have sound := (currentFiber_stays sound : Stays (fun _ => False) _ _).sound sound
  rw [← currentFiber_current, sound.thread.current]
  rfl

/-! ## 2. References -/

theorem fetch_stays (f : FiberRef) (sound : Stage.Sound others ⟨w, r, .exec, h⟩) :
    Stays texts ⟨w, r, .exec, h⟩ ⟨(w.fetch f).1, r, .exec, h⟩ := by
  cases f with
  | slot name => exact .refl _
  | current => exact currentFiber_stays sound

/-- A reference denotes a fiber that is there. -/
theorem exists_of_fetch {f : FiberRef} {id : FiberId}
    (sound : Stage.Sound others ⟨w, r, .exec, h⟩) (denotes : (w.fetch f).2 = some id) :
    ∃ g, (w.fetch f).1.thread.fiber? id = some g := by
  have after := (fetch_stays f sound : Stays (fun _ => False) _ _).sound sound
  cases f with
  | slot name =>
    exact after.thread.exists_of_mem
      (List.mem_append_left _ (Thread.Sound.mem_kept_of_slot denotes))
  | current =>
    have denotes : w.currentFiber.2 = id := Option.some.inj denotes
    have current : w.currentFiber.1.thread.current = some id := denotes ▸ w.currentFiber_current
    have thread : w.currentFiber.1.thread.Sound r .exec h := after.thread
    change ∃ g, w.currentFiber.1.thread.fiber? id = some g
    rw [thread.current] at current
    cases r with
    | some task =>
      obtain ⟨g, found, -, -⟩ := thread.runner_runs
      obtain rfl : task = id := Option.some.inj current
      exact ⟨g, found⟩
    | none =>
      have isMain : w.currentFiber.1.thread.main = some id := current
      obtain ⟨g, found, -, -⟩ := thread.main_presides isMain
      exact ⟨g, found⟩

theorem hold_stays {id : FiberId} {f : Fiber} (found : w.thread.fiber? id = some f) :
    Stays texts ⟨w, r, .exec, h⟩ ⟨w.hold id, r, .exec, id :: h⟩ :=
  ⟨.move (.hold found), rfl, rfl⟩

/-- A reference denotes no fiber, or one that is there. -/
theorem fetch_cases (f : FiberRef) (sound : Stage.Sound others ⟨w, r, .exec, h⟩) :
    (∃ v, w.fetch f = (v, none)) ∨
      ∃ v g, w.fetch f = (v, some g.id) ∧ v.thread.fiber? g.id = some g := by
  rcases eq : w.fetch f with ⟨v, _ | id⟩
  · exact .inl ⟨v, rfl⟩
  · obtain ⟨g, found⟩ : ∃ g, (w.fetch f).1.thread.fiber? id = some g :=
      exists_of_fetch sound (by rw [eq])
    obtain rfl : g.id = id := Thread.id_of_fiber? found
    rw [eq] at found
    exact .inr ⟨v, g, rfl, found⟩

/-- The current fiber is there once it is asked for. -/
theorem currentFiber_found (sound : Stage.Sound others ⟨w, r, .exec, h⟩) :
    ∃ v g, w.currentFiber = (v, g.id) ∧ v.thread.fiber? g.id = some g := by
  obtain ⟨g, found⟩ : ∃ g, w.currentFiber.1.thread.fiber? w.currentFiber.2 = some g :=
    exists_of_fetch (f := .current) sound rfl
  obtain same : g.id = w.currentFiber.2 := Thread.id_of_fiber? found
  exact ⟨w.currentFiber.1, g, Prod.ext rfl same.symm, same ▸ found⟩

theorem holdAll_stays (fs : List FiberRef) (sound : Stage.Sound others ⟨w, r, .exec, h⟩) :
    Stays texts ⟨w, r, .exec, h⟩ ⟨(w.holdAll fs).1, r, .exec, (w.holdAll fs).2 ++ h⟩ := by
  induction fs generalizing w h with
  | nil => exact .refl _
  | cons f rest ih =>
    have fetched : Stays texts _ _ := fetch_stays f sound
    rcases fetch_cases f sound with ⟨v, eq⟩ | ⟨v, g, eq, found⟩ <;> rw [eq] at fetched
    · simp only [holdAll, eq]
      exact fetched.trans (ih (fetched.sound sound))
    · have sound := fetched.sound sound
      have held : Stays texts ⟨v, r, .exec, h⟩ _ := hold_stays found
      simp only [holdAll, eq]
      refine (fetched.trans held).trans ((ih (held.sound sound)).trans (.regroup ?_))
      exact List.perm_middle

/-! ## 3. Tunables -/

theorem withRegistry_stays (g : Config.Registry) :
    Stays texts ⟨w, r, .exec, h⟩ ⟨w.withRegistry g, r, .exec, h⟩ :=
  .tune _ ⟨rfl, rfl, rfl, rfl, rfl, rfl, .inl rfl⟩

theorem lookup_stays (name : String) (default : Config.Value) (description : String) :
    Stays texts ⟨w, r, .exec, h⟩ ⟨(w.lookup name default description).1, r, .exec, h⟩ := by
  unfold lookup
  split
  · exact .log _ trivial
  · exact .log _ trivial
  · exact .log _ trivial
  · exact withRegistry_stays _

theorem lookupVar_stays (name : String) (default : Config.Value) (description : String) :
    Stays texts ⟨w, r, .exec, h⟩ ⟨(w.lookupVar name default description).1, r, .exec, h⟩ := by
  have looked : Stays texts ⟨w, r, .exec, h⟩ _ := lookup_stays name default description
  unfold lookupVar
  split <;> rename_i eq <;> rw [eq] at looked <;> exact looked

theorem assignVar_stays (name : String) (value : Config.Value) :
    Stays texts ⟨w, r, .exec, h⟩ ⟨(w.assignVar name value).1, r, .exec, h⟩ := by
  unfold assignVar
  split
  · exact withRegistry_stays _
  · exact .refl _

theorem parseVar_stays (name text : String) :
    Stays texts ⟨w, r, .exec, h⟩ ⟨(w.parseVar name text).1, r, .exec, h⟩ := by
  unfold parseVar
  split
  · exact .refl _
  · split
    · exact .refl _
    · exact withRegistry_stays _

theorem stageVar_stays (name text : String) (apply : Bool) :
    Stays texts ⟨w, r, .exec, h⟩ ⟨(w.stageVar name text apply).1, r, .exec, h⟩ := by
  unfold stageVar
  split
  · exact .refl _
  · simp only
    split
    · exact .refl _
    · split
      · exact withRegistry_stays _
      · exact .refl _

theorem visitAll_stays (register : Option String) (vars : List Config.Var) :
    Stays texts ⟨w, r, .exec, h⟩ ⟨(w.visitAll register vars).1, r, .exec, h⟩ := by
  induction vars generalizing w with
  | nil => exact .refl _
  | cons v rest ih =>
    cases register with
    | none => exact ih
    | some ending => exact (lookup_stays _ _ _).trans ih

theorem loadDocument_stays (source : String) :
    Stays texts ⟨w, r, .exec, h⟩ ⟨(w.loadDocument source).1, r, .exec, h⟩ := by
  have logged : ∀ (staged : List Config.Registry.Staged) (v : World), Stays texts ⟨v, r, .exec, h⟩
      ⟨staged.foldl (fun v s => v.log (.configUpdated s.name s.text)) v, r, .exec, h⟩ := by
    intro staged
    induction staged with
    | nil => exact fun v => .refl _
    | cons s rest ih =>
      exact fun v => (Stays.log (.configUpdated s.name s.text) trivial).trans (ih _)
  unfold loadDocument
  split
  · exact .refl _
  · split
    · exact .refl _
    · exact (withRegistry_stays _).trans (logged _ _)

/-! ## 4. Stacks -/

/-- No fiber has been created or changed, and no block has been handed out or given
back. -/
structure SameStock (w v : World) : Prop where
  nextId : v.process.nextId = w.process.nextId
  fibers : v.thread.fibers = w.thread.fibers
  nextBase : v.thread.nextBase = w.thread.nextBase
  guarded : v.thread.guarded = w.thread.guarded

theorem SameStock.refl (w : World) : SameStock w w :=
  ⟨rfl, rfl, rfl, rfl⟩

theorem SameStock.trans {w v u : World} (first : SameStock w v) (second : SameStock v u) :
    SameStock w u where
  nextId := second.nextId.trans first.nextId
  fibers := second.fibers.trans first.fibers
  nextBase := second.nextBase.trans first.nextBase
  guarded := second.guarded.trans first.guarded

theorem SameStock.of_thread {w v : World} (nextId : v.process.nextId = w.process.nextId)
    (thread : v.thread = w.thread) : SameStock w v :=
  ⟨nextId, by rw [thread], by rw [thread], by rw [thread]⟩

theorem SameButTrace.stock {w v : World} (same : SameButTrace w v) : SameStock w v :=
  .of_thread same.nextId same.thread

theorem report_stock (w : World) (text : String) : SameStock w (w.report text).1 := by
  unfold report
  split
  · exact (w.log_same _).stock
  · exact (w.emit_same _).stock
  · exact .of_thread rfl rfl

theorem lookup_stock (w : World) (name : String) (default : Config.Value)
    (description : String) : SameStock w (w.lookup name default description).1 := by
  unfold lookup
  split
  · exact (w.log_same _).stock
  · exact (w.log_same _).stock
  · exact (w.log_same _).stock
  · exact .of_thread rfl rfl

/-- The report that the default size of stacks cannot be had from its tunable. -/
def unavailableText (e : ConfigError) : String :=
  stackSizeName ++ " unavailable, using " ++ toString defaultStackSize ++ ": " ++ e.message

theorem bindDefaultSize_stays (sizes : ∀ e, texts (unavailableText e)) :
    Stays texts ⟨w, r, .exec, h⟩ ⟨w.bindDefaultSize.1, r, .exec, h⟩ := by
  have settled : ∀ (v : World) (d : DefaultSize),
      Stays texts ⟨v, r, .exec, h⟩ ⟨v.withDefaultSize d, r, .exec, h⟩ :=
    fun v d => .tune _ ⟨rfl, rfl, rfl, rfl, rfl, rfl, .inl rfl⟩
  have looked : Stays texts ⟨w, r, .exec, h⟩ _ := lookup_stays stackSizeName stackSizeDefault
    "fiber stack size"
  unfold bindDefaultSize
  split <;> rename_i eq <;> rw [eq] at looked
  · exact looked.trans (settled _ _)
  · rename_i v e
    have reported : Stays texts ⟨v, r, .exec, h⟩ ⟨(v.report (unavailableText e)).1, r, .exec, h⟩ :=
      .report (sizes e)
    simp only
    split <;> rename_i eq <;> rw [unavailableText, eq] at reported <;>
      exact (looked.trans reported).trans (settled _ _)

theorem stackSize_stays (sizes : ∀ e, texts (unavailableText e)) (asked : Nat) :
    Stays texts ⟨w, r, .exec, h⟩ ⟨(w.stackSize asked).1, r, .exec, h⟩ := by
  unfold stackSize
  split
  · unfold defaultSize
    split
    · exact bindDefaultSize_stays sizes
    · exact .refl _
    · exact .refl _
    · exact .refl _
  · exact .refl _

theorem bindDefaultSize_stock (w : World) : SameStock w w.bindDefaultSize.1 := by
  have settled : ∀ (v : World) d, SameStock v (v.withDefaultSize d) :=
    fun _ _ => .of_thread rfl rfl
  have looked := w.lookup_stock stackSizeName stackSizeDefault "fiber stack size"
  unfold bindDefaultSize
  split <;> rename_i eq <;> rw [eq] at looked
  · exact looked.trans (settled _ _)
  · rename_i v e
    have reported := v.report_stock (unavailableText e)
    simp only
    split <;> rename_i eq <;> rw [unavailableText, eq] at reported <;>
      exact (looked.trans reported).trans (settled _ _)

theorem stackSize_stock (w : World) (asked : Nat) : SameStock w (w.stackSize asked).1 := by
  unfold stackSize
  split
  · unfold defaultSize
    split
    · exact w.bindDefaultSize_stock
    · exact .refl w
    · exact .refl w
    · exact .refl w
  · exact .refl w

theorem recordAlloc_stock (w : World) (a : Allocator) (size : Nat) :
    SameStock w (w.recordAlloc a size) := by
  unfold recordAlloc
  split
  · refine .trans ?_ (emit_same _ _).stock
    exact ⟨rfl, rfl, rfl, rfl⟩
  · refine .trans ?_ (emit_same _ _).stock
    exact ⟨rfl, rfl, rfl, rfl⟩
  · exact .refl w

/-- A call of an allocator is recorded. -/
theorem recordAlloc_stays (a : Allocator) (size : Nat) :
    Stays texts ⟨w, r, .exec, h⟩ ⟨w.recordAlloc a size, r, .exec, h⟩ := by
  unfold recordAlloc
  split
  · refine .trans ?_ (.emit (.allocated size) trivial rfl)
    exact .equip _ ⟨rfl, rfl, rfl, rfl, rfl⟩ ⟨rfl, rfl, rfl, rfl, rfl⟩
  · refine .trans ?_ (.emit (.allocated size) trivial rfl)
    exact .equip _ ⟨rfl, rfl, rfl, rfl, rfl⟩ ⟨rfl, rfl, rfl, rfl, rfl⟩
  · exact .refl _

/-- An allocator that is asked for a block hands out a new one, or none. -/
theorem allocate_cases (a : Allocator) (size : Nat) :
    ∃ v, SameStock w v ∧ Stays texts ⟨w, r, .exec, h⟩ ⟨v, r, .exec, h⟩ ∧
      ((∃ n, w.allocate a size = ((v.handOut a n).1, .ok (v.handOut a n).2)) ∨
        ∃ e, w.allocate a size = (v, .error e)) := by
  have recorded : Stays texts ⟨w, r, .exec, h⟩ ⟨w.recordAlloc a size, r, .exec, h⟩ :=
    recordAlloc_stays a size
  have stock := w.recordAlloc_stock a size
  unfold allocate
  cases a.grant size with
  | ok n => exact ⟨_, stock, recorded, .inl ⟨n, rfl⟩⟩
  | error e =>
    refine ⟨_, ?_, ?_, .inr ⟨e, rfl⟩⟩
    · split
      · exact stock.trans (log_same _ _).stock
      · exact stock
    · refine recorded.trans ?_
      split
      · exact .log _ trivial
      · exact .refl _

/-- So does one that is asked for the stack of a fiber. -/
theorem allocateStack_cases (a : Allocator) (size : Nat) :
    ∃ v, SameStock w v ∧ Stays texts ⟨w, r, .exec, h⟩ ⟨v, r, .exec, h⟩ ∧
      ((∃ n, w.allocateStack a size = ((v.handOut a n).1, .ok (v.handOut a n).2)) ∨
        ∃ e, w.allocateStack a size = (v, .error e)) := by
  unfold allocateStack
  split
  · exact ⟨w, .refl w, .refl _, .inr ⟨_, rfl⟩⟩
  · exact allocate_cases a size

/-! ## 5. Task fibers -/

/-- What the running code has after a task fiber was asked for. -/
def Refusal.handles : Except Refusal FiberId → List FiberId
  | .error _ => []
  | .ok id => [id]

theorem insertTask_stays (a : Allocator) (n size : Nat) (cb : Callback) :
    Stays texts ⟨w, r, .exec, cb.keep ++ h⟩
      ⟨((w.handOut a n).1.insertTask a (w.handOut a n).2 size cb).1, r, .exec,
        w.process.nextId :: h⟩ := by
  refine ⟨.move (.bearTask a n size cb), rfl, ?_⟩
  rw [insertTask_thread]
  rfl

/-- Creating a task costs the running code the handles of the callback, and gives
it the one to the task if there is one. -/
theorem createTask_stays (sizes : ∀ e, texts (unavailableText e)) (a : Allocator) (asked : Nat)
    (cb : Callback) :
    Stays texts ⟨w, r, .exec, cb.keep ++ h⟩
      ⟨(w.createTask a asked cb).1, r, .exec,
        Refusal.handles (w.createTask a asked cb).2 ++ h⟩ := by
  have sized := stackSize_stays (w := w) (r := r) (h := cb.keep ++ h) sizes asked
  unfold createTask
  split <;> rename_i eq <;> rw [eq] at sized
  · exact sized.trans (refuse_stays cb)
  · rename_i v size
    obtain ⟨u, -, stays, ⟨n, allocated⟩ | ⟨e, refused⟩⟩ :=
      @allocateStack_cases texts v r (cb.keep ++ h) a size
    · simp only [allocated]
      exact (sized.trans stays).trans (insertTask_stays a n size cb)
    · simp only [refused]
      exact (sized.trans stays).trans (refuse_stays cb)

/-- No block is refused for a context. -/
theorem allocate_error {a : Allocator} {size : Nat} {v : World} {e : FiberError}
    (refused : w.allocate a size = (v, .error e)) (id : FiberId) : e ≠ .missingContext id := by
  have granted : ∀ e, a.grant size = .error e → e ≠ .missingContext id := by
    intro e refused
    cases a <;> simp only [Allocator.grant, heapGrant] at refused <;>
      (try split at refused) <;> cases refused <;> simp
  unfold allocate at refused
  simp only at refused
  split at refused
  · cases refused
  · rename_i grant
    cases refused
    exact granted _ grant

/-- No task is refused for a context. -/
theorem createTask_error {a : Allocator} {asked : Nat} {cb : Callback} {v : World} {e : FiberError}
    (refused : w.createTask a asked cb = (v, .error (.error e))) (id : FiberId) :
    e ≠ .missingContext id := by
  unfold createTask at refused
  split at refused
  · cases refused
  · split at refused
    · rename_i eq
      cases refused
      unfold allocateStack at eq
      split at eq
      · cases eq
        simp
      · exact allocate_error eq id
    · cases refused

/-- A task that was created has the next id and the next block, and it is as it was
made. -/
theorem createTask_new {a : Allocator} {asked : Nat} {cb : Callback} {v : World} {id : FiberId}
    (sound : Stage.Sound others ⟨w, r, .exec, cb.keep ++ h⟩)
    (created : w.createTask a asked cb = (v, .ok id)) :
    id = w.process.nextId ∧ v.thread.nextBase = w.thread.nextBase + 1 ∧
      ∃ lease, lease.allocator = a ∧ lease.block.base = w.thread.nextBase ∧
        v.thread.fiber? id = some (Fiber.task id lease cb) := by
  have sized : Stays (fun _ => True) ⟨w, r, .exec, cb.keep ++ h⟩ _ :=
    stackSize_stays (fun _ => trivial) asked
  have first := w.stackSize_stock asked
  unfold createTask at created
  split at created <;> rename_i eq <;> rw [eq] at sized first
  · simp at created
  · rename_i u size
    obtain ⟨u', second, stays, ⟨n, allocated⟩ | ⟨e, refused⟩⟩ :=
      @allocateStack_cases (fun _ => True) u r (cb.keep ++ h) a size
    · simp only [allocated] at created
      obtain ⟨rfl, same⟩ := Prod.mk.inj created
      obtain rfl := Except.ok.inj same
      have stock := first.trans second
      have before := (sized.trans stays).sound sound
      have missing : (u'.handOut a n).1.thread.fiber? u'.process.nextId = none := by
        refine List.find?_eq_none.mpr fun g mem => ?_
        simpa using before.fresh g mem
      refine ⟨stock.nextId, ?_, ⟨(u'.handOut a n).2, a⟩, rfl, stock.nextBase, ?_⟩
      · rw [insertTask_thread, ← stock.nextBase]
        rfl
      · change (World.thread _).fiber? u'.process.nextId = _
        rw [insertTask_thread, Thread.fiber?_insert]
        rw [missing]
        simp [Fiber.task, handOut, onThread, insertTask, count]
    · simp [refused] at created

/-- When no task is created, no block is taken, and the callback is destroyed. -/
theorem createTask_none {a : Allocator} {asked : Nat} {cb : Callback} {v : World} {why : Refusal}
    (answer : w.createTask a asked cb = (v, .error why)) :
    ∃ u, SameStock w u ∧ v = u.dropCallback cb.tag cb.keep := by
  have first := w.stackSize_stock asked
  unfold createTask at answer
  split at answer <;> rename_i eq <;> rw [eq] at first
  · cases answer
    exact ⟨_, first, rfl⟩
  · rename_i u size
    obtain ⟨u', second, -, ⟨n, allocated⟩ | ⟨e, refused⟩⟩ :=
      @allocateStack_cases (fun _ => True) u none [] a size
    · simp [allocated] at answer
    · simp only [refused] at answer
      cases answer
      exact ⟨_, first.trans second, rfl⟩

end World

end FiberEngine
