/-
FiberEngine.Proofs.Veils — what the engine does without a look at part of the process.

No request looks at the trace, and only requests on tunables look at the tunables. A
`Veil` changes such a part of the process: all that is read shows through it, and all
that is written comes out the same behind it. Whatever a world comes to, it comes to the
same under a veil.

There is one such lemma for each request; where the request has an answer, the answer is
the same. Requests on tunables need a veil that shows these, and requests for a stack of the
default size one that also shows how far this has been bound (`Veil.ShowsTo`).
`step_veiled`, `releaseSlots_veiled` and `retire_veiled` say so of a whole step and of the
end of a thread.
-/
import FiberEngine.World.Step

namespace FiberEngine

/-! ## 1. Veils -/

/-- A change of the process that requests do not notice. -/
structure Veil where
  cover : Process → Process
  nextId : ∀ p, (cover p).nextId = p.nextId
  live : ∀ p, (cover p).live = p.live
  hook : ∀ p, (cover p).hook = p.hook
  level : ∀ p, (cover p).level = p.level
  program : ∀ p, (cover p).program = p.program
  halted : ∀ p, (cover p).halted = p.halted
  setNextId : ∀ p n, cover { p with nextId := n } = { cover p with nextId := n }
  setLive : ∀ p n, cover { p with live := n } = { cover p with live := n }
  setHook : ∀ p h, cover { p with hook := h } = { cover p with hook := h }
  setProgram : ∀ p d, cover { p with program := d } = { cover p with program := d }
  setHalted : ∀ p b, cover { p with halted := b } = { cover p with halted := b }
  write : ∀ p e, cover { p with trace := p.trace.push e } =
    { cover p with trace := (cover p).trace.push e }
  forget : ∀ p fs, cover { p with leaked := p.leaked ++ fs } =
    { cover p with leaked := (cover p).leaked ++ fs }

/-- The tunables show through the veil. -/
structure Veil.ShowsTunables (v : Veil) : Prop where
  registry : ∀ p, (v.cover p).registry = p.registry
  setRegistry : ∀ p r, v.cover { p with registry := r } = { v.cover p with registry := r }

/-- So does how far the default size of stacks has been bound to one. -/
structure Veil.Shows (v : Veil) : Prop extends v.ShowsTunables where
  defaultSize : ∀ p, (v.cover p).defaultSize = p.defaultSize
  setDefaultSize : ∀ p d,
    v.cover { p with defaultSize := d } = { v.cover p with defaultSize := d }

namespace Veil

variable {α : Type} (veil : Veil) (w : World)

/-- A world under the veil. -/
def on (w : World) : World :=
  { w with process := veil.cover w.process }

/-- The same for a world with an answer. -/
def under (r : World × α) : World × α :=
  (veil.on r.1, r.2)

@[simp] theorem under_mk (a : α) : veil.under (w, a) = (veil.on w, a) := rfl

/-! ### What can be read -/

@[simp] theorem on_thread : (veil.on w).thread = w.thread := rfl
@[simp] theorem on_nextId : (veil.on w).process.nextId = w.process.nextId := veil.nextId _
@[simp] theorem on_live : (veil.on w).process.live = w.process.live := veil.live _
@[simp] theorem on_hook : (veil.on w).process.hook = w.process.hook := veil.hook _
@[simp] theorem on_level : (veil.on w).process.level = w.process.level := veil.level _
@[simp] theorem on_program : (veil.on w).process.program = w.process.program := veil.program _
@[simp] theorem on_halted : (veil.on w).process.halted = w.process.halted := veil.halted _

/-! ### What can be written -/

theorem on_setProgram (d : Option Program) :
    { veil.on w with process := { (veil.on w).process with program := d } } =
      veil.on { w with process := { w.process with program := d } } :=
  congrArg (World.mk · w.thread) (veil.setProgram w.process d).symm

theorem on_setHalted (b : Bool) :
    { veil.on w with process := { (veil.on w).process with halted := b } } =
      veil.on { w with process := { w.process with halted := b } } :=
  congrArg (World.mk · w.thread) (veil.setHalted w.process b).symm

theorem on_setHook (h : ReportHook) :
    { veil.on w with process := { (veil.on w).process with hook := h } } =
      veil.on { w with process := { w.process with hook := h } } :=
  congrArg (World.mk · w.thread) (veil.setHook w.process h).symm

end Veil

namespace World

variable (veil : Veil) (w : World)

@[simp] theorem onThread_veiled (c : Thread → Thread) :
    (veil.on w).onThread c = veil.on (w.onThread c) := rfl

@[simp] theorem stateOf_veiled (id : FiberId) : (veil.on w).stateOf id = w.stateOf id := rfl

@[simp] theorem onProgram_veiled (c : Program → Program) :
    (veil.on w).onProgram c = veil.on (w.onProgram c) := by
  unfold onProgram
  rw [veil.on_setProgram, veil.on_program]

@[simp] theorem print_veiled (text : String) :
    (veil.on w).print text = veil.on (w.print text) := onProgram_veiled ..

@[simp] theorem printError_veiled (text : String) :
    (veil.on w).printError text = veil.on (w.printError text) := onProgram_veiled ..

/-! ## 2. Entries and reports -/

@[simp] theorem emit_veiled (e : Event) : (veil.on w).emit e = veil.on (w.emit e) := by
  unfold emit
  rw [veil.on_halted]
  split
  · rfl
  · exact congrArg (World.mk · w.thread) (veil.write w.process ⟨w.thread, e⟩).symm

@[simp] theorem log_veiled (n : Notice) : (veil.on w).log n = veil.on (w.log n) := by
  have span : (veil.on w).span? = w.span? := by
    unfold span?
    rw [veil.on_level]
    rfl
  unfold log
  rw [veil.on_level, span, emit_veiled]
  split <;> rfl

@[simp] theorem report_veiled (text : String) :
    (veil.on w).report text = veil.under (w.report text) := by
  unfold report
  rw [veil.on_hook]
  split <;> simp

@[simp] theorem abort_veiled : (veil.on w).abort = veil.on w.abort := by
  unfold abort
  rw [veil.on_program]
  split <;> simp only [emit_veiled, veil.on_setHalted]

@[simp] theorem reportFatal_veiled (message : String) :
    (veil.on w).reportFatal message = veil.under (w.reportFatal message) := by
  unfold reportFatal
  rw [veil.on_hook]
  split <;> simp

@[simp] theorem fatal_veiled (message : String) :
    (veil.on w).fatal message = veil.under (w.fatal message) := by
  unfold fatal
  rw [reportFatal_veiled]
  rcases w.reportFatal message with ⟨v, _ | q⟩ <;> simp

@[simp] theorem fatalInside_veiled (message : String) :
    (veil.on w).fatalInside message = veil.on (w.fatalInside message) := by
  rw [fatalInside, reportFatal_veiled]
  exact abort_veiled veil _

/-! ## 3. Handles -/

@[simp] theorem deallocate_veiled (a : Allocator) (b : Block) :
    (veil.on w).deallocate a b = veil.on (w.deallocate a b) := by
  cases a <;> simp [deallocate]

@[simp] theorem dropTag_veiled (tag : Option String) :
    (veil.on w).dropTag tag = veil.on (w.dropTag tag) := by
  cases tag <;> simp [dropTag]

@[simp] theorem uncount_veiled : (veil.on w).uncount = veil.on w.uncount := by
  unfold uncount
  rw [veil.on_live]
  exact congrArg (World.mk · w.thread) (veil.setLive w.process _).symm

@[simp] theorem dismantle_veiled (f : Fiber) :
    (veil.on w).dismantle f = veil.on (w.dismantle f) := by
  unfold dismantle
  split <;> simp

@[simp] theorem destroy_veiled (f : Fiber) :
    (veil.on w).destroy f = veil.under (w.destroy f) := by
  unfold destroy
  cases f.destructionFault? <;> cases f.pending <;> simp

@[simp] theorem release_veiled (ids : List FiberId) :
    (veil.on w).release ids = veil.on (w.release ids) := by
  fun_induction World.release w ids with
  | case1 w => rw [release]
  | case2 w id rest missing ih => rw [release_of_none (veil.on_thread w ▸ missing), ih]
  | case3 w id rest f found last destroyed ih =>
    rw [release_of_last (veil.on_thread w ▸ found) last, destroy_veiled]
    exact ih
  | case4 w id rest f found more ih =>
    rw [release_of_more (veil.on_thread w ▸ found) more]
    exact ih

@[simp] theorem dropCallback_veiled (tag : Option String) (keep : List FiberId) :
    (veil.on w).dropCallback tag keep = veil.on (w.dropCallback tag keep) := by
  simp [dropCallback]

/-! ## 4. Tunables -/

section

variable {veil : Veil} (shows : veil.ShowsTunables)
include shows

theorem registry_veiled : (veil.on w).process.registry = w.process.registry :=
  shows.registry _

theorem withRegistry_veiled (r : Config.Registry) :
    (veil.on w).withRegistry r = veil.on (w.withRegistry r) :=
  congrArg (World.mk · w.thread) (shows.setRegistry w.process r).symm

theorem lookup_veiled (name : String) (default : Config.Value) (description : String) :
    (veil.on w).lookup name default description = veil.under (w.lookup name default description) := by
  unfold lookup
  rw [registry_veiled w shows]
  split <;> simp [withRegistry_veiled w shows]

theorem store_veiled (name : String) (value : Config.Value) :
    (veil.on w).store name value = veil.on (w.store name value) := by
  rw [store, store, registry_veiled w shows, withRegistry_veiled w shows]

theorem textOf_veiled (name : String) : (veil.on w).textOf name = w.textOf name := by
  rw [textOf, textOf, registry_veiled w shows]

theorem lookupVar_veiled (name : String) (default : Config.Value) (description : String) :
    (veil.on w).lookupVar name default description =
      veil.under (w.lookupVar name default description) := by
  unfold lookupVar
  rw [lookup_veiled w shows]
  rcases w.lookup name default description with ⟨v, e | var⟩ <;> rfl

theorem describeVar_veiled (name : String) : (veil.on w).describeVar name = w.describeVar name := by
  rw [describeVar, describeVar, registry_veiled w shows]

theorem getVar_veiled (kind : Config.Kind) (name : String) :
    (veil.on w).getVar kind name = w.getVar kind name := by
  rw [getVar, getVar, registry_veiled w shows]

theorem sameVar_veiled (kind : Config.Kind) (name other : String) :
    (veil.on w).sameVar kind name other = w.sameVar kind name other := by
  rw [sameVar, sameVar, registry_veiled w shows]

theorem debugVar_veiled (kind : Config.Kind) (name : String) :
    (veil.on w).debugVar kind name = w.debugVar kind name := by
  rw [debugVar, debugVar, registry_veiled w shows]

theorem assignVar_veiled (name : String) (value : Config.Value) :
    (veil.on w).assignVar name value = veil.under (w.assignVar name value) := by
  unfold assignVar
  rw [registry_veiled w shows]
  split
  · simp only [store_veiled w shows, textOf_veiled _ shows, Veil.under_mk]
  · rfl

theorem parseVar_veiled (name text : String) :
    (veil.on w).parseVar name text = veil.under (w.parseVar name text) := by
  unfold parseVar
  rw [registry_veiled w shows]
  split
  · rfl
  · split <;> simp only [store_veiled w shows, textOf_veiled _ shows, Veil.under_mk]

theorem stageVar_veiled (name text : String) (apply : Bool) :
    (veil.on w).stageVar name text apply = veil.under (w.stageVar name text apply) := by
  unfold stageVar
  rw [registry_veiled w shows]
  split
  · rfl
  · simp only [textOf_veiled w shows]
    split
    · rfl
    · cases apply <;> simp [store_veiled w shows, textOf_veiled _ shows]

theorem visitAll_veiled (register : Option String) (vars : List Config.Var) :
    (veil.on w).visitAll register vars = veil.under (w.visitAll register vars) := by
  induction vars generalizing w with
  | nil => rfl
  | cons v rest ih =>
    cases register <;>
      simp [visitAll, ih, Veil.under, textOf_veiled w shows, lookup_veiled w shows]

theorem visitVars_veiled (register : Option String) :
    (veil.on w).visitVars register = veil.under (w.visitVars register) := by
  simp [visitVars, Veil.under, registry_veiled w shows, visitAll_veiled w shows]

theorem loadDocument_veiled (source : String) :
    (veil.on w).loadDocument source = veil.under (w.loadDocument source) := by
  have logged : ∀ (ss : List Config.Registry.Staged) (w : World),
      ss.foldl (fun w s => w.log (.configUpdated s.name s.text)) (veil.on w) =
        veil.on (ss.foldl (fun w s => w.log (.configUpdated s.name s.text)) w) := by
    intro ss
    induction ss with
    | nil => exact fun _ => rfl
    | cons s rest ih =>
      intro w
      rw [List.foldl_cons, log_veiled, ih, List.foldl_cons]
  unfold loadDocument
  rw [registry_veiled w shows]
  split
  · rfl
  · split
    · rfl
    · simp only [withRegistry_veiled w shows, logged, Veil.under_mk]

end

section

variable {veil : Veil} (shows : veil.Shows)
include shows

theorem withDefaultSize_veiled (d : DefaultSize) :
    (veil.on w).withDefaultSize d = veil.on (w.withDefaultSize d) :=
  congrArg (World.mk · w.thread) (shows.setDefaultSize w.process d).symm

theorem bindDefaultSize_veiled : (veil.on w).bindDefaultSize = veil.under w.bindDefaultSize := by
  unfold bindDefaultSize
  rw [lookup_veiled w shows.toShowsTunables]
  rcases w.lookup stackSizeName stackSizeDefault "fiber stack size" with ⟨v, e | var⟩
  · simp only [Veil.under_mk, report_veiled]
    generalize v.report _ = r
    rcases r with ⟨u, _ | q⟩ <;> simp [withDefaultSize_veiled u shows]
  · simp [withDefaultSize_veiled v shows]

theorem defaultSize_veiled : (veil.on w).defaultSize = veil.under w.defaultSize := by
  have bound : (veil.on w).boundSize = w.boundSize := by
    rw [boundSize, boundSize, registry_veiled w shows.toShowsTunables]
  have same : (veil.on w).process.defaultSize = w.process.defaultSize := shows.defaultSize _
  unfold World.defaultSize
  rw [same, bound, bindDefaultSize_veiled w shows]
  split <;> rfl

end

/-! ## 5. Creating -/

@[simp] theorem count_veiled : (veil.on w).count = veil.under w.count := by
  have counted : veil.on w.count.1 = { veil.on w with process :=
      { (veil.on w).process with
        nextId := w.process.nextId + 1, live := w.process.live + 1 } } := by
    refine congrArg (World.mk · w.thread) ?_
    exact (veil.setLive { w.process with nextId := w.process.nextId + 1 } _).trans
      (congrArg (fun p : Process => { p with live := w.process.live + 1 })
        (veil.setNextId w.process _))
  rw [Veil.under, counted, count, veil.on_live, veil.on_nextId]
  rfl

@[simp] theorem currentFiber_veiled : (veil.on w).currentFiber = veil.under w.currentFiber := by
  unfold currentFiber
  rw [veil.on_thread]
  split
  · rfl
  · split
    · rfl
    · rcases eq : w.count with ⟨v, id⟩
      simp [eq]

@[simp] theorem fetch_veiled (f : FiberRef) : (veil.on w).fetch f = veil.under (w.fetch f) := by
  cases f with
  | slot name => rfl
  | current => simp [fetch, Veil.under]

@[simp] theorem hold_veiled (id : FiberId) : (veil.on w).hold id = veil.on (w.hold id) := rfl

@[simp] theorem holdAll_veiled (fs : List FiberRef) :
    (veil.on w).holdAll fs = veil.under (w.holdAll fs) := by
  induction fs generalizing w with
  | nil => rfl
  | cons f rest ih =>
    unfold holdAll
    rw [fetch_veiled]
    rcases w.fetch f with ⟨v, _ | id⟩
    · exact ih v
    · simp [ih, Veil.under]

@[simp] theorem recordAlloc_veiled (a : Allocator) (size : Nat) :
    (veil.on w).recordAlloc a size = veil.on (w.recordAlloc a size) := by
  cases a <;> simp [recordAlloc]

@[simp] theorem handOut_veiled (a : Allocator) (size : Nat) :
    (veil.on w).handOut a size = veil.under (w.handOut a size) := rfl

@[simp] theorem allocate_veiled (a : Allocator) (size : Nat) :
    (veil.on w).allocate a size = veil.under (w.allocate a size) := by
  unfold allocate
  rw [recordAlloc_veiled]
  cases a.grant size with
  | ok n => simp [Veil.under]
  | error e =>
    simp only
    split <;> simp

/-- Only zero asks for the default size. -/
theorem stackSize_veiled {asked : Nat} (ok : veil.Shows ∨ asked ≠ 0) :
    (veil.on w).stackSize asked = veil.under (w.stackSize asked) := by
  unfold stackSize
  split
  · rename_i zero
    exact defaultSize_veiled w (ok.resolve_right (absurd zero))
  · rfl

@[simp] theorem allocateStack_veiled (a : Allocator) (size : Nat) :
    (veil.on w).allocateStack a size = veil.under (w.allocateStack a size) := by
  unfold allocateStack
  split <;> simp

@[simp] theorem insertTask_veiled (a : Allocator) (b : Block) (asked : Nat) (cb : Callback) :
    (veil.on w).insertTask a b asked cb = veil.under (w.insertTask a b asked cb) := by
  simp [insertTask, Veil.under]

theorem createTask_veiled (a : Allocator) {asked : Nat} (ok : veil.Shows ∨ asked ≠ 0)
    (cb : Callback) :
    (veil.on w).createTask a asked cb = veil.under (w.createTask a asked cb) := by
  unfold createTask
  rw [stackSize_veiled veil w ok]
  rcases w.stackSize asked with ⟨v, q | size⟩
  · simp
  · simp only [Veil.under_mk, allocateStack_veiled]
    rcases v.allocateStack a size with ⟨u, e | b⟩ <;> simp [Veil.under]

/-! ## 6. Switches -/

@[simp] theorem setCurrent_veiled (id : FiberId) :
    (veil.on w).setCurrent id = veil.on (w.setCurrent id) := rfl

@[simp] theorem parkMain_veiled : (veil.on w).parkMain = veil.on w.parkMain := by
  unfold parkMain
  rw [veil.on_thread]
  split
  · rfl
  · exact fatalInside_veiled ..

@[simp] theorem enter_veiled (f : Fiber) : (veil.on w).enter f = veil.on (w.enter f) := by
  unfold enter
  split <;> simp

@[simp] theorem switchTo_veiled (f : Fiber) (q : Pending) :
    (veil.on w).switchTo f q = veil.on (w.switchTo f q) := by
  unfold switchTo
  simp only [log_veiled, onThread_veiled, setCurrent_veiled]
  split <;> simp

@[simp] theorem mainFrames_veiled : (veil.on w).mainFrames = w.mainFrames := rfl

@[simp] theorem switchBack_veiled (id : FiberId) (context : Context) :
    (veil.on w).switchBack id context = veil.under (w.switchBack id context) := by
  unfold switchBack
  rw [mainFrames_veiled]
  split <;> rfl

@[simp] theorem resumeRefusal_veiled (f : Fiber) :
    (veil.on w).resumeRefusal f = veil.under (w.resumeRefusal f) := by
  unfold resumeRefusal
  split
  · rfl
  · rw [currentFiber_veiled]
    rcases w.currentFiber with ⟨v, id⟩
    simp only [Veil.under_mk, veil.on_thread]
    by_cases isMain : v.thread.main = some id <;> simp [isMain]

@[simp] theorem reject_veiled (m : Manner) (id : FiberId) (e : FiberError) :
    (veil.on w).reject m id e = veil.under (w.reject m id e) := by
  cases m <;> simp [reject]

@[simp] theorem resume_veiled (m : Manner) (f : Fiber) (q : Pending) :
    (veil.on w).resume m f q = veil.under (w.resume m f q) := by
  unfold resume
  rw [resumeRefusal_veiled]
  rcases w.resumeRefusal f with ⟨v, _ | e⟩ <;> simp

@[simp] theorem suspend_veiled (m : Manner) (f : Fiber) (next : Parking) (q : Pending) :
    (veil.on w).suspend m f next q = veil.under (w.suspend m f next q) := by
  unfold suspend
  rw [veil.on_thread]
  split
  · simp
  · simp only [log_veiled, onThread_veiled, ← apply_ite veil.on, switchBack_veiled, veil.on_thread]
    generalize World.switchBack _ _ _ = r
    rcases r with ⟨v, _ | e⟩ <;> simp

@[simp] theorem rebind_veiled (f : Fiber) (cb : Callback) :
    (veil.on w).rebind f cb = veil.on (w.rebind f cb) := by
  unfold rebind
  cases f.pending <;> simp

@[simp] theorem reset_veiled (m : Manner) (f : Fiber) (cb : Callback) :
    (veil.on w).reset m f cb = veil.under (w.reset m f cb) := by
  unfold reset
  split <;> simp

@[simp] theorem reportFault_veiled (id : FiberId) (e : Finish) :
    (veil.on w).reportFault id e = veil.on (w.reportFault id e) := by
  cases e with
  | returned v => rfl
  | faulted q =>
    simp only [reportFault, veil.on_thread, report_veiled]
    generalize w.report _ = r
    rcases r with ⟨v, _ | q'⟩ <;> simp

@[simp] theorem finish_veiled (id : FiberId) (tag : Option String) (keep : List FiberId)
    (e : Finish) : (veil.on w).finish id tag keep e = veil.on (w.finish id tag keep e) := by
  unfold finish
  simp only [dropCallback_veiled, onThread_veiled, reportFault_veiled, release_veiled, switchBack_veiled]
  generalize World.switchBack _ _ _ = r
  rcases r with ⟨v, _ | why⟩ <;> simp

/-! ## 7. Operations -/

end World

/-- The piece shows a tunable. -/
def Piece.tunes : Piece → Bool
  | .tunable _ => true
  | _ => false

/-- The operation looks at the tunables. -/
def Op.tunes : Op → Bool
  | .print line => line.any Piece.tunes
  | .lookup _ _ _ | .describe _ | .get _ _ | .assign _ _ | .parse _ _ | .stage _ _ _
  | .sameVar _ _ _ | .debugVar _ _ | .visit _ | .load _ => true
  | _ => false

/-- The operation asks for a stack of the default size. -/
def Op.sizes : Op → Bool
  | .create _ size _ _ _ _ | .entry size _ _ => size = 0
  | _ => false

/-- The veil shows what the operation looks at. -/
structure Veil.ShowsTo (veil : Veil) (op : Op) : Prop where
  tunables : op.tunes = true → veil.ShowsTunables
  sizes : op.sizes = true → veil.Shows

theorem Veil.Shows.to {veil : Veil} (shows : veil.Shows) (op : Op) : veil.ShowsTo op :=
  ⟨fun _ => shows.toShowsTunables, fun _ => shows⟩

theorem Veil.ShowsTo.of_quiet {op : Op} (quiet : op.tunes = false) (plain : op.sizes = false)
    (veil : Veil) : veil.ShowsTo op :=
  ⟨fun tunes => by simp [quiet] at tunes, fun sizes => by simp [plain] at sizes⟩

namespace World

variable (veil : Veil) (w : World)

@[simp] theorem letGo_veiled (id : FiberId) (r : World × Outcome) :
    letGo id (veil.under r) = veil.under (letGo id r) := by
  obtain ⟨v, o⟩ := r
  cases o <;> simp [letGo]

theorem onFiber_veiled (f : FiberRef) {act : World → Fiber → World × Outcome}
    (acts : ∀ w fib, act (veil.on w) fib = veil.under (act w fib)) :
    (veil.on w).onFiber f act = veil.under (w.onFiber f act) := by
  unfold onFiber
  rw [fetch_veiled]
  rcases w.fetch f with ⟨v, _ | id⟩
  · rfl
  · simp only [Veil.under_mk, hold_veiled, veil.on_thread]
    split
    · rfl
    · rw [acts, letGo_veiled]

theorem onHeld_veiled (id : FiberId) {act act' : Fiber → World × Outcome}
    (acts : ∀ fib, act' fib = veil.under (act fib)) :
    (veil.on w).onHeld id act' = veil.under (w.onHeld id act) := by
  unfold onHeld
  rw [veil.on_thread]
  split
  · rfl
  · rw [acts, letGo_veiled]

@[simp] theorem answer_veiled (r : Reply) : (veil.on w).answer r = veil.under (w.answer r) := rfl

@[simp] theorem answered_veiled (r : World × Reply) :
    answered (veil.under r) = veil.under (answered r) := rfl

@[simp] theorem putSlot_veiled (name : SlotName) (id : FiberId) :
    (veil.on w).putSlot name id = veil.on (w.putSlot name id) := by
  simp [putSlot]

@[simp] theorem dropSlot_veiled (name : SlotName) :
    (veil.on w).dropSlot name = veil.under (w.dropSlot name) := by
  unfold dropSlot
  rw [veil.on_thread]
  split <;> simp

theorem create_veiled (slot : SlotName) {size : Nat} (ok : veil.Shows ∨ size ≠ 0) (a : Allocator)
    (cb : Callback) : (veil.on w).create slot size a cb = veil.under (w.create slot size a cb) := by
  unfold create
  rw [createTask_veiled veil w a ok]
  rcases w.createTask a size cb with ⟨v, (e | q) | id⟩ <;> simp

@[simp] theorem driveOn_veiled (f : Fiber) (done max : Nat) :
    (veil.on w).driveOn f done max = veil.under (w.driveOn f done max) := by
  unfold driveOn
  split <;> simp

@[simp] theorem entryOn_veiled (f : Fiber) (size : Nat) (shape : EntryShape) (result : Option Datum) :
    (veil.on w).entryOn f size shape result = veil.under (w.entryOn f size shape result) := by
  unfold entryOn
  split
  · split <;> rfl
  · simp

theorem enterMain_veiled {size : Nat} (ok : veil.Shows ∨ size ≠ 0) (shape : EntryShape)
    (body : List Op) :
    (veil.on w).enterMain size shape body = veil.under (w.enterMain size shape body) := by
  unfold enterMain
  simp only [currentFiber_veiled, Veil.under, createTask_veiled veil _ .heap ok]
  rcases w.currentFiber.1.createTask .heap size ⟨body, none, []⟩ with ⟨v, (e | q) | id⟩
  · rfl
  · rfl
  · simp only [veil.on_thread]
    split
    · rfl
    · rw [entryOn_veiled, letGo_veiled]
      rfl

@[simp] theorem allocBlock_veiled (name : String) (a : Allocator) (size : Nat) :
    (veil.on w).allocBlock name a size = veil.under (w.allocBlock name a size) := by
  unfold allocBlock
  rw [allocate_veiled]
  rcases w.allocate a size with ⟨v, e | b⟩ <;> rfl

@[simp] theorem freeBlock_veiled (name : String) (a : Allocator) :
    (veil.on w).freeBlock name a = veil.under (w.freeBlock name a) := by
  unfold freeBlock
  rw [veil.on_thread]
  split <;> simp

@[simp] theorem saveBlock_veiled (name : String) (f : Fiber) :
    (veil.on w).saveBlock name f = veil.under (w.saveBlock name f) := by
  unfold saveBlock
  split <;> rfl

@[simp] theorem isBlock_veiled (name : String) (f : Fiber) :
    (veil.on w).isBlock name f = veil.under (w.isBlock name f) := by
  unfold isBlock
  rw [veil.on_thread]
  split <;> rfl

@[simp] theorem spawn_veiled (kind : ThreadKind) (body : List Op) :
    (veil.on w).spawn kind body = veil.under (w.spawn kind body) := by
  unfold spawn
  split
  · rfl
  · cases kind <;> simp

@[simp] theorem startDemo_veiled (d : Demo) :
    (veil.on w).startDemo d = veil.under (w.startDemo d) := by
  unfold startDemo
  rw [veil.on_setProgram]
  rfl

@[simp] theorem pieceOf_veiled (f : FiberRef) (text : Fiber → String) :
    (veil.on w).pieceOf f text = veil.under (w.pieceOf f text) := by
  unfold pieceOf
  rw [fetch_veiled]
  rcases w.fetch f with ⟨v, _ | id⟩ <;> rfl

theorem pieceText_veiled {piece : Piece} (ok : veil.ShowsTunables ∨ piece.tunes = false) :
    (veil.on w).pieceText piece = veil.under (w.pieceText piece) := by
  cases piece with
  | tunable name => simp [pieceText, textOf_veiled w (ok.resolve_right nofun)]
  | _ => simp [pieceText]

theorem lineText_veiled {line : List Piece}
    (ok : veil.ShowsTunables ∨ line.any Piece.tunes = false) :
    (veil.on w).lineText line = veil.under (w.lineText line) := by
  induction line generalizing w with
  | nil => rfl
  | cons piece rest ih =>
    have first : veil.ShowsTunables ∨ piece.tunes = false :=
      ok.imp_right fun quiet => by simp_all
    have others : veil.ShowsTunables ∨ rest.any Piece.tunes = false :=
      ok.imp_right fun quiet => by simp_all
    simp [lineText, pieceText_veiled veil w first, ih _ others, Veil.under]

@[simp] theorem noteWorker_veiled (kind : ThreadKind) (e : Ending) :
    (veil.on w).noteWorker kind e = veil.on (w.noteWorker kind e) := by
  cases e <;> simp [noteWorker]

theorem perform_veiled {op : Op} (ok : veil.ShowsTo op) :
    (veil.on w).perform op = veil.under (w.perform op) := by
  cases op with
  | create slot size a body tag keep =>
    have ok : veil.Shows ∨ size ≠ 0 := by
      by_cases zero : size = 0
      · exact .inl (ok.sizes (decide_eq_true zero))
      · exact .inr zero
    simp [perform, Veil.under, create_veiled veil _ slot ok]
  | entry size shape body =>
    have ok : veil.Shows ∨ size ≠ 0 := by
      by_cases zero : size = 0
      · exact .inl (ok.sizes (decide_eq_true zero))
      · exact .inr zero
    exact enterMain_veiled veil w ok shape body
  | resume m f | pause m f | reset m f body tag keep | state f | info f | clone f slot
  | drive f max | saveBlock f name | isBlock f name =>
    rw [perform, perform]
    exact onFiber_veiled veil w f fun _ _ => by simp [Veil.under]
  | same f f' =>
    rw [perform, perform]
    exact onFiber_veiled veil w f fun v fib => onFiber_veiled veil v f' fun _ _ => rfl
  | park q =>
    simp only [perform, currentFiber_veiled]
    rcases w.currentFiber with ⟨v, id⟩
    simp only [Veil.under_mk, veil.on_thread]
    split <;> simp
  | loop times body =>
    simp only [perform]
    split <;> rfl
  | report text =>
    simp only [perform, report_veiled]
    rcases w.report text with ⟨v, _ | q⟩ <;> rfl
  | setHook hook => exact congrArg (fun v => (v, Outcome.done .nothing)) (veil.on_setHook w hook)
  | print line =>
    have ok : veil.ShowsTunables ∨ line.any Piece.tunes = false := by
      cases quiet : line.any Piece.tunes with
      | true => exact .inl (ok.tunables quiet)
      | false => exact .inr rfl
    simp [perform, Veil.under, lineText_veiled veil w ok]
  | requireJoined =>
    rw [perform, perform, veil.on_program]
    cases w.process.program.bind Program.failed <;> rfl
  | lookup name default description =>
    rw [perform, perform, lookupVar_veiled w (ok.tunables rfl), answered_veiled]
  | assign name value =>
    rw [perform, perform, assignVar_veiled w (ok.tunables rfl), answered_veiled]
  | parse name text =>
    rw [perform, perform, parseVar_veiled w (ok.tunables rfl), answered_veiled]
  | stage name text apply =>
    rw [perform, perform, stageVar_veiled w (ok.tunables rfl), answered_veiled]
  | visit register =>
    rw [perform, perform, visitVars_veiled w (ok.tunables rfl), answered_veiled]
  | load source =>
    rw [perform, perform, loadDocument_veiled w (ok.tunables rfl), answered_veiled]
  | describe name =>
    rw [perform, perform, describeVar_veiled w (ok.tunables rfl), answer_veiled]
  | get kind name =>
    rw [perform, perform, getVar_veiled w (ok.tunables rfl), answer_veiled]
  | sameVar kind name other =>
    rw [perform, perform, sameVar_veiled w (ok.tunables rfl), answer_veiled]
  | debugVar kind name =>
    rw [perform, perform, debugVar_veiled w (ok.tunables rfl), answer_veiled]
  | tick => exact congrArg (fun v => (v, Outcome.next)) (onProgram_veiled veil w _)
  | _ => simp [perform]

@[simp] theorem carryOn_veiled (q : Pending) :
    (veil.on w).carryOn q = veil.under (w.carryOn q) := by
  cases q with
  | resume m id | pause m id => exact onHeld_veiled veil w id fun _ => rfl
  | drive id done max => exact onHeld_veiled veil w id fun _ => driveOn_veiled ..
  | entry size shape id result => exact onHeld_veiled veil w id fun _ => entryOn_veiled ..
  | park q => rfl
  | join kind ending => simp [carryOn, answer]

/-! ## 8. Steps -/

@[simp] theorem goOn_veiled (k : List Frame) : (veil.on w).goOn k = veil.on (w.goOn k) := rfl

@[simp] theorem endDemo_veiled (d : Demo) (panic : Option Payload) :
    (veil.on w).endDemo d panic = veil.on (w.endDemo d panic) := by
  unfold endDemo
  simp only [veil.on_thread, onThread_veiled, release_veiled, veil.on_program]
  generalize (w.onThread _).release _ = v
  exact (congrArg (fun v => emit v _) (veil.on_setProgram v none)).trans (emit_veiled ..)

@[simp] theorem unwind_veiled (q : Payload) : (veil.on w).unwind q = veil.under (w.unwind q) := by
  unfold unwind
  rw [veil.on_thread]
  split <;> simp

@[simp] theorem leave_veiled (v : Datum) : (veil.on w).leave v = veil.under (w.leave v) := by
  unfold leave
  rw [veil.on_thread]
  split <;> simp

@[simp] theorem conclude_veiled (name : String) (r : Reply) :
    (veil.on w).conclude name r = veil.under (w.conclude name r) := by
  unfold conclude
  rw [veil.on_program]
  split
  · simp
  · split <;> simp

@[simp] theorem settle_veiled (name : String) (r : World × Outcome) :
    settle name (veil.under r) = veil.under (settle name r) := by
  obtain ⟨v, o⟩ := r
  cases o <;> simp [settle]

/-- The operation that the next step begins. -/
def next? (w : World) : Option Op :=
  match w.thread.frames with
  | .ops (op :: _) :: _ => some op
  | _ => none

/-- A step does the same under a veil. -/
theorem step_veiled (ok : ∀ op, w.next? = some op → veil.ShowsTo op) :
    (veil.on w).step = veil.under w.step := by
  unfold step
  rw [veil.on_thread]
  split
  · rfl
  · rename_i op rest k frames
    have shows : veil.ShowsTo op := ok op (by simp only [next?, frames])
    rw [goOn_veiled, perform_veiled veil _ shows, settle_veiled]
  all_goals simp

theorem releaseSlots_veiled : (veil.on w).releaseSlots = veil.on w.releaseSlots := by
  simp [releaseSlots]

/-- What a thread leaves behind is the same under a veil. -/
theorem retire_veiled : (veil.on w).retire = veil.on w.retire := by
  unfold retire
  simp only [veil.on_thread, onThread_veiled, release_veiled]
  exact congrArg (World.mk · _) (veil.forget _ _).symm

end World

end FiberEngine
