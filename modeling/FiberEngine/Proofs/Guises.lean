/-
FiberEngine.Proofs.Guises — what the engine does without a look at suspended code.

Most operations do not depend on the code that runs or waits: they read states,
handles and slots, and of a context only whether there is one. A `Guise` puts
other code into the places where a thread keeps code, and twins are two worlds of
which one is the other in a guise. Their traces show the same, but for the
answers to the operations by which one fiber suspends itself.

Here are the functions that keep two worlds twins whatever the guise is. An
answer that they compute is the same for both.
-/
import FiberEngine.World.Create

namespace FiberEngine

/-! ## 1. Guises -/

/-- Other code for a thread: for what runs, for what is parked in the context of a
fiber, and for the callback that a fiber has not entered. -/
structure Guise where
  frames : List Frame → List Frame
  parked : FiberId → List Frame → List Frame
  body : FiberId → List Op → List Op

namespace Guise

/-- No disguise. -/
def plain : Guise :=
  ⟨id, fun _ => id, fun _ => id⟩

def context (g : Guise) (id : FiberId) : Context → Context
  | .fresh => .fresh
  | .suspended k => .suspended (g.parked id k)
  | .spent => .spent

def callback (g : Guise) (id : FiberId) (cb : Callback) : Callback :=
  { cb with body := g.body id cb.body }

def fiber (g : Guise) (f : Fiber) : Fiber :=
  { f with context := f.context.map (g.context f.id), pending := f.pending.map (g.callback f.id) }

def thread (g : Guise) (t : Thread) : Thread :=
  { t with frames := g.frames t.frames, fibers := t.fibers.map g.fiber }

/-- The guise leaves callbacks as they are. -/
def KeepsBodies (g : Guise) : Prop :=
  ∀ id body, g.body id body = body

variable {g : Guise}

theorem plain_fiber (f : Fiber) : plain.fiber f = f := by
  have context : ∀ c, plain.context f.id c = c := fun c => by cases c <;> rfl
  have callback : ∀ cb, plain.callback f.id cb = cb := fun _ => rfl
  simp [fiber, funext context, funext callback]

@[simp]
theorem plain_thread (t : Thread) : plain.thread t = t := by
  have fibers : t.fibers.map plain.fiber = t.fibers := by
    rw [funext plain_fiber, List.map_id']
  simp only [thread, fibers]
  rfl

/-- A guise of a changed fiber is the changed guise. -/
theorem update_thread (t : Thread) (id : FiberId) (c d : Fiber → Fiber)
    (same : ∀ f ∈ t.fibers, f.id = id → d (g.fiber f) = g.fiber (c f)) :
    (g.thread t).update id d = g.thread (t.update id c) := by
  simp only [thread, Thread.update, List.map_map]
  congr 1
  refine List.map_congr_left fun f mem => ?_
  change (if f.id = id then d (g.fiber f) else g.fiber f) = g.fiber (if f.id = id then c f else f)
  split
  · exact same f mem ‹_›
  · rfl

theorem setState_thread (t : Thread) (id : FiberId) (state : FiberState) :
    (g.thread t).setState id state = g.thread (t.setState id state) :=
  update_thread _ _ _ _ fun _ _ _ => rfl

theorem setContext_thread (t : Thread) (id : FiberId) {c : Option Context}
    (same : ∀ f, c.map (g.context f) = c) :
    (g.thread t).setContext id c = g.thread (t.setContext id c) :=
  update_thread _ _ _ _ fun f _ _ => by simp [fiber, same]

theorem setMainState_thread (t : Thread) (state : FiberState) :
    (g.thread t).setMainState state = g.thread (t.setMainState state) := by
  have main : (g.thread t).main = t.main := rfl
  unfold Thread.setMainState
  rw [main]
  split
  · exact setState_thread _ _ _
  · rfl

theorem fiber?_thread (t : Thread) (id : FiberId) :
    (g.thread t).fiber? id = (t.fiber? id).map g.fiber := by
  simp only [thread, Thread.fiber?, List.find?_map]
  rfl

theorem erase_thread (t : Thread) (id : FiberId) :
    (g.thread t).erase id = g.thread (t.erase id) := by
  simp only [thread, Thread.erase, List.filter_map]
  rfl

theorem insert_thread (t : Thread) {f : Fiber} (same : g.fiber f = f) :
    (g.thread t).insert f = g.thread (t.insert f) := by
  simp [thread, Thread.insert, same]

end Guise

/-! ## 2. Twins -/

/-- The entry answers an operation by which a fiber suspended itself for later. -/
def Event.parks : Event → Bool
  | .completed op .nothing => op == (Op.park .ready).name || op == (Op.park .hold).name
  | _ => false

/-- What a trace shows, but for the answers to the operations by which a fiber
suspended itself. -/
def shownBut (x : FiberId) (trace : Array Entry) : List (FiberId × Event) :=
  (trace.toList.filter fun e => !(e.current == x && e.event.parks)).map fun e =>
    (e.current, e.event)

theorem shownBut_push {x : FiberId} {trace trace' : Array Entry} {e e' : Entry}
    (same : shownBut x trace' = shownBut x trace) (current : e'.current = e.current)
    (event : e'.event = e.event) : shownBut x (trace'.push e') = shownBut x (trace.push e) := by
  simp only [shownBut, Array.toList_push, List.filter_append, List.map_append] at same ⊢
  rw [same]
  simp only [List.filter_cons, current, event, List.filter_nil]
  split <;> simp [current, event]

/-- An answer of the fiber is not shown. -/
theorem shownBut_hidden {x : FiberId} (trace : Array Entry) {e : Entry} (mine : e.current = x)
    (parks : e.event.parks) : shownBut x (trace.push e) = shownBut x trace := by
  simp [shownBut, mine, parks]

/-- A process without its trace. -/
def Process.untraced (p : Process) : Process :=
  { p with trace := #[] }

/-- Two worlds with the same fibers and the same process, of which one has other
code. Their traces show the same, but for the suspensions of one fiber. -/
structure Twins (x : FiberId) (g : Guise) (w w' : World) : Prop where
  thread : w'.thread = g.thread w.thread
  process : w'.process.untraced = w.process.untraced
  trace : shownBut x w'.process.trace = shownBut x w.process.trace

/-- Twins with the same answer. -/
inductive Agree {α : Type} (x : FiberId) (g : Guise) : World × α → World × α → Prop
  | intro {w w' : World} {a : α} (twins : Twins x g w w') : Agree x g (w, a) (w', a)

variable {x : FiberId} {g : Guise} {w w' : World}

theorem Agree.twins {α : Type} {r r' : World × α} (h : Agree x g r r') : Twins x g r.1 r'.1 := by
  cases h
  assumption

theorem Agree.answer {α : Type} {r r' : World × α} (h : Agree x g r r') : r'.2 = r.2 := by
  cases h
  rfl

theorem Agree.of {α : Type} {r r' : World × α} (twins : Twins x g r.1 r'.1)
    (answer : r'.2 = r.2) : Agree x g r r' := by
  obtain ⟨v, a⟩ := r
  obtain ⟨v', a'⟩ := r'
  obtain rfl : a' = a := answer
  exact .intro twins

namespace Twins

/-- A change of the process that does not touch the trace. -/
theorem withProcess (h : Twins x g w w') (change : Process → Process)
    (blind : ∀ p, (change p).untraced = change p.untraced := by intro; rfl)
    (keeps : ∀ p, (change p).trace = p.trace := by intro; rfl) :
    Twins x g { w with process := change w.process } { w' with process := change w'.process } where
  thread := h.thread
  process := by
    change (change w'.process).untraced = (change w.process).untraced
    rw [blind, blind, h.process]
  trace := by
    change shownBut x (change w'.process).trace = shownBut x (change w.process).trace
    rw [keeps, keeps, h.trace]

theorem onThread (h : Twins x g w w') {c d : Thread → Thread}
    (same : d (g.thread w.thread) = g.thread (c w.thread)) :
    Twins x g (w.onThread c) (w'.onThread d) :=
  ⟨(congrArg d h.thread).trans same, h.process, h.trace⟩

/-! ### What both worlds read -/

theorem level (h : Twins x g w w') : w'.process.level = w.process.level :=
  (congrArg Process.level h.process :)

theorem hook (h : Twins x g w w') : w'.process.hook = w.process.hook :=
  (congrArg Process.hook h.process :)

theorem halted (h : Twins x g w w') : w'.process.halted = w.process.halted :=
  (congrArg Process.halted h.process :)

theorem program (h : Twins x g w w') : w'.process.program = w.process.program :=
  (congrArg Process.program h.process :)

theorem registry (h : Twins x g w w') : w'.process.registry = w.process.registry :=
  (congrArg Process.registry h.process :)

theorem defaultSize (h : Twins x g w w') : w'.process.defaultSize = w.process.defaultSize :=
  (congrArg Process.defaultSize h.process :)

theorem nextId (h : Twins x g w w') : w'.process.nextId = w.process.nextId :=
  (congrArg Process.nextId h.process :)

theorem live (h : Twins x g w w') : w'.process.live = w.process.live :=
  (congrArg Process.live h.process :)

theorem current (h : Twins x g w w') : w'.thread.current = w.thread.current :=
  (congrArg Thread.current h.thread :)

theorem main (h : Twins x g w w') : w'.thread.main = w.thread.main :=
  (congrArg Thread.main h.thread :)

theorem slots (h : Twins x g w w') : w'.thread.slots = w.thread.slots :=
  (congrArg Thread.slots h.thread :)

theorem slot? (h : Twins x g w w') (name : SlotName) :
    w'.thread.slot? name = w.thread.slot? name :=
  congrArg (Slots.find? · name) h.slots

theorem block? (h : Twins x g w w') (name : String) :
    w'.thread.block? name = w.thread.block? name :=
  (congrArg (Thread.block? · name) h.thread :)

theorem name (h : Twins x g w w') : w'.thread.name = w.thread.name :=
  (congrArg Thread.name h.thread :)

theorem fiber? (h : Twins x g w w') (id : FiberId) :
    w'.thread.fiber? id = (w.thread.fiber? id).map g.fiber := by
  rw [h.thread, Guise.fiber?_thread]

theorem stateOf (h : Twins x g w w') (id : FiberId) : w'.stateOf id = w.stateOf id := by
  rw [World.stateOf, World.stateOf, h.fiber?]
  cases w.thread.fiber? id <;> rfl

end Twins

namespace World

/-! ## 3. Entries and reports -/

theorem emit_twins (h : Twins x g w w') (e : Event) : Twins x g (w.emit e) (w'.emit e) := by
  unfold emit
  rw [h.halted]
  split
  · exact h
  · exact ⟨h.thread, h.process, shownBut_push h.trace (congrArg (Option.getD · 0) h.current) rfl⟩

theorem log_twins (h : Twins x g w w') (n : Notice) : Twins x g (w.log n) (w'.log n) := by
  have span : w'.span? = w.span? := by
    rw [span?, span?, h.level, h.thread]
    rfl
  unfold log
  rw [h.level, span]
  split
  · exact emit_twins h _
  · exact h

theorem onProgram_twins (h : Twins x g w w') (change : Program → Program) :
    Twins x g (w.onProgram change) (w'.onProgram change) :=
  h.withProcess fun p => { p with program := p.program.map change }

theorem report_agree (h : Twins x g w w') (text : String) :
    Agree x g (w.report text) (w'.report text) := by
  unfold report
  rw [h.hook]
  split
  · exact .intro (log_twins h _)
  · exact .intro (emit_twins h _)
  · exact .intro (onProgram_twins h _)

theorem abort_twins (h : Twins x g w w') : Twins x g w.abort w'.abort := by
  have ended : ∀ {v v'}, Twins x g v v' →
      Twins x g { v with process := { v.process with halted := true } }
        { v' with process := { v'.process with halted := true } } := fun h =>
    h.withProcess fun p => { p with halted := true }
  unfold abort
  rw [h.program]
  split
  · exact ended (emit_twins (emit_twins h _) _)
  · exact ended (emit_twins h _)

theorem reportFatal_agree (h : Twins x g w w') (message : String) :
    Agree x g (w.reportFatal message) (w'.reportFatal message) := by
  unfold reportFatal
  rw [h.hook]
  split
  · exact .intro (onProgram_twins h _)
  · exact report_agree h _

theorem fatal_agree (h : Twins x g w w') (message : String) :
    Agree x g (w.fatal message) (w'.fatal message) := by
  have agree := reportFatal_agree h message
  unfold fatal
  generalize w.reportFatal message = r, w'.reportFatal message = r' at agree ⊢
  obtain @⟨v, v', _ | p, twins⟩ := agree
  · exact .intro (abort_twins twins)
  · exact .intro twins

theorem fatalInside_twins (h : Twins x g w w') (message : String) :
    Twins x g (w.fatalInside message) (w'.fatalInside message) :=
  abort_twins (reportFatal_agree h message).twins

/-! ## 4. Handles -/

theorem deallocate_twins (h : Twins x g w w') (a : Allocator) (b : Block) :
    Twins x g (w.deallocate a b) (w'.deallocate a b) := by
  cases a with
  | heap | exhausted | refusing => exact h
  | guarded =>
    unfold deallocate
    exact h.onThread rfl
  | counting | doubling => exact emit_twins (h.onThread (by rfl)) _

theorem dropTag_twins (h : Twins x g w w') (tag : Option String) :
    Twins x g (w.dropTag tag) (w'.dropTag tag) := by
  cases tag with
  | none => exact h
  | some tag => exact emit_twins h _

theorem dismantle_twins (h : Twins x g w w') (f : Fiber) :
    Twins x g (w.dismantle f) (w'.dismantle (g.fiber f)) := by
  have lease : (g.fiber f).lease = f.lease := rfl
  unfold dismantle
  rw [lease]
  split
  · exact log_twins (deallocate_twins h _ _) _
  · refine log_twins (h.onThread ?_) _
    change (if w.thread.current = some f.id then _ else _) = g.thread (if _ then _ else _)
    split <;> rfl

theorem destroy_agree (h : Twins x g w w') (f : Fiber) :
    Agree x g (w.destroy f) (w'.destroy (g.fiber f)) := by
  have erased : Twins x g (w.onThread fun t => t.erase f.id) (w'.onThread fun t => t.erase f.id) :=
    h.onThread (Guise.erase_thread _ _)
  have counted : Twins x g (w.onThread fun t => t.erase f.id).uncount
      (w'.onThread fun t => t.erase f.id).uncount :=
    erased.withProcess fun p => { p with live := p.live - 1 }
  have fault : (g.fiber f).destructionFault? = f.destructionFault? := by
    simp [Fiber.destructionFault?, Guise.fiber, Fiber.isMain]
  have pending : (g.fiber f).pending = f.pending.map (g.callback f.id) := rfl
  unfold destroy
  simp only [fault, pending]
  split
  · exact .intro (fatalInside_twins counted _)
  · cases f.pending with
    | none => exact .intro (dismantle_twins counted f)
    | some cb => exact .intro (dropTag_twins (dismantle_twins counted f) cb.tag)

theorem release_twins (h : Twins x g w w') (ids : List FiberId) :
    Twins x g (w.release ids) (w'.release ids) := by
  fun_induction World.release w ids generalizing w' with
  | case1 w =>
    rw [release]
    exact h
  | case2 w id rest missing ih =>
    have missing' : w'.thread.fiber? id = none := by rw [h.fiber?, missing, Option.map_none]
    rw [release_of_none missing']
    exact ih h
  | case3 w id rest f found last destroyed =>
    rename_i ih
    have found' : w'.thread.fiber? id = some (g.fiber f) := by rw [h.fiber?, found, Option.map_some]
    have agree := destroy_agree h f
    have same : (w'.destroy (g.fiber f)).2 = (w.destroy f).2 := agree.answer
    rw [release_of_last found' last, same]
    exact ih agree.twins
  | case4 w id rest f found more ih =>
    have found' : w'.thread.fiber? id = some (g.fiber f) := by rw [h.fiber?, found, Option.map_some]
    rw [release_of_more found' more]
    exact ih (h.onThread (Guise.update_thread _ _ _ _ fun _ _ _ => rfl))

theorem dropCallback_twins (h : Twins x g w w') (tag : Option String) (keep : List FiberId) :
    Twins x g (w.dropCallback tag keep) (w'.dropCallback tag keep) :=
  release_twins (dropTag_twins h tag) keep

/-! ## 5. Tunables -/

theorem withRegistry_twins (h : Twins x g w w') (r : Config.Registry) :
    Twins x g (w.withRegistry r) (w'.withRegistry r) :=
  h.withProcess fun p => { p with registry := r }

theorem lookup_agree (h : Twins x g w w') (name : String) (default : Config.Value)
    (description : String) :
    Agree x g (w.lookup name default description) (w'.lookup name default description) := by
  unfold lookup
  rw [h.registry]
  split
  · exact .intro (log_twins h _)
  · exact .intro (log_twins h _)
  · exact .intro (log_twins h _)
  · exact .intro (withRegistry_twins h _)

theorem store_twins (h : Twins x g w w') (name : String) (value : Config.Value) :
    Twins x g (w.store name value) (w'.store name value) := by
  rw [store, store, h.registry]
  exact withRegistry_twins h _

theorem textOf_twins (h : Twins x g w w') (name : String) : w'.textOf name = w.textOf name := by
  rw [textOf, textOf, h.registry]

theorem lookupVar_agree (h : Twins x g w w') (name : String) (default : Config.Value)
    (description : String) :
    Agree x g (w.lookupVar name default description) (w'.lookupVar name default description) := by
  have agree := lookup_agree h name default description
  unfold lookupVar
  generalize w.lookup name default description = r, w'.lookup name default description = r'
    at agree ⊢
  obtain @⟨v, v', e | v, twins⟩ := agree <;> exact .intro twins

theorem assignVar_agree (h : Twins x g w w') (name : String) (value : Config.Value) :
    Agree x g (w.assignVar name value) (w'.assignVar name value) := by
  unfold assignVar
  rw [h.registry]
  split
  · rename_i v _
    have stored := store_twins h v.name value
    simp only [textOf_twins stored]
    exact .intro stored
  · exact .intro h

theorem parseVar_agree (h : Twins x g w w') (name text : String) :
    Agree x g (w.parseVar name text) (w'.parseVar name text) := by
  unfold parseVar
  rw [h.registry]
  split
  · exact .intro h
  · rename_i v _
    split
    · rw [textOf_twins h]
      exact .intro h
    · rename_i value _
      have stored := store_twins h v.name value
      simp only [textOf_twins stored]
      exact .intro stored

theorem stageVar_agree (h : Twins x g w w') (name text : String) (apply : Bool) :
    Agree x g (w.stageVar name text apply) (w'.stageVar name text apply) := by
  unfold stageVar
  rw [h.registry]
  split
  · exact .intro h
  · rename_i v _
    simp only [textOf_twins h]
    split
    · exact .intro h
    · rename_i value _
      have stored := store_twins h v.name value
      cases apply with
      | true =>
        simp only [if_true, textOf_twins stored]
        exact .intro stored
      | false =>
        simp only [Bool.false_eq_true, if_false, textOf_twins h]
        exact .intro h

theorem visitAll_agree (h : Twins x g w w') (register : Option String) (vars : List Config.Var) :
    Agree x g (w.visitAll register vars) (w'.visitAll register vars) := by
  induction vars generalizing w w' with
  | nil => exact .intro h
  | cons v rest ih =>
    cases register with
    | none =>
      have agree := ih h
      simp only [visitAll, textOf_twins h, agree.answer]
      exact .intro agree.twins
    | some ending =>
      have agree := ih (lookup_agree h (v.name ++ ending) visitDefault "added").twins
      simp only [visitAll, textOf_twins h, agree.answer]
      exact .intro agree.twins

theorem visitVars_agree (h : Twins x g w w') (register : Option String) :
    Agree x g (w.visitVars register) (w'.visitVars register) := by
  have agree := visitAll_agree h register w.process.registry.vars
  simp only [visitVars, h.registry, agree.answer]
  exact .intro agree.twins

theorem loadDocument_agree (h : Twins x g w w') (source : String) :
    Agree x g (w.loadDocument source) (w'.loadDocument source) := by
  unfold loadDocument
  rw [h.registry]
  split
  · exact .intro h
  · split
    · exact .intro h
    · rename_i staged _
      have logged : ∀ (ss : List Config.Registry.Staged) {v v' : World}, Twins x g v v' →
          Twins x g (ss.foldl (fun w s => w.log (.configUpdated s.name s.text)) v)
            (ss.foldl (fun w s => w.log (.configUpdated s.name s.text)) v') := by
        intro ss
        induction ss with
        | nil => exact fun h => h
        | cons s rest ih => exact fun h => ih (log_twins h _)
      exact .intro (logged staged (withRegistry_twins h _))

/-! ## 6. Creating -/

theorem count_agree (h : Twins x g w w') : Agree x g w.count w'.count :=
  .of (h.withProcess fun p => { p with nextId := p.nextId + 1, live := p.live + 1 }) h.nextId

theorem currentFiber_agree (h : Twins x g w w') : Agree x g w.currentFiber w'.currentFiber := by
  unfold currentFiber
  rw [h.current, h.main]
  split
  · exact .intro h
  · split
    · exact .intro (h.onThread rfl)
    · have agree := count_agree h
      generalize w.count = r, w'.count = r' at agree ⊢
      obtain @⟨v, v', id, twins⟩ := agree
      refine .intro ((log_twins twins _).onThread ?_)
      rw [Guise.insert_thread _ (f := Fiber.main id) rfl]
      rfl

theorem fetch_agree (h : Twins x g w w') (f : FiberRef) : Agree x g (w.fetch f) (w'.fetch f) := by
  cases f with
  | slot name =>
    rw [fetch, fetch, h.slot?]
    exact .intro h
  | current =>
    have agree := currentFiber_agree h
    unfold fetch
    generalize w.currentFiber = r, w'.currentFiber = r' at agree ⊢
    obtain ⟨twins⟩ := agree
    exact .intro twins

theorem hold_twins (h : Twins x g w w') (id : FiberId) : Twins x g (w.hold id) (w'.hold id) :=
  h.onThread (Guise.update_thread _ _ _ _ fun _ _ _ => rfl)

theorem holdAll_agree (h : Twins x g w w') (fs : List FiberRef) :
    Agree x g (w.holdAll fs) (w'.holdAll fs) := by
  induction fs generalizing w w' with
  | nil => exact .intro h
  | cons f rest ih =>
    have agree := fetch_agree h f
    unfold holdAll
    generalize w.fetch f = r, w'.fetch f = r' at agree ⊢
    obtain @⟨v, v', _ | id, twins⟩ := agree
    · exact ih twins
    · have more := ih (hold_twins twins id)
      simp only [more.answer]
      exact .intro more.twins

theorem recordAlloc_twins (h : Twins x g w w') (a : Allocator) (size : Nat) :
    Twins x g (w.recordAlloc a size) (w'.recordAlloc a size) := by
  cases a with
  | heap | exhausted | refusing | guarded => exact h
  | counting | doubling => exact emit_twins (h.onThread (by rfl)) _

theorem handOut_agree (h : Twins x g w w') (a : Allocator) (size : Nat) :
    Agree x g (w.handOut a size) (w'.handOut a size) := by
  have base : w'.thread.nextBase = w.thread.nextBase := (congrArg Thread.nextBase h.thread :)
  unfold handOut
  rw [base]
  exact .intro (h.onThread rfl)

theorem allocate_agree (h : Twins x g w w') (a : Allocator) (size : Nat) :
    Agree x g (w.allocate a size) (w'.allocate a size) := by
  have recorded := recordAlloc_twins h a size
  unfold allocate
  simp only
  split
  · rename_i n _
    have agree := handOut_agree recorded a n
    generalize (w.recordAlloc a size).handOut a n = r, (w'.recordAlloc a size).handOut a n = r'
      at agree ⊢
    obtain ⟨twins⟩ := agree
    exact .intro twins
  · split
    · exact .intro (log_twins recorded _)
    · exact .intro recorded

theorem withDefaultSize_twins (h : Twins x g w w') (d : DefaultSize) :
    Twins x g (w.withDefaultSize d) (w'.withDefaultSize d) :=
  h.withProcess fun p => { p with defaultSize := d }

theorem bindDefaultSize_agree (h : Twins x g w w') :
    Agree x g w.bindDefaultSize w'.bindDefaultSize := by
  have agree := lookup_agree h stackSizeName stackSizeDefault "fiber stack size"
  unfold bindDefaultSize
  generalize w.lookup stackSizeName stackSizeDefault "fiber stack size" = r,
    w'.lookup stackSizeName stackSizeDefault "fiber stack size" = r' at agree ⊢
  obtain @⟨v, v', e | var, twins⟩ := agree
  · have reported := report_agree twins (stackSizeName ++ " unavailable, using " ++
      toString defaultStackSize ++ ": " ++ e.message)
    simp only
    generalize v.report (stackSizeName ++ " unavailable, using " ++
      toString defaultStackSize ++ ": " ++ e.message) = r, v'.report (stackSizeName ++
      " unavailable, using " ++ toString defaultStackSize ++ ": " ++ e.message) = r' at reported ⊢
    obtain @⟨u, u', _ | p, twins⟩ := reported <;> exact .intro (withDefaultSize_twins twins _)
  · exact .intro (withDefaultSize_twins twins _)

theorem stackSize_agree (h : Twins x g w w') (asked : Nat) :
    Agree x g (w.stackSize asked) (w'.stackSize asked) := by
  have bound : w'.boundSize = w.boundSize := by rw [boundSize, boundSize, h.registry]
  unfold stackSize defaultSize
  rw [h.defaultSize, bound]
  split
  · split
    · exact bindDefaultSize_agree h
    · exact .intro h
    · exact .intro h
    · exact .intro h
  · exact .intro h

theorem allocateStack_agree (h : Twins x g w w') (a : Allocator) (size : Nat) :
    Agree x g (w.allocateStack a size) (w'.allocateStack a size) := by
  unfold allocateStack
  split
  · exact .intro h
  · exact allocate_agree h a size

/-- The stack of a new task, or why there is none. -/
theorem insertTask_agree (h : Twins x g w w') (keeps : g.KeepsBodies) (a : Allocator) (b : Block)
    (asked : Nat) (cb : Callback) :
    Agree x g (w.insertTask a b asked cb) (w'.insertTask a b asked cb) := by
  have agree := count_agree h
  unfold insertTask
  generalize w.count = r, w'.count = r' at agree ⊢
  obtain @⟨v, v', id, twins⟩ := agree
  refine .intro ((log_twins twins _).onThread (Guise.insert_thread _ ?_))
  simp [Guise.fiber, Fiber.task, Guise.context, Guise.callback, keeps id cb.body]

theorem createTask_agree (h : Twins x g w w') (keeps : g.KeepsBodies) (a : Allocator) (asked : Nat)
    (cb : Callback) : Agree x g (w.createTask a asked cb) (w'.createTask a asked cb) := by
  have sized := stackSize_agree h asked
  unfold createTask
  generalize w.stackSize asked = r, w'.stackSize asked = r' at sized ⊢
  obtain @⟨v, v', p | size, twins⟩ := sized
  · exact .intro (dropCallback_twins twins _ _)
  · have stacked := allocateStack_agree twins a size
    simp only
    generalize v.allocateStack a size = r, v'.allocateStack a size = r' at stacked ⊢
    obtain @⟨u, u', e | b, twins⟩ := stacked
    · exact .intro (dropCallback_twins twins _ _)
    · have made := insertTask_agree twins keeps a b size cb
      simp only
      generalize u.insertTask a b size cb = r, u'.insertTask a b size cb = r' at made ⊢
      obtain ⟨twins⟩ := made
      exact .intro twins

end World

end FiberEngine
