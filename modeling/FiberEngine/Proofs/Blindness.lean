/-
FiberEngine.Proofs.Blindness — requests that do not depend on suspended code.

A request that neither goes on with other code nor puts code above the running
one does the same in two worlds that are twins, whatever the guise. A resume is
of this kind where it is refused: away from the main fiber, that is always.

In worlds that only differ by their traces every step does the same, also one
that switches. `step_agree` says so.
-/
import FiberEngine.Proofs.Finishing
import FiberEngine.Proofs.Guises

namespace FiberEngine

variable {x : FiberId} {g : Guise} {w w' : World}

/-- The operation puts code above the running one, or suspends it. -/
def Op.isControl : Op → Bool
  | .loop _ _ | .attempt _ | .thread _ _ | .demo _ | .pause _ _ | .park _ => true
  | _ => false

namespace World

/-! ## 1. Requests that a fiber can refuse -/

theorem reject_agree (h : Twins x g w w') (m : Manner) (id : FiberId) (e : FiberError) :
    Agree x g (w.reject m id e) (w'.reject m id e) := by
  cases m with
  | checked =>
    rw [reject, reject, h.stateOf]
    exact .intro h
  | trusted => exact fatal_agree h e.message

theorem resumeRefusal_agree (h : Twins x g w w') (f : Fiber) :
    Agree x g (w.resumeRefusal f) (w'.resumeRefusal (g.fiber f)) := by
  have own : (g.fiber f).resumeRefusal? = f.resumeRefusal? := rfl
  have context : (g.fiber f).context.isNone = f.context.isNone := by simp [Guise.fiber]
  have agree := currentFiber_agree h
  unfold resumeRefusal
  rw [own, context]
  split
  · exact .intro h
  · generalize w.currentFiber = r, w'.currentFiber = r' at agree ⊢
    obtain @⟨v, v', current, twins⟩ := agree
    simp only [twins.main]
    split <;> exact .intro twins

/-- A fiber other than the main one is current. -/
def Away (w : World) : Prop :=
  ∃ id, w.thread.current = some id ∧ w.thread.main ≠ some id

theorem Away.currentFiber (away : w.Away) : w.currentFiber.1 = w := by
  obtain ⟨id, current, -⟩ := away
  simp only [World.currentFiber, current]

theorem Away.fetch (away : w.Away) (f : FiberRef) : (w.fetch f).1 = w := by
  cases f with
  | slot name => rfl
  | current => exact away.currentFiber

/-- Away from the main fiber nothing can be resumed. -/
theorem Away.refused (away : w.Away) (f : Fiber) : (w.resumeRefusal f).2 ≠ none := by
  obtain ⟨id, current, other⟩ := away
  unfold resumeRefusal
  split
  · simp
  · simp [World.currentFiber, current, other]

theorem rebind_twins (h : Twins x g w w') (keeps : g.KeepsBodies) (f : Fiber) (cb : Callback) :
    Twins x g (w.rebind f cb) (w'.rebind (g.fiber f) cb) := by
  have bound : Twins x g
      (w.onThread fun t => t.update f.id fun f =>
        { f with context := some .fresh, pending := some cb })
      (w'.onThread fun t => t.update f.id fun f =>
        { f with context := some .fresh, pending := some cb }) := by
    refine h.onThread (Guise.update_thread _ _ _ _ fun f _ _ => ?_)
    simp [Guise.fiber, Guise.context, Guise.callback, keeps f.id cb.body]
  have settled : ∀ {v v'}, Twins x g v v' → Twins x g
      ((v.onThread fun t => t.setState f.id .init).log (.fiberReset f.id f.state))
      ((v'.onThread fun t => t.setState f.id .init).log (.fiberReset f.id f.state)) :=
    fun h => log_twins (h.onThread (Guise.setState_thread _ _ _)) _
  have pending : (g.fiber f).pending = f.pending.map (g.callback f.id) := rfl
  unfold rebind
  simp only [pending]
  cases f.pending with
  | none => exact settled bound
  | some old => exact settled (dropCallback_twins bound old.tag old.keep)

theorem reset_agree (h : Twins x g w w') (keeps : g.KeepsBodies) (m : Manner) (f : Fiber)
    (cb : Callback) : Agree x g (w.reset m f cb) (w'.reset m (g.fiber f) cb) := by
  have refusal : (g.fiber f).resetRefusal? = f.resetRefusal? := rfl
  have bound := rebind_twins h keeps f cb
  unfold reset
  rw [refusal]
  split
  · exact reject_agree (dropCallback_twins h _ _) _ _ _
  · simp only
    rw [show (g.fiber f).id = f.id from rfl, bound.stateOf]
    exact .intro bound

/-- A fiber that is refused to suspend itself. -/
theorem suspend_agree_of_refused (h : Twins x g w w') {m : Manner} {f : Fiber} {next : Parking}
    {p : Pending} {e : FiberError} (refused : f.yieldRefusal? w.thread.currentId = some e) :
    Agree x g (w.suspend m f next p) (w'.suspend m (g.fiber f) next p) := by
  have current : w'.thread.currentId = w.thread.currentId := (congrArg (Option.getD · 0) h.current :)
  have refused' : (g.fiber f).yieldRefusal? w'.thread.currentId = some e := by
    rw [current]
    exact refused
  simp only [suspend, refused, refused']
  exact reject_agree h m f.id e

/-! ## 2. Under a handle -/

theorem letGo_agree {r r' : World × Outcome} (h : Agree x g r r') (id : FiberId) :
    Agree x g (letGo id r) (letGo id r') := by
  obtain @⟨v, v', o, twins⟩ := h
  cases o with
  | done reply => exact .intro (release_twins twins [id])
  | panicked p => exact .intro (release_twins twins [id])
  | next | left v | aborted | started child => exact .intro twins

/-- What is done with a fiber is done under a handle to it. -/
theorem onFiber_agree_of_held (h : Twins x g w w') (f : FiberRef)
    {act act' : World → Fiber → World × Outcome}
    (acts : ∀ {id : FiberId} {v' : World} {fib : Fiber}, (w.fetch f).2 = some id →
      ((w.fetch f).1.hold id).thread.fiber? id = some fib → Twins x g ((w.fetch f).1.hold id) v' →
      Agree x g (act ((w.fetch f).1.hold id) fib) (act' v' (g.fiber fib))) :
    Agree x g (w.onFiber f act) (w'.onFiber f act') := by
  have fetched := fetch_agree h f
  unfold onFiber
  generalize w.fetch f = r, w'.fetch f = r' at fetched acts ⊢
  obtain @⟨v, v', _ | id, twins⟩ := fetched
  · exact .intro twins
  · have held := hold_twins twins id
    simp only [held.fiber?]
    cases found : (v.hold id).thread.fiber? id with
    | none => exact .intro held
    | some fib => exact letGo_agree (acts rfl found held) id

/-- The same, where it does not matter which fiber it is. -/
theorem onFiber_agree (h : Twins x g w w') (f : FiberRef)
    {act act' : World → Fiber → World × Outcome}
    (acts : ∀ {v v' : World} {fib : Fiber}, (w.Away → v.Away) → Twins x g v v' →
      Agree x g (act v fib) (act' v' (g.fiber fib))) :
    Agree x g (w.onFiber f act) (w'.onFiber f act') := by
  refine onFiber_agree_of_held h f fun {id} _ _ _ _ twins => acts (fun away => ?_) twins
  have stays : (w.fetch f).1.Away := by rwa [away.fetch f]
  exact stays

/-- An operation that waited goes on under its handle. -/
theorem onHeld_agree (h : Twins x g w w') (id : FiberId) {act act' : Fiber → World × Outcome}
    (acts : ∀ fib, Agree x g (act fib) (act' (g.fiber fib))) :
    Agree x g (w.onHeld id act) (w'.onHeld id act') := by
  unfold onHeld
  rw [h.fiber?]
  cases w.thread.fiber? id with
  | none => exact .intro h
  | some fib => exact letGo_agree (acts fib) id

theorem putSlot_twins (h : Twins x g w w') (name : SlotName) (id : FiberId) :
    Twins x g (w.putSlot name id) (w'.putSlot name id) := by
  unfold putSlot
  rw [h.slot?]
  exact release_twins (h.onThread (by rfl)) _

theorem dropSlot_agree (h : Twins x g w w') (name : SlotName) :
    Agree x g (w.dropSlot name) (w'.dropSlot name) := by
  unfold dropSlot
  rw [h.slot?]
  split
  · rw [h.live]
    exact .intro h
  · rename_i id _
    have dropped := release_twins (h.onThread (c := fun t => t.clearSlot name)
      (d := fun t => t.clearSlot name) rfl) [id]
    simp only [dropped.live]
    exact .intro dropped

theorem create_agree (h : Twins x g w w') (keeps : g.KeepsBodies) (slot : SlotName) (size : Nat)
    (a : Allocator) (cb : Callback) :
    Agree x g (w.create slot size a cb) (w'.create slot size a cb) := by
  have made := createTask_agree h keeps a size cb
  unfold create
  generalize w.createTask a size cb = r, w'.createTask a size cb = r' at made ⊢
  obtain @⟨v, v', (e | p) | id, twins⟩ := made
  · exact .intro twins
  · exact .intro twins
  · have put := putSlot_twins twins slot id
    simp only [twins.fiber?]
    cases v.thread.fiber? id <;> exact .intro put

/-! ## 3. Blocks and demonstrations -/

theorem allocBlock_agree (h : Twins x g w w') (name : String) (a : Allocator) (size : Nat) :
    Agree x g (w.allocBlock name a size) (w'.allocBlock name a size) := by
  have asked := allocate_agree h a size
  unfold allocBlock
  generalize w.allocate a size = r, w'.allocate a size = r' at asked ⊢
  obtain @⟨v, v', e | b, twins⟩ := asked
  · exact .intro twins
  · exact .intro (twins.onThread rfl)

theorem freeBlock_agree (h : Twins x g w w') (name : String) (a : Allocator) :
    Agree x g (w.freeBlock name a) (w'.freeBlock name a) := by
  unfold freeBlock
  rw [h.block?]
  split
  · exact .intro h
  · exact .intro (deallocate_twins (h.onThread (by rfl)) _ _)

theorem saveBlock_agree (h : Twins x g w w') (name : String) (f : Fiber) :
    Agree x g (w.saveBlock name f) (w'.saveBlock name (g.fiber f)) := by
  have block : (g.fiber f).block? = f.block? := rfl
  unfold saveBlock
  rw [block]
  split
  · exact .intro h
  · exact .intro (h.onThread rfl)

theorem isBlock_agree (h : Twins x g w w') (name : String) (f : Fiber) :
    Agree x g (w.isBlock name f) (w'.isBlock name (g.fiber f)) := by
  have block : (g.fiber f).block? = f.block? := rfl
  unfold isBlock
  rw [h.block?, block]
  split <;> exact .intro h

theorem noteWorker_twins (h : Twins x g w w') (kind : ThreadKind) (e : Ending) :
    Twins x g (w.noteWorker kind e) (w'.noteWorker kind e) := by
  cases e with
  | completed => exact h
  | panicked p => exact onProgram_twins h _

theorem pieceOf_agree (h : Twins x g w w') (f : FiberRef) {text : Fiber → String}
    (blind : ∀ fib, text (g.fiber fib) = text fib) :
    Agree x g (w.pieceOf f text) (w'.pieceOf f text) := by
  have fetched := fetch_agree h f
  unfold pieceOf
  generalize w.fetch f = r, w'.fetch f = r' at fetched ⊢
  obtain @⟨v, v', _ | id, twins⟩ := fetched
  · exact .intro twins
  · simp only [twins.fiber?]
    cases v.thread.fiber? id with
    | none => exact .intro twins
    | some fib =>
      simp only [Option.map_some, Option.elim_some, blind]
      exact .intro twins

theorem pieceText_agree (h : Twins x g w w') (p : Piece) :
    Agree x g (w.pieceText p) (w'.pieceText p) := by
  cases p with
  | id f | state f | stackSize f | refusal f => exact pieceOf_agree h f fun _ => rfl
  | text s => exact .intro h
  | currentId => exact .of h (congrArg (fun c => toString (Option.getD c 0)) h.current)
  | threadName => exact .of h h.name
  | total => exact .of h (congrArg toString h.live)
  | counter => exact .of h (congrArg (fun p => toString (Option.elim p 0 Program.counter)) h.program)
  | tunable name => exact .of h (textOf_twins h name)

theorem lineText_agree (h : Twins x g w w') (line : List Piece) :
    Agree x g (w.lineText line) (w'.lineText line) := by
  induction line generalizing w w' with
  | nil => exact .intro h
  | cons p rest ih =>
    have first := pieceText_agree h p
    unfold lineText
    generalize w.pieceText p = r, w'.pieceText p = r' at first ⊢
    obtain ⟨twins⟩ := first
    have more := ih twins
    simp only [more.answer]
    exact .intro more.twins

theorem endDemo_twins (h : Twins x g w w') (d : Demo) (panic : Option Payload) :
    Twins x g (w.endDemo d panic) (w'.endDemo d panic) := by
  have released := release_twins (h.onThread (c := fun t => t.clearSlot .own)
    (d := fun t => t.clearSlot .own) rfl) (w.thread.slot? .own).toList
  unfold endDemo
  rw [h.slot?]
  simp only [released.program]
  exact emit_twins (released.withProcess fun p => { p with program := none }) _

/-! ## 4. Switches between worlds that only differ by their traces -/

section

variable (h : Twins x .plain w w')

include h

theorem sameThread : w'.thread = w.thread :=
  h.thread.trans (Guise.plain_thread _)

theorem onThread_plain (c : Thread → Thread) :
    Twins x .plain (w.onThread c) (w'.onThread c) :=
  h.onThread (by simp)

theorem parkMain_twins : Twins x .plain w.parkMain w'.parkMain := by
  unfold parkMain
  rw [h.main]
  split
  · exact onThread_plain h _
  · exact fatalInside_twins h _

theorem enter_twins (f : Fiber) : Twins x .plain (w.enter f) (w'.enter f) := by
  unfold enter
  split
  · exact fatalInside_twins h _
  · exact log_twins (onThread_plain h _) _

theorem switchTo_twins (f : Fiber) (p : Pending) :
    Twins x .plain (w.switchTo f p) (w'.switchTo f p) := by
  have logged := log_twins h (.resumed f.id f.state)
  have taken : Twins x .plain
      ((((w.log (.resumed f.id f.state)).onThread fun t => t.push (.waiting p)).setCurrent
        f.id).onThread fun t => ((t.setMainState .hold).setState f.id .exec).setContext f.id none)
      ((((w'.log (.resumed f.id f.state)).onThread fun t => t.push (.waiting p)).setCurrent
        f.id).onThread fun t => ((t.setMainState .hold).setState f.id .exec).setContext f.id none) :=
    onThread_plain (onThread_plain (onThread_plain logged _) _) _
  unfold switchTo
  simp only
  split
  · exact onThread_plain (parkMain_twins taken) _
  · exact enter_twins (hold_twins (parkMain_twins taken) f.id) f
  · exact fatalInside_twins taken _
  · exact fatalInside_twins taken _

theorem mainFrames_twins : w'.mainFrames = w.mainFrames := by
  rw [mainFrames, mainFrames, sameThread h]

theorem switchBack_agree (id : FiberId) (context : Context) :
    Agree x .plain (w.switchBack id context) (w'.switchBack id context) := by
  unfold switchBack
  rw [mainFrames_twins h]
  split
  · exact .intro h
  · exact .intro (onThread_plain h _)

theorem suspend_agree (m : Manner) (f : Fiber) (next : Parking) (p : Pending) :
    Agree x .plain (w.suspend m f next p) (w'.suspend m f next p) := by
  have logged := log_twins h (.yielded f.id next.state)
  have frames : (w'.log (.yielded f.id next.state)).thread.frames =
      (w.log (.yielded f.id next.state)).thread.frames := by rw [sameThread logged]
  unfold suspend
  rw [sameThread h]
  split
  · exact reject_agree h m f.id _
  · split
    · have back := switchBack_agree logged f.id
        (.suspended (.waiting p :: (w.log (.yielded f.id next.state)).thread.frames))
      simp only [frames]
      generalize World.switchBack (w.log _) _ _ = r, World.switchBack (w'.log _) _ _ = r' at back ⊢
      obtain @⟨v, v', _ | e, twins⟩ := back
      · exact .intro twins
      · exact reject_agree twins m f.id e
    · have stands := onThread_plain logged fun t => t.setState f.id next.state
      have frames : ((w'.log (.yielded f.id next.state)).onThread fun t =>
          t.setState f.id next.state).thread.frames =
          ((w.log (.yielded f.id next.state)).onThread fun t =>
            t.setState f.id next.state).thread.frames := by rw [sameThread stands]
      have back := switchBack_agree stands f.id (.suspended (.waiting p ::
        ((w.log (.yielded f.id next.state)).onThread fun t =>
          t.setState f.id next.state).thread.frames))
      simp only [frames]
      generalize World.switchBack (onThread (w.log _) _) _ _ = r,
        World.switchBack (onThread (w'.log _) _) _ _ = r' at back ⊢
      obtain @⟨v, v', _ | e, twins⟩ := back
      · exact .intro twins
      · exact reject_agree twins m f.id e

end

/-- The report of a fault does not depend on code. -/
theorem reportFault_twins (h : Twins x g w w') (id : FiberId) (e : Finish) :
    Twins x g (w.reportFault id e) (w'.reportFault id e) := by
  cases e with
  | returned v => exact h
  | faulted p =>
    have reported := report_agree h (faultText p id w.thread.name)
    unfold reportFault
    simp only [h.name]
    generalize w.report (faultText p id w.thread.name) = r,
      w'.report (faultText p id w.thread.name) = r' at reported ⊢
    obtain @⟨v, v', _ | q, twins⟩ := reported
    · exact twins
    · exact abort_twins twins

/-- The end of a callback up to where its fiber stands aside. -/
theorem ended_twins (h : Twins x g w w') (id : FiberId) (tag : Option String)
    (keep : List FiberId) (e : Finish) :
    Twins x g
      (((w.dropCallback tag keep).onThread fun t => t.setState id e.state).reportFault id e)
      (((w'.dropCallback tag keep).onThread fun t => t.setState id e.state).reportFault id e) :=
  reportFault_twins ((dropCallback_twins h tag keep).onThread (Guise.setState_thread _ _ _)) id e

theorem standAside_twins (h : Twins x .plain w w') (id : FiberId) (e : Finish) :
    Twins x .plain (w.standAside id e) (w'.standAside id e) := by
  have back := switchBack_agree (release_twins h [id]) id .spent
  unfold standAside
  generalize (w.release [id]).switchBack id .spent = r,
    (w'.release [id]).switchBack id .spent = r' at back ⊢
  obtain @⟨v, v', _ | why, twins⟩ := back
  · exact onThread_plain twins _
  · exact fatalInside_twins twins _

theorem finish_twins (h : Twins x .plain w w') (id : FiberId) (tag : Option String)
    (keep : List FiberId) (e : Finish) :
    Twins x .plain (w.finish id tag keep e) (w'.finish id tag keep e) := by
  rw [finish_eq, finish_eq]
  exact standAside_twins (ended_twins h id tag keep e) id e

/-! ## 5. All requests -/

theorem resume_agree (h : Twins x g w w') (calm : g = .plain ∨ w.Away) (m : Manner) (f : Fiber)
    (p : Pending) : Agree x g (w.resume m f p) (w'.resume m (g.fiber f) p) := by
  have asked := resumeRefusal_agree h f
  have calm : g = .plain ∨ (w.resumeRefusal f).2 ≠ none := calm.imp id (Away.refused · f)
  unfold resume
  generalize w.resumeRefusal f = r, w'.resumeRefusal (g.fiber f) = r' at asked calm ⊢
  obtain @⟨v, v', _ | e, twins⟩ := asked
  · obtain rfl := calm.resolve_right (· rfl)
    rw [Guise.plain_fiber]
    exact .intro (switchTo_twins twins f p)
  · exact reject_agree twins m f.id e

theorem driveOn_agree (h : Twins x g w w') (calm : g = .plain ∨ w.Away) (f : Fiber)
    (done max : Nat) : Agree x g (w.driveOn f done max) (w'.driveOn (g.fiber f) done max) := by
  have state : (g.fiber f).state = f.state := rfl
  unfold driveOn
  rw [state]
  split
  · exact .intro h
  · exact resume_agree h calm .trusted f _

theorem entryOn_agree (h : Twins x g w w') (calm : g = .plain ∨ w.Away) (f : Fiber) (size : Nat)
    (shape : EntryShape) (result : Option Datum) :
    Agree x g (w.entryOn f size shape result) (w'.entryOn (g.fiber f) size shape result) := by
  have state : (g.fiber f).state = f.state := rfl
  unfold entryOn
  rw [state]
  split
  · split
    · exact .intro h
    · exact .intro h
  · exact resume_agree h calm .trusted f _

theorem stackSize_thread (w : World) (asked : Nat) : (w.stackSize asked).1.thread = w.thread := by
  have found : (w.lookup stackSizeName stackSizeDefault "fiber stack size").1.thread =
      w.thread := by
    unfold lookup
    split
    · exact log_thread ..
    · exact log_thread ..
    · exact log_thread ..
    · rfl
  have bound : w.bindDefaultSize.1.thread = w.thread := by
    unfold bindDefaultSize
    split <;> rename_i eq <;> rw [eq] at found
    · exact found
    · simp only
      split <;> rename_i eq <;> exact (congrArg (fun r => r.1.thread) eq).symm.trans
        ((report_thread _ _).trans found)
  unfold stackSize defaultSize
  split
  · split
    · exact bound
    · rfl
    · rfl
    · rfl
  · rfl

/-- Handing out a block leaves the thread where it is. -/
theorem allocateStack_away (a : Allocator) (size : Nat) (away : w.Away) :
    (w.allocateStack a size).1.Away := by
  have recorded : (w.recordAlloc a size).Away := by
    cases a with
    | heap | exhausted | refusing | guarded => exact away
    | counting | doubling =>
      unfold Away recordAlloc
      rw [emit_thread]
      exact away
  unfold allocateStack
  split
  · exact away
  · unfold allocate
    simp only
    split
    · exact recorded
    · split
      · unfold Away
        rw [log_thread]
        exact recorded
      · exact recorded

/-- Creating a task leaves the thread where it is. -/
theorem createTask_away {a : Allocator} {asked : Nat} {cb : Callback} {v : World} {id : FiberId}
    (made : w.createTask a asked cb = (v, .ok id)) (away : w.Away) : v.Away := by
  have sized : (w.stackSize asked).1.Away := by
    unfold Away
    rw [stackSize_thread]
    exact away
  unfold createTask at made
  split at made
  · cases made
  · rename_i u size eq
    rw [eq] at sized
    have stacked := allocateStack_away a size sized
    simp only at made
    split at made
    · cases made
    · rename_i u' b eq'
      rw [eq'] at stacked
      cases made
      unfold Away insertTask
      simp only [onThread, log_thread]
      exact stacked

theorem enterMain_agree (h : Twins x g w w') (keeps : g.KeepsBodies)
    (calm : g = .plain ∨ w.Away) (size : Nat) (shape : EntryShape) (ops : List Op) :
    Agree x g (w.enterMain size shape ops) (w'.enterMain size shape ops) := by
  have made := createTask_agree (currentFiber_agree h).twins keeps .heap size ⟨ops, none, []⟩
  have calm : ∀ {v id}, w.currentFiber.1.createTask .heap size ⟨ops, none, []⟩ = (v, .ok id) →
      g = .plain ∨ v.Away := fun made =>
    calm.imp id fun away => createTask_away made (by rwa [away.currentFiber])
  unfold enterMain
  simp only
  generalize w.currentFiber.1.createTask .heap size ⟨ops, none, []⟩ = r,
    w'.currentFiber.1.createTask .heap size ⟨ops, none, []⟩ = r' at made calm ⊢
  obtain @⟨v, v', (e | p) | id, twins⟩ := made
  · exact .intro twins
  · exact .intro twins
  · simp only [twins.fiber?]
    cases v.thread.fiber? id with
    | none => exact .intro twins
    | some f => exact letGo_agree (entryOn_agree twins (calm rfl) f size shape none) id

theorem answered_agree {r r' : World × Reply} (h : Agree x g r r') :
    Agree x g (answered r) (answered r') :=
  .of h.twins (congrArg Outcome.done h.answer)

/-- An operation that neither puts code above the running one nor suspends it. -/
theorem perform_agree (h : Twins x g w w') (keeps : g.KeepsBodies) (calm : g = .plain ∨ w.Away)
    {op : Op} (request : op.isControl = false) : Agree x g (w.perform op) (w'.perform op) := by
  have calm' : ∀ {v : World}, (w.Away → v.Away) → g = .plain ∨ v.Away := fun away =>
    calm.imp id away
  cases op with
  | loop times ops | attempt ops | thread kind ops | demo d | pause m f | park p => cases request
  | say v | leave v | panic p | constants | states | fiberError e | configError e
  | backtrace force indent | illFormed name => exact .intro h
  | create slot size a ops tag keep =>
    have held := holdAll_agree h keep
    simp only [perform, held.answer]
    exact create_agree held.twins keeps slot size a _
  | resume m f =>
    rw [perform, perform]
    exact onFiber_agree h f fun away twins => resume_agree twins (calm' away) m _ _
  | reset m f ops tag keep =>
    rw [perform, perform]
    refine onFiber_agree h f fun away twins => ?_
    have held := holdAll_agree twins keep
    simp only [held.answer]
    exact reset_agree held.twins keeps m _ _
  | state f | info f =>
    rw [perform, perform]
    exact onFiber_agree h f fun _ twins => .intro twins
  | clone f slot =>
    rw [perform, perform]
    exact onFiber_agree h f fun _ twins => .intro (putSlot_twins (hold_twins twins _) slot _)
  | drop slot => exact dropSlot_agree h slot
  | same f f' =>
    rw [perform, perform]
    exact onFiber_agree h f fun _ twins => onFiber_agree twins f' fun _ twins => .intro twins
  | drive f max =>
    rw [perform, perform]
    exact onFiber_agree h f fun away twins => driveOn_agree twins (calm' away) _ 0 max
  | currentId => exact .of h (congrArg (fun c => Outcome.done (.number (Option.getD c 0))) h.current)
  | total => exact .of h (congrArg (fun n => Outcome.done (.number n)) h.live)
  | allocBlock name a size => exact allocBlock_agree h name a size
  | freeBlock name a => exact freeBlock_agree h name a
  | saveBlock f name =>
    rw [perform, perform]
    exact onFiber_agree h f fun _ twins => saveBlock_agree twins name _
  | isBlock f name =>
    rw [perform, perform]
    exact onFiber_agree h f fun _ twins => isBlock_agree twins name _
  | stackStats =>
    refine .of h ?_
    change Outcome.done (.stats w'.thread.counting w'.thread.doubling w'.thread.guarded.length) = _
    rw [h.thread]
    rfl
  | report text =>
    have reported := report_agree h text
    simp only [perform]
    generalize w.report text = r, w'.report text = r' at reported ⊢
    obtain @⟨v, v', _ | p, twins⟩ := reported <;> exact .intro twins
  | setHook hook => exact .intro (h.withProcess fun p => { p with hook := hook })
  | threadName => exact .of h (congrArg (fun s => Outcome.done (.text s)) h.name)
  | setThreadName name => exact .intro (h.onThread rfl)
  | entry size shape ops => exact enterMain_agree h keeps calm size shape ops
  | lookup name default description => exact answered_agree (lookupVar_agree h name _ description)
  | describe name =>
    refine .of h (congrArg Outcome.done ?_)
    rw [describeVar, describeVar, h.registry]
  | get kind name =>
    refine .of h (congrArg Outcome.done ?_)
    rw [getVar, getVar, h.registry]
  | assign name value => exact answered_agree (assignVar_agree h name value)
  | parse name text => exact answered_agree (parseVar_agree h name text)
  | stage name text apply => exact answered_agree (stageVar_agree h name text apply)
  | sameVar kind name other =>
    refine .of h (congrArg Outcome.done ?_)
    rw [World.sameVar, World.sameVar, h.registry]
  | debugVar kind name =>
    refine .of h (congrArg Outcome.done ?_)
    rw [World.debugVar, World.debugVar, h.registry]
  | visit register => exact answered_agree (visitVars_agree h register)
  | load source => exact answered_agree (loadDocument_agree h source)
  | print line =>
    have read := lineText_agree h line
    simp only [perform, read.answer]
    exact .intro (onProgram_twins read.twins _)
  | tick => exact .intro (onProgram_twins h _)
  | requireJoined =>
    simp only [perform, h.program]
    generalize Option.bind w.process.program _ = failed
    cases failed <;> exact .intro h

/-- An operation that waited goes on. -/
theorem carryOn_agree (h : Twins x g w w') (calm : g = .plain ∨ w.Away) (p : Pending) :
    Agree x g (w.carryOn p) (w'.carryOn p) := by
  cases p with
  | resume m id | pause m id => exact onHeld_agree h id fun _ => .intro h
  | drive id done max => exact onHeld_agree h id fun f => driveOn_agree h calm f done max
  | entry size shape id result =>
    exact onHeld_agree h id fun f => entryOn_agree h calm f size shape result
  | park p => exact .intro h
  | join kind ending =>
    have noted := noteWorker_twins h kind (ending.getD .completed)
    simp only [carryOn, answer, h.live]
    exact .intro noted

/-! ## 6. Steps of worlds that only differ by their traces -/

/-- Every operation does the same. -/
theorem perform_agree_plain (h : Twins x .plain w w') (op : Op) :
    Agree x .plain (w.perform op) (w'.perform op) := by
  have pushed : ∀ {v v' : World}, Twins x .plain v v' → ∀ fr,
      Twins x .plain (v.onThread fun t => t.push fr) (v'.onThread fun t => t.push fr) :=
    fun h fr => onThread_plain h _
  cases request : op.isControl with
  | false => exact perform_agree h (fun _ _ => rfl) (.inl rfl) request
  | true =>
    cases op with
    | loop times ops =>
      simp only [perform]
      split
      · exact .intro h
      · exact .intro (pushed h _)
    | attempt ops =>
      simp only [perform]
      exact .intro (onThread_plain h _)
    | thread kind ops =>
      simp only [perform]
      unfold spawn
      split
      · exact .intro h
      · cases kind with
        | engine name => exact .intro (pushed (log_twins h _) _)
        | plain name => exact .intro (pushed h _)
    | demo d =>
      have started := h.withProcess fun p => { p with program := some ⟨⟨"", ""⟩, 0, none⟩ }
      exact .intro (onThread_plain started fun t => (t.push (.program d)).push (.ops d.script))
    | pause m f =>
      rw [perform, perform]
      refine onFiber_agree h f fun {v v' fib} _ twins => ?_
      rw [Guise.plain_fiber]
      exact suspend_agree twins m fib .ready _
    | park p =>
      have asked := currentFiber_agree h
      simp only [perform, asked.answer, sameThread asked.twins]
      split
      · exact .intro asked.twins
      · exact suspend_agree asked.twins .trusted _ p _
    | _ => cases request

theorem unwind_agree (h : Twins x .plain w w') (p : Payload) :
    Agree x .plain (w.unwind p) (w'.unwind p) := by
  unfold unwind
  rw [sameThread h]
  split
  · exact .intro (emit_twins (onThread_plain h _) _)
  · exact .intro (endDemo_twins (onThread_plain h _) _ _)
  · exact .intro (finish_twins h _ _ _ _)
  · exact .intro h

theorem leave_agree (h : Twins x .plain w w') (v : Datum) :
    Agree x .plain (w.leave v) (w'.leave v) := by
  unfold leave
  rw [sameThread h]
  split
  · exact .intro (finish_twins h _ _ _ _)
  · exact .intro h

theorem conclude_agree (h : Twins x .plain w w') (name : String) (reply : Reply) :
    Agree x .plain (w.conclude name reply) (w'.conclude name reply) := by
  unfold conclude
  rw [h.program]
  split
  · exact .intro (emit_twins h _)
  · split
    · exact .intro h
    · exact unwind_agree h _

/-- An answer that no demonstration takes for a panic is recorded at most. -/
theorem conclude_running {reply : Reply} (fine : reply.complaint? = none) (w : World)
    (name : String) : w.conclude name reply = ((w.conclude name reply).1, .running) := by
  unfold conclude
  split
  · rfl
  · rw [fine]

theorem conclude_same {reply : Reply} (fine : reply.complaint? = none) (w : World)
    (name : String) : SameButTrace w (w.conclude name reply).1 := by
  unfold conclude
  split
  · exact emit_same _ _
  · rw [fine]
    exact .refl w

theorem conclude_twins {reply : Reply} (fine : reply.complaint? = none) (h : Twins x g w w')
    (name : String) : Twins x g (w.conclude name reply).1 (w'.conclude name reply).1 := by
  unfold conclude
  rw [h.program]
  split
  · exact emit_twins h _
  · rw [fine]
    exact h

theorem settle_agree {r r' : World × Outcome} (h : Agree x .plain r r') (name : String) :
    Agree x .plain (settle name r) (settle name r') := by
  obtain @⟨v, v', o, twins⟩ := h
  cases o with
  | done reply => exact conclude_agree twins name reply
  | panicked p => exact unwind_agree twins p
  | left v => exact leave_agree twins v
  | next | aborted | started child => exact .intro twins

/-- A step does the same, whatever the traces are. -/
theorem step_agree (h : Twins x .plain w w') : Agree x .plain w.step w'.step := by
  have goes : ∀ k, Twins x .plain (w.goOn k) (w'.goOn k) := fun k => onThread_plain h _
  unfold step
  rw [sameThread h]
  split
  · exact .intro (goes _)
  · exact settle_agree (perform_agree_plain (goes _) _) _
  · exact .intro (goes _)
  · exact .intro (goes _)
  · exact conclude_agree (goes _) _ _
  · exact .intro (endDemo_twins (goes _) _ _)
  · exact settle_agree (carryOn_agree (goes _) (.inl rfl) _) _
  · exact .intro (finish_twins h _ _ _ _)
  · exact .intro h
  · exact .intro h

theorem releaseSlots_twins (h : Twins x .plain w w') :
    Twins x .plain w.releaseSlots w'.releaseSlots := by
  unfold releaseSlots
  rw [h.slots]
  exact release_twins (onThread_plain h _) _

theorem retire_twins (h : Twins x .plain w w') : Twins x .plain w.retire w'.retire := by
  have forgotten : ∀ {v v' : World}, Twins x .plain v v' → Twins x .plain
      { v with process := { v.process with leaked := v.process.leaked ++ v.thread.fibers } }
      { v' with process := { v'.process with leaked := v'.process.leaked ++ v'.thread.fibers } } := by
    intro v v' h
    refine ⟨h.thread, ?_, h.trace⟩
    rw [sameThread h]
    exact (congrArg (fun p : Process => { p with leaked := p.leaked ++ v.thread.fibers }) h.process :)
  unfold retire
  rw [h.main]
  exact forgotten (release_twins (onThread_plain h _) _)

end World

end FiberEngine
