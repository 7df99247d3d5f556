/-
FiberEngine.Proofs.Acceptance — which checked calls are accepted.

Three calls on a fiber can be turned away: to resume it, to suspend it and to bind
it to a new callback. `Thread.MayResume`, `Thread.MayYield` and `Thread.MayReset` say
which of them are legal, by what is seen of a thread: which fiber is its main fiber,
which task runs, and the state of the fiber. `Thread.ResumeError`,
`Thread.YieldError` and `Thread.ResetError` say which error is due otherwise.

The checks that the engine makes are weaker than this table. A main fiber on hold
passes the first check of a resume, a task that has ended passes that of a yield, and
a fiber in state `exec` is not compared with the current one. That the table
is right all the same is due to what holds of a thread between its operations:
`resumeRefusal_eq`, `yieldRefusal_eq` and `resetRefusal_eq` read the refusals
off from where a fiber stands, and `calls_judged` says so of the calls of all runs.
-/
import FiberEngine.Proofs.Breaches
import FiberEngine.Proofs.Callbacks

namespace FiberEngine

/-! ## 1. The table -/

namespace Thread

variable (t : Thread) (f : Fiber)

/-- A task that has not ended is resumed while no task runs. -/
structure MayResume : Prop where
  task : t.main ≠ some f.id
  state : f.state = .init ∨ f.state = .ready ∨ f.state = .hold
  idle : t.task? = none

/-- The task that runs is suspended. -/
def MayYield : Prop :=
  t.task? = some f.id

/-- A task without a live frame on its stack is bound to a new callback. -/
structure MayReset : Prop where
  task : t.main ≠ some f.id
  state : f.state = .init ∨ f.state = .term ∨ f.state = .except

/-- The error of a resume that is not legal. -/
inductive ResumeError : FiberError → Prop
  | state (bad : f.state = .exec ∨ f.state = .term ∨ f.state = .except) :
    ResumeError (.invalidState "resume" f.id f.state)
  | busy {task : FiberId} (able : ¬ (f.state = .exec ∨ f.state = .term ∨ f.state = .except))
    (runs : t.task? = some task) : ResumeError (.notOnMainFiber f.id task)

/-- The error of a yield that is not legal. -/
inductive YieldError : FiberError → Prop
  | main (mine : t.main = some f.id) (idle : t.task? = none) : YieldError (.mainFiberYield f.id)
  | ended (term : f.state = .term) : YieldError (.notRunning f.id t.currentId)
  | state (other : t.task? ≠ some f.id) (away : ¬ (t.main = some f.id ∧ t.task? = none))
    (goes : f.state ≠ .term) : YieldError (.invalidState "yield" f.id f.state)

/-- The error of a reset that is not legal. -/
inductive ResetError : FiberError → Prop
  | main (mine : t.main = some f.id) : ResetError (.noStack f.id)
  | state (task : t.main ≠ some f.id)
    (bad : ¬ (f.state = .init ∨ f.state = .term ∨ f.state = .except)) :
    ResetError (.invalidState "reset" f.id f.state)

end Thread

/-- A fiber that has a stack is not a main fiber. -/
theorem Fiber.isMain_of_lease {f : Fiber} (onStack : f.lease ≠ none) : f.isMain = false := by
  rw [Fiber.isMain, Option.isNone_eq_false_iff, Option.isSome_iff_ne_none]
  exact onStack

/-- The outcome of a call: it is `taken` exactly if the call is legal, and an error
is the answer exactly if it is due. The answer shows the state of the fiber, too. -/
structure Outcome.Settles (o taken : Outcome) (s : FiberState) (legal : Prop)
    (due : FiberError → Prop) : Prop where
  accepted : o = taken ↔ legal
  rejected : ∀ e, o = .done (.refused s e) ↔ due e
  decided : legal ∨ ∃ e, due e

/-- A call whose refusal is known. -/
theorem Outcome.Settles.of_refusal {o taken : Outcome} {s : FiberState} {legal : Prop}
    {due : FiberError → Prop} {refusal : Option FiberError} (passes : refusal = none ↔ legal)
    (fails : ∀ e, refusal = some e ↔ due e) (fresh : ∀ s e, taken ≠ .done (.refused s e))
    (outcome : o = refusal.elim taken fun e => .done (.refused s e)) :
    o.Settles taken s legal due := by
  subst outcome
  cases refusal with
  | none =>
    have legal := passes.mp rfl
    refine ⟨iff_of_true rfl legal, fun e => ?_, .inl legal⟩
    exact iff_of_false (fresh s e) fun due => by simpa using (fails e).mpr due
  | some e =>
    have due := (fails e).mp rfl
    refine ⟨?_, fun e' => ?_, .inr ⟨e, due⟩⟩
    · refine iff_of_false (fun same => fresh s e same.symm) fun legal => ?_
      simpa using passes.mpr legal
    · rw [← fails e']
      simp

namespace World

variable {others : List FiberId} {w : World} {r : Option FiberId} {h : List FiberId} {f : Fiber}

/-! ## 2. Refusals by where a fiber stands -/

theorem resumeRefusal_eq (sound : Stage.Sound others ⟨w, r, .exec, h⟩)
    (found : w.thread.fiber? f.id = some f) :
    (w.resumeRefusal f).2 =
      if f.state.canResume then r.map fun task => .notOnMainFiber f.id task
      else some (.invalidState "resume" f.id f.state) := by
  by_cases can : f.state.canResume
  · rw [if_pos can]
    cases r with
    | none =>
      obtain ⟨rests, notMain⟩ := rests_of_canResume sound.thread found can
      refine accepted_of_awaited sound found notMain ?_
      cases eq : f.state <;> simp_all [FiberState.canResume, FiberState.terminal]
    | some task =>
      obtain ⟨-, other⟩ := sound.thread.apart task rfl
      simp [resumeRefusal, Fiber.resumeRefusal?, can, currentFiber_of_runner sound.thread, other]
  · rw [if_neg can]
    simp [resumeRefusal, Fiber.resumeRefusal?, can]

/-- A task that rests has a stack and is not turned away as a main fiber. -/
theorem yieldRefusal_of_rests (rests : f.Rests) {current : FiberId} (other : current ≠ f.id) :
    f.yieldRefusal? current = some (if f.state = .term then .notRunning f.id current
      else .invalidState "yield" f.id f.state) := by
  have onStack := Fiber.isMain_of_lease rests.lease
  cases rests with
  | waiting _ state => simp [Fiber.yieldRefusal?, state, FiberState.canYield]
  | suspended _ state =>
    rcases state with state | state <;> simp [Fiber.yieldRefusal?, state, FiberState.canYield]
  | finished _ state =>
    cases eq : f.state <;>
      simp_all [Fiber.yieldRefusal?, FiberState.canYield, FiberState.terminal]

theorem yieldRefusal_eq (sound : Stage.Sound others ⟨w, r, .exec, h⟩)
    (found : w.thread.fiber? f.id = some f) :
    f.yieldRefusal? w.thread.currentId =
      if r = some f.id then none
      else if w.thread.main = some f.id ∧ r = none then some (.mainFiberYield f.id)
      else if f.state = .term then some (.notRunning f.id w.thread.currentId)
      else some (.invalidState "yield" f.id f.state) := by
  by_cases mine : r = some f.id
  · -- the fiber that runs is the current one
    subst mine
    obtain ⟨g, foundRunner, -, runs⟩ := sound.thread.runner_runs
    obtain rfl : f = g := by simpa [found] using foundRunner
    have current : w.thread.current = some f.id := sound.thread.current
    have onStack := Fiber.isMain_of_lease runs.onStack
    simp [Fiber.yieldRefusal?, runs.state, FiberState.canYield, onStack, Thread.currentId, current]
  · rw [if_neg mine]
    by_cases isMain : w.thread.main = some f.id
    · obtain ⟨g, foundMain, -, presides⟩ := sound.thread.main_presides isMain
      obtain rfl : f = g := by simpa [found] using foundMain
      cases presides with
      | home noStack callback state context =>
        simp [isMain, Fiber.yieldRefusal?, state, FiberState.canYield, Fiber.isMain, noStack]
      | parked noStack callback state context body awaits =>
        simp [Fiber.yieldRefusal?, state, FiberState.canYield]
    · have rests := sound.thread.rests found isMain mine
      have other : w.thread.currentId ≠ f.id := by
        intro same
        have current := current_of_currentId sound found same
        rw [sound.thread.current] at current
        cases r with
        | none => exact isMain current
        | some task => exact mine current
      have away : ¬ (w.thread.main = some f.id ∧ r = none) := fun both => isMain both.1
      rw [yieldRefusal_of_rests rests other, if_neg away]
      exact apply_ite some ..

theorem resetRefusal_eq (sound : Stage.Sound others ⟨w, r, .exec, h⟩)
    (found : w.thread.fiber? f.id = some f) :
    f.resetRefusal? =
      if w.thread.main = some f.id then some (.noStack f.id)
      else if f.state.canReset then none
      else some (.invalidState "reset" f.id f.state) := by
  by_cases isMain : w.thread.main = some f.id
  · obtain ⟨g, foundMain, -, presides⟩ := sound.thread.main_presides isMain
    obtain rfl : f = g := by simpa [found] using foundMain
    simp [Fiber.resetRefusal?, Fiber.isMain, presides.lease, isMain]
  · have onStack : f.isMain = false := by
      have fits := sound.thread.fits f (Thread.mem_of_fiber? found)
      by_cases mine : r = some f.id
      · exact Fiber.isMain_of_lease (fits.runs isMain mine).onStack
      · exact Fiber.isMain_of_lease (fits.rests isMain mine).lease
    simp [Fiber.resetRefusal?, onStack, isMain]

/-! ## 3. The refusals follow the table -/

section

variable (sound : Stage.Sound others ⟨w, r, .exec, h⟩) (found : w.thread.fiber? f.id = some f)

include sound found

theorem mayResume_iff : (w.resumeRefusal f).2 = none ↔ w.thread.MayResume f := by
  have task : w.thread.task? = r := sound.thread.task
  rw [resumeRefusal_eq sound found]
  constructor
  · intro passes
    have can : f.state.canResume := by
      by_cases can : f.state.canResume
      · exact can
      · simp [can] at passes
    obtain rfl : r = none := by simpa [can] using passes
    obtain ⟨-, notMain⟩ := rests_of_canResume sound.thread found can
    refine ⟨notMain, ?_, task⟩
    cases eq : f.state <;> simp_all [FiberState.canResume]
  · rintro ⟨-, state, idle⟩
    obtain rfl : r = none := task.symm.trans idle
    rcases state with state | state | state <;> simp [state, FiberState.canResume]

theorem resumeError_iff (e : FiberError) :
    (w.resumeRefusal f).2 = some e ↔ w.thread.ResumeError f e := by
  have task : w.thread.task? = r := sound.thread.task
  rw [resumeRefusal_eq sound found]
  constructor
  · intro refused
    by_cases can : f.state.canResume
    · obtain ⟨id, rfl, rfl⟩ : ∃ id, r = some id ∧ .notOnMainFiber f.id id = e := by
        simpa [can] using refused
      refine .busy ?_ task
      cases eq : f.state <;> simp_all [FiberState.canResume]
    · obtain rfl : .invalidState "resume" f.id f.state = e := by simpa [can] using refused
      refine .state ?_
      cases eq : f.state <;> simp_all [FiberState.canResume]
  · rintro (bad | ⟨able, runs⟩)
    · rcases bad with state | state | state <;> simp [state, FiberState.canResume]
    · obtain rfl := task.symm.trans runs
      cases eq : f.state <;> simp_all [FiberState.canResume]

theorem mayYield_iff :
    f.yieldRefusal? w.thread.currentId = none ↔ w.thread.MayYield f := by
  have task : w.thread.task? = r := sound.thread.task
  rw [yieldRefusal_eq sound found, Thread.MayYield, task]
  by_cases mine : r = some f.id
  · simp [mine]
  · rw [if_neg mine]
    refine iff_of_false ?_ mine
    split
    · simp
    · split <;> simp

theorem yieldError_iff (e : FiberError) :
    f.yieldRefusal? w.thread.currentId = some e ↔ w.thread.YieldError f e := by
  have task : w.thread.task? = r := sound.thread.task
  constructor
  · intro refused
    rw [yieldRefusal_eq sound found] at refused
    split at refused
    · cases refused
    · rename_i other
      rw [← task] at other
      split at refused
      · rename_i home
        cases refused
        exact .main home.1 (task.trans home.2)
      · rename_i away
        rw [← task] at away
        split at refused <;> cases refused
        · exact .ended ‹_›
        · exact .state other away ‹_›
  · intro due
    cases due with
    | main mine idle =>
      obtain rfl := task.symm.trans idle
      simp [yieldRefusal_eq sound found, mine]
    | ended term =>
      -- a fiber that has ended neither runs nor presides
      obtain ⟨notMain, notRunner, -, -⟩ := sound.thread.rests_of_canReset found
        (FiberState.canReset_of_terminal (by simp [term, FiberState.terminal]))
      simp [yieldRefusal_eq sound found, notMain, notRunner, term]
    | state other away goes =>
      rw [task] at other away
      rw [yieldRefusal_eq sound found, if_neg other, if_neg away, if_neg goes]

theorem mayReset_iff : f.resetRefusal? = none ↔ w.thread.MayReset f := by
  rw [resetRefusal_eq sound found]
  constructor
  · intro passes
    have notMain : w.thread.main ≠ some f.id := fun mine => by simp [mine] at passes
    refine ⟨notMain, ?_⟩
    cases eq : f.state <;> simp_all [FiberState.canReset]
  · rintro ⟨notMain, state⟩
    rcases state with state | state | state <;> simp [notMain, state, FiberState.canReset]

theorem resetError_iff (e : FiberError) :
    f.resetRefusal? = some e ↔ w.thread.ResetError f e := by
  rw [resetRefusal_eq sound found]
  constructor
  · intro refused
    by_cases isMain : w.thread.main = some f.id
    · rw [if_pos isMain] at refused
      cases refused
      exact .main isMain
    · rw [if_neg isMain] at refused
      split at refused <;> cases refused
      refine .state isMain ?_
      cases eq : f.state <;> simp_all [FiberState.canReset]
  · rintro (mine | ⟨notMain, bad⟩)
    · rw [if_pos mine]
    · rw [if_neg notMain]
      cases eq : f.state <;> simp_all [FiberState.canReset]

end

/-! ## 4. Calls -/

/-- Do something with a fiber under a handle of its own. -/
def under (w : World) (f : Fiber) (act : World → Fiber → World × Outcome) : World × Outcome :=
  letGo f.id (act (w.hold f.id) { f with handles := f.handles + 1 })

def tryResume (w : World) (f : Fiber) : World × Outcome :=
  w.under f fun w f => w.resume .checked f (.resume .checked f.id)

def tryYield (w : World) (f : Fiber) : World × Outcome :=
  w.under f fun w f => w.suspend .checked f .ready (.pause .checked f.id)

def tryReset (w : World) (f : Fiber) (body : List Op) (tag : Option String)
    (keep : List FiberRef) : World × Outcome :=
  w.under f fun w f =>
    let (w, keep) := w.holdAll keep
    w.reset .checked f ⟨body, tag, keep⟩

/-- The calls on a fiber come to what the table says. -/
structure Judges (w : World) (f : Fiber) : Prop where
  resume : (w.tryResume f).2.Settles .next f.state (w.thread.MayResume f)
    (w.thread.ResumeError f)
  yield : (w.tryYield f).2.Settles .next f.state (w.thread.MayYield f) (w.thread.YieldError f)
  reset : ∀ body tag keep, (w.tryReset f body tag keep).2.Settles (.done (.state .init)) f.state
    (w.thread.MayReset f) (w.thread.ResetError f)

/-- Letting go of a handle changes no outcome. -/
theorem letGo_outcome (id : FiberId) (x : World × Outcome) : (letGo id x).2 = x.2 := by
  obtain ⟨w, o⟩ := x
  cases o <;> rfl

section

variable (sound : Stage.Sound others ⟨w, r, .exec, h⟩) (found : w.thread.fiber? f.id = some f)

include sound found

/-- The fiber under its new handle. -/
theorem held_sound : Stage.Sound others ⟨w.hold f.id, r, .exec, f.id :: h⟩ ∧
    (w.hold f.id).thread.fiber? f.id = some { f with handles := f.handles + 1 } := by
  have stays : Stays (fun _ => True) ⟨w, r, .exec, h⟩ ⟨w.hold f.id, r, .exec, f.id :: h⟩ :=
    hold_stays found
  refine ⟨stays.sound sound, ?_⟩
  have keeps : ∀ x : Fiber, { x with handles := x.handles + 1 }.id = x.id := fun _ => rfl
  change (w.thread.update f.id fun f => { f with handles := f.handles + 1 }).fiber? f.id = _
  simp [Thread.fiber?_update _ _ _ _ keeps, found]

theorem tryResume_outcome : (w.tryResume f).2 =
    (w.resumeRefusal f).2.elim .next fun e => .done (.refused f.state e) := by
  obtain ⟨sound', found'⟩ := held_sound sound found
  have same : ((w.hold f.id).resumeRefusal { f with handles := f.handles + 1 }).2 =
      (w.resumeRefusal f).2 :=
    (resumeRefusal_eq sound' found').trans (resumeRefusal_eq sound found).symm
  have state : ((w.hold f.id).resumeRefusal { f with handles := f.handles + 1 }).1.stateOf f.id =
      f.state := stateOf_resumeRefusal (g := { f with handles := f.handles + 1 }) found'
  rw [tryResume, under, letGo_outcome, resume]
  rw [← same]
  rcases eq : (w.hold f.id).resumeRefusal { f with handles := f.handles + 1 } with ⟨v, _ | e⟩ <;>
    rw [eq] at state
  · rfl
  · exact congrArg (fun s => Outcome.done (.refused s e)) state

theorem tryYield_outcome : (w.tryYield f).2 =
    (f.yieldRefusal? w.thread.currentId).elim .next fun e => .done (.refused f.state e) := by
  obtain ⟨sound', found'⟩ := held_sound sound found
  rw [tryYield, under, letGo_outcome]
  cases refusal : f.yieldRefusal? w.thread.currentId with
  | none =>
    obtain ⟨v, passes⟩ : ∃ v, (w.hold f.id).suspend .checked { f with handles := f.handles + 1 }
        .ready (.pause .checked f.id) = (v, .next) := suspend_next sound' found' refusal
    exact congrArg Prod.snd passes
  | some e =>
    have refused : Fiber.yieldRefusal? { f with handles := f.handles + 1 }
        (w.hold f.id).thread.currentId = some e := refusal
    have state : (w.hold f.id).stateOf f.id = f.state := by simp only [stateOf, found']
    simp only [suspend, refused, reject, state, Option.elim_some]

theorem tryReset_outcome (body : List Op) (tag : Option String) (keep : List FiberRef) :
    (w.tryReset f body tag keep).2 =
      f.resetRefusal?.elim (.done (.state .init)) fun e => .done (.refused f.state e) := by
  obtain ⟨sound', found'⟩ := held_sound sound found
  have held : Stays (fun _ => True) _ _ := holdAll_stays keep sound'
  obtain ⟨n, found''⟩ := fiber?_holdAll keep found'
  rw [tryReset, under, letGo_outcome]
  rcases eq : (w.hold f.id).holdAll keep with ⟨v, ids⟩
  rw [eq] at held found''
  have after : Stage.Sound others ⟨v, r, .exec, (Callback.mk body tag ids).keep ++ f.id :: h⟩ :=
    held.sound sound'
  -- the state of the fiber is read off after the callback is turned away or bound
  have mine : f.id ∈ f.id :: h := by simp
  simp only
  cases refusal : f.resetRefusal? with
  | none =>
    have accepted : Fiber.resetRefusal? { f with handles := n } = none := refusal
    have bound : Stays (fun _ => True) _ _ :=
      rebind_stays (f := { f with handles := n }) after found'' (canReset_of_reset accepted)
    obtain ⟨g, there⟩ := (bound.sound after).thread.exists_of_held mine
    have state := (bound_of_rebind (f := { f with handles := n }) found'' there).1
    have settled : (v.rebind { f with handles := n } ⟨body, tag, ids⟩).stateOf f.id = .init := by
      simp only [stateOf, there, state]
    change (v.reset .checked { f with handles := n } ⟨body, tag, ids⟩).2 = _
    simp only [reset, accepted, settled, Option.elim_none]
  | some e =>
    have rejected : Fiber.resetRefusal? { f with handles := n } = some e := refusal
    have dropped : Stays (fun _ => True) _ _ :=
      refuse_stays (w := v) (r := r) (h := f.id :: h) ⟨body, tag, ids⟩
    obtain ⟨g, there⟩ := (dropped.sound after).thread.exists_of_held mine
    obtain ⟨g', before, same⟩ := fiber?_release there
    rw [dropTag_thread, found''] at before
    cases before
    have state : (v.dropCallback tag ids).stateOf f.id = f.state := by
      simp only [stateOf, there]
      rw [same]
    change (v.reset .checked { f with handles := n } ⟨body, tag, ids⟩).2 = _
    simp only [reset, rejected, reject, state, Option.elim_some]

/-- The calls on a fiber of a thread that is ready for its next operation. -/
theorem judges_of_sound : w.Judges f where
  resume := .of_refusal (mayResume_iff sound found) (resumeError_iff sound found) (by simp)
    (tryResume_outcome sound found)
  yield := .of_refusal (mayYield_iff sound found) (yieldError_iff sound found) (by simp)
    (tryYield_outcome sound found)
  reset body tag keep := .of_refusal (mayReset_iff sound found) (resetError_iff sound found) (by simp)
    (tryReset_outcome sound found body tag keep)

end

/-! ## 5. References -/

/-- What a script calls a fiber by denotes it, and the calls that it makes are calls on
that fiber. -/
structure Denotes (w : World) (ref : FiberRef) (u : World) (f : Fiber) : Prop where
  there : f ∈ u.thread.fibers
  resume : w.perform (.resume .checked ref) = u.tryResume f
  yield : w.perform (.pause .checked ref) = u.tryYield f
  reset : ∀ body tag keep,
    w.perform (.reset .checked ref body tag keep) = u.tryReset f body tag keep

theorem denotes_of_fetch {ref : FiberRef} {u : World} {id : FiberId}
    (fetched : w.fetch ref = (u, some id)) (found : u.thread.fiber? id = some f) :
    w.Denotes ref u f := by
  obtain rfl : f.id = id := Thread.id_of_fiber? found
  refine ⟨Thread.mem_of_fiber? found, ?_, ?_, fun body tag keep => ?_⟩
  all_goals
    rw [perform]
    exact (onFiber_eq fetched found _).2

end World

/-! ## 6. Whole runs -/

namespace Machine

/-- Where an operation executes, the checked calls on every fiber of the thread come
to what the table says, also on the main fiber that a reference to the current fiber
brings into being. -/
theorem calls_judged (level : Option Level) (hook : ReportHook) (script : List Op) (n : Nat)
    (op : Op) (w : World) (goes : ((start level hook script).steps n).done = false)
    (starts : ((start level hook script).steps n).world.Starts op w) :
    (∀ f ∈ w.thread.fibers, w.Judges f) ∧
      ∀ ref u id, w.fetch ref = (u, some id) → ∃ f, f.id = id ∧ w.Denotes ref u f ∧ u.Judges f := by
  obtain ⟨r, here, ready⟩ := (sound_of_goes goes).running
  obtain ⟨sound, -⟩ := starts.sound here (ready (finished_of_goes goes))
  refine ⟨fun f mem => ?_, fun ref u id fetched => ?_⟩
  · exact World.judges_of_sound sound (Thread.fiber?_of_mem sound.thread.distinct mem)
  · have stays : Stays (fun _ => True) _ _ := World.fetch_stays ref sound
    have there : ∃ f, (w.fetch ref).1.thread.fiber? id = some f :=
      World.exists_of_fetch sound (by rw [fetched])
    rw [fetched] at stays there
    obtain ⟨f, found⟩ := there
    obtain rfl : f.id = id := Thread.id_of_fiber? found
    exact ⟨f, rfl, World.denotes_of_fetch fetched found,
      World.judges_of_sound (stays.sound sound) found⟩

/-- A task is created and resumed, and it tries to resume itself. -/
def resumingItself : List Op :=
  [.create (.named "f") minStackSize .heap [.resume .checked .current] none [],
    .resume .trusted (.slot (.named "f"))]

/-- That call is judged while the task runs, and so are calls on the main fiber, which has
resumed it. -/
theorem own_call_judged : ∃ w f g,
    ((start none .sink resumingItself).steps 2).world.Starts (.resume .checked .current) w ∧
      w.fetch .current = (w, some 1) ∧ f.id = 1 ∧ w.thread.task? = some 1 ∧
      w.Denotes .current w f ∧ w.Judges f ∧
      w.thread.main = some 2 ∧ w.thread.fiber? 2 = some g ∧ w.Judges g := by
  obtain ⟨trace, second⟩ := first_task_enters .sink (rfl : resumingItself = _)
  let w := (World.firstEntered .sink [.resume .checked .current] [] trace).goOn
    [.ops [], .task 1 none []]
  have starts : ((start none .sink resumingItself).steps 2).world.Starts
      (.resume .checked .current) w := by
    rw [second]
    exact ⟨[], [.task 1 none []], rfl, rfl⟩
  obtain ⟨judged, denoted⟩ := calls_judged none .sink resumingItself 2 _ w
    (by rw [second]; rfl) starts
  obtain ⟨f, same, denotes, judges⟩ := denoted .current w 1 rfl
  exact ⟨w, f, _, starts, rfl, same, rfl, denotes, judges, rfl, rfl,
    judged _ (Thread.mem_of_fiber? (rfl : w.thread.fiber? 2 = some _))⟩

end Machine

end FiberEngine
