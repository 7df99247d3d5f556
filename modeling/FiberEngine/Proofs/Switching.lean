/-
FiberEngine.Proofs.Switching — resuming, suspending, resetting and ending fibers.

A request on a fiber is refused, or it does what it is for. `Lands` says what
every request comes to: an answer or a panic that leaves the code where it was,
a switch after which other code goes on, or the end of the process, for which
there is a cause. `resume_lands`, `suspend_lands` and `reset_lands` say so of the
three requests that a fiber can refuse, and `finish_comes` of the end of a
callback.

What a request never meets is an assertion of the engine itself: a fiber that is
resumed has a context to go on with, a callback if it is to enter one, and code
of the main fiber to come back to.
-/
import FiberEngine.Proofs.Creating

namespace FiberEngine

variable {texts fatal : String → Prop} {others : List FiberId}

/-! ## 1. What a request comes to -/

/-- Code that can go on: a body, or an operation that waited above one. One that
waited for a fiber is of the main fiber, and the fiber is another one. -/
inductive Thread.Ready (t : Thread) (o : Option FiberId) : Prop
  | body (body : Body o t.frames)
  | behind {p : Pending} {k : List Frame} (frames : t.frames = .waiting p :: k) (body : Body o k)
    (home : ∀ id, p.Awaits id → o = none ∧ t.main ≠ some id)

/-- Code with anything but a waiting operation on top is a body. -/
theorem Thread.Ready.code {t : Thread} {o : Option FiberId} {fr : Frame} {k : List Frame}
    (ready : t.Ready o) (frames : t.frames = fr :: k) (busy : ∀ p, fr ≠ .waiting p) :
    Body o (fr :: k) := by
  cases ready with
  | body body => exact frames ▸ body
  | behind waits => exact absurd (List.cons.inj (frames.symm.trans waits)).1 (busy _)

/-- Below an operation that waits there is a body. -/
theorem Thread.Ready.below {t : Thread} {o : Option FiberId} {p : Pending} {k : List Frame}
    (ready : t.Ready o) (frames : t.frames = .waiting p :: k) :
    Body o k ∧ ∀ id, p.Awaits id → o = none ∧ t.main ≠ some id := by
  cases ready with
  | body body =>
    rw [frames] at body
    cases body with
    | inner inner rest => cases inner
  | behind waits body home =>
    obtain ⟨⟨rfl⟩, rfl⟩ := List.cons.inj (frames.symm.trans waits)
    exact ⟨body, home⟩

/-- Where control is after some code of `r` has run: code that does not answer a
resume goes on, that of `r` if `r` is a task; or the task gives way, and the
resume of this task is answered. If its callback has ended, `ends` holds of its
last state. -/
inductive World.Continues (w : World) (ends : FiberState → Prop) (r : Option FiberId) : Prop
  | ahead (waits : ∀ p k id, w.thread.frames = .waiting p :: k → ¬ p.Awaits id)
    (same : r = none ∨ w.thread.task? = r)
  | back {id : FiberId} {p : Pending} {k : List Frame} (was : r = some id)
    (frames : w.thread.frames = .waiting p :: k) (awaits : p.Awaits id)
    (entered : w.stateOf id ≠ .init) (ended : (w.stateOf id).terminal → ends (w.stateOf id))

theorem World.Continues.mono {w : World} {ends more : FiberState → Prop} {r : Option FiberId}
    (continues : w.Continues ends r) (weaker : ∀ s, ends s → more s) : w.Continues more r := by
  cases continues with
  | ahead waits same => exact .ahead waits same
  | back was frames awaits entered ended =>
    exact .back was frames awaits entered fun terminal => weaker _ (ended terminal)

theorem World.continues_of_body {w : World} {ends : FiberState → Prop} {r : Option FiberId}
    (body : Body r w.thread.frames) : w.Continues ends r := by
  refine .ahead ?_ (.inr body.owner)
  intro p k id frames
  rw [frames] at body
  cases body with
  | inner inner rest => cases inner

/-- The stage of a world between two operations: the handles of the running code
are those in its frames. -/
abbrev World.stage (w : World) (r : Option FiberId) : Stage :=
  ⟨w, r, .exec, Frame.allHandles w.thread.frames⟩

/-- The process has ended, and it left what another process has. -/
def World.Over (p : Process) (w : World) : Prop :=
  w.process.halted = true ∧ w.process.trace = p.trace ∧ w.process.nextId = p.nextId ∧
    w.process.level = p.level

/-- The end of the process: by a violated contract, or by a hook that panics over
the report of a fault. -/
inductive Falls (texts fatal : String → Prop) (a : Stage) : World → Prop
  | contract {w : World} {message : String} {r : Option FiberId} {h : List FiberId}
    (leads : Leads texts a ⟨w, r, .exec, h⟩) (cause : fatal message) :
    Falls texts fatal a (w.reportFatal message).1.abort
  | fault {w v : World} {id : FiberId} {p : Payload} {h : List FiberId}
    (leads : Leads texts a ⟨w, some id, .except, h⟩) (ok : texts (faultText p id w.thread.name))
    (panics : (w.report (faultText p id w.thread.name)).2 ≠ none)
    (past : World.Over (w.report (faultText p id w.thread.name)).1.abort.process v) :
    Falls texts fatal a v

/-- What a request comes to, when it leaves the running code the handles `h`. An
early return is no request. -/
inductive Lands (texts fatal : String → Prop) (a : Stage) (h : List FiberId) :
    World × Outcome → Prop
  | done {w : World} {reply : Reply} (stays : Stays texts a ⟨w, a.runner, .exec, h⟩)
    (plain : reply.Plain) : Lands texts fatal a h (w, .done reply)
  | panicked {w : World} {p : Payload} (stays : Stays texts a ⟨w, a.runner, .exec, h⟩) :
    Lands texts fatal a h (w, .panicked p)
  | next {w : World} {r : Option FiberId} (leads : Leads texts a (w.stage r))
    (ready : w.thread.Ready r) (continues : w.Continues (fun _ => False) a.runner) :
    Lands texts fatal a h (w, .next)
  | aborted {w : World} (falls : Falls texts fatal a w) : Lands texts fatal a h (w, .aborted)
  | started {w : World} {kind : ThreadKind} {body : List Op}
    (leads : Leads texts a (w.stage a.runner))
    (frames : w.thread.frames = .waiting (.join kind none) :: a.world.thread.frames) :
    Lands texts fatal a h (w, .started (World.child kind body))

theorem Falls.after {a b : Stage} {w : World} (first : Leads texts a b)
    (falls : Falls texts fatal b w) : Falls texts fatal a w := by
  cases falls with
  | contract leads cause => exact .contract (first.trans leads) cause
  | fault leads ok panics past => exact .fault (first.trans leads) ok panics past

theorem Falls.halted {a : Stage} {w : World} (falls : Falls texts fatal a w) :
    w.process.halted = true := by
  cases falls with
  | contract leads cause => rfl
  | fault leads ok panics past => exact past.1

/-- A request after something that stays in place. -/
theorem Lands.after {a b : Stage} {h : List FiberId} {x : World × Outcome} (first : Stays texts a b)
    (lands : Lands texts fatal b h x) : Lands texts fatal a h x := by
  cases lands with
  | done stays plain => exact .done (first.runner ▸ first.trans stays) plain
  | panicked stays => exact .panicked (first.runner ▸ first.trans stays)
  | next leads ready continues =>
    exact .next (first.leads.trans leads) ready (first.runner ▸ continues)
  | aborted falls => exact .aborted (falls.after first.leads)
  | started leads frames =>
    exact .started (first.runner ▸ first.leads.trans leads) (frames.trans (by rw [first.frames]))

/-- An operation releases its handle when it is complete or left by a panic. -/
theorem Lands.letGo {a : Stage} {id : FiberId} {h : List FiberId} {x : World × Outcome}
    (lands : Lands texts fatal a (id :: h) x) : Lands texts fatal a h (World.letGo id x) := by
  cases lands with
  | done stays plain =>
    exact .done (stays.trans (World.release_stays [id])) plain
  | panicked stays => exact .panicked (stays.trans (World.release_stays [id]))
  | next leads ready continues => exact .next leads ready continues
  | aborted falls => exact .aborted falls
  | started leads frames => exact .started leads frames

/-! ## 2. Refusals -/

namespace World

variable {w : World} {r : Option FiberId} {h : List FiberId} {f : Fiber}

theorem reportFatal_stays {message : String} (ok : texts (fatalText message)) :
    Stays texts ⟨w, r, .exec, h⟩ ⟨(w.reportFatal message).1, r, .exec, h⟩ ∨
      (w.reportFatal message).2 = none := by
  unfold reportFatal
  split
  · exact .inr rfl
  · exact .inl (.report ok)

/-- A violated contract ends the process, unless the hook panics. -/
theorem fatal_lands {message : String} (ok : texts (fatalText message)) (cause : fatal message) :
    Lands texts fatal ⟨w, r, .exec, h⟩ h (w.fatal message) := by
  have falls : Falls texts fatal ⟨w, r, .exec, h⟩ (w.reportFatal message).1.abort :=
    .contract (.refl _) cause
  have stays := reportFatal_stays (w := w) (r := r) (h := h) ok
  unfold World.fatal
  split <;> rename_i eq <;> rw [eq] at falls stays
  · exact .aborted falls
  · rcases stays with stays | none
    · exact .panicked stays
    · cases none

/-- A refused request answers why, or ends the process. -/
theorem reject_lands {m : Manner} {id : FiberId} {e : FiberError} (refusal : e.Refusal)
    (permitted : m = .trusted → texts (fatalText e.message) ∧ fatal e.message) :
    Lands texts fatal ⟨w, r, .exec, h⟩ h (w.reject m id e) := by
  cases m with
  | checked => exact .done (.refl _) refusal
  | trusted =>
    obtain ⟨ok, cause⟩ := permitted rfl
    exact fatal_lands ok cause

theorem fiber?_currentFiber {id : FiberId} (found : w.thread.fiber? id = some f) :
    w.currentFiber.1.thread.fiber? id = some f := by
  unfold currentFiber
  split
  · exact found
  · split
    · exact found
    · have same := (w.count.1).log_same (.mainCreated w.process.nextId)
      have inserted : (w.thread.insert (Fiber.main w.process.nextId)).fiber? id = some f := by
        rw [Thread.fiber?_insert, found, Option.some_or]
      change (((w.count.1).log (.mainCreated w.process.nextId)).thread.insert
        (Fiber.main w.process.nextId)).fiber? id = some f
      rw [same.thread]
      exact inserted

/-! ## 3. Resuming -/

/-- While no task runs, a fiber that can be resumed is a task at rest. -/
theorem rests_of_canResume {s : FiberState} (sound : w.thread.Sound none s h)
    (found : w.thread.fiber? f.id = some f) (can : f.state.canResume) :
    f.Rests ∧ w.thread.main ≠ some f.id := by
  have notMain : w.thread.main ≠ some f.id := by
    intro mine
    obtain ⟨g, foundMain, -, presides⟩ := sound.main_presides mine
    obtain rfl : f = g := by simpa [found] using foundMain
    cases presides with
    | home noStack callback state context => simp [state, FiberState.canResume] at can
  exact ⟨sound.rests found notMain (by simp), notMain⟩

theorem resumeRefusal_stays (sound : Stage.Sound others ⟨w, r, .exec, h⟩) (f : Fiber) :
    Stays texts ⟨w, r, .exec, h⟩ ⟨(w.resumeRefusal f).1, r, .exec, h⟩ := by
  have asked : Stays texts _ _ := currentFiber_stays sound
  unfold resumeRefusal
  split
  · exact .refl _
  · split
    split
    · rename_i eq _
      rw [eq] at asked
      exact asked
    · rename_i eq _
      rw [eq] at asked
      exact asked

/-- A refused resume is refused for one of two causes. -/
theorem refusal_of_resume {e : FiberError} (sound : Stage.Sound others ⟨w, r, .exec, h⟩)
    (found : w.thread.fiber? f.id = some f) (refused : (w.resumeRefusal f).2 = some e) :
    e.Refusal := by
  unfold resumeRefusal Fiber.resumeRefusal? at refused
  by_cases can : f.state.canResume
  · simp only [can, if_true] at refused
    split at refused
    · rename_i main
      cases r with
      | some task =>
        -- the main fiber would be the task that runs
        rw [currentFiber_of_runner sound.thread] at main
        exact absurd main (sound.thread.apart task rfl).2
      | none =>
        obtain ⟨rests, -⟩ := rests_of_canResume sound.thread found can
        cases rests <;> simp_all
    · cases refused
      trivial
  · simp only [can] at refused
    cases refused
    trivial

/-- A resume that is not refused is one of a task at rest by the main fiber. -/
theorem accepted_of_resume (sound : Stage.Sound others ⟨w, r, .exec, h⟩)
    (accepted : (w.resumeRefusal f).2 = none) :
    r = none ∧ f.state.canResume ∧ (w.resumeRefusal f).1 = w.currentFiber.1 := by
  unfold resumeRefusal Fiber.resumeRefusal? at accepted ⊢
  by_cases can : f.state.canResume
  · simp only [can, if_true] at accepted ⊢
    split at accepted
    · rename_i main
      cases r with
      | some task =>
        rw [currentFiber_of_runner sound.thread] at main
        exact absurd main (sound.thread.apart task rfl).2
      | none => simp [main]
    · cases accepted
  · simp [can] at accepted

/-- A fiber that was never resumed enters its callback. -/
theorem switchTo_fresh {p : Pending} {cb : Callback} (context : f.context = some .fresh)
    (callback : f.pending = some cb) : w.switchTo f p =
      (((w.log (.resumed f.id f.state)).depart f.id p).begin f.id cb).log (.entered f.id) := by
  simp only [switchTo, context, enter, callback]
  rfl

theorem frames_switchTo_fresh {p : Pending} {cb : Callback} (context : f.context = some .fresh)
    (callback : f.pending = some cb) :
    (w.switchTo f p).thread.frames = [.ops cb.body, .task f.id cb.tag cb.keep] := by
  rw [switchTo_fresh context callback, (log_same _ _).thread]
  rfl

/-- The main fiber gives way to a task at rest, and the code of the task goes on. -/
theorem switchTo_leads {main : FiberId} {p : Pending}
    (isMain : w.thread.main = some main) (found : w.thread.fiber? f.id = some f)
    (ne : f.id ≠ main) (rests : f.Rests) (can : f.state.canResume)
    (body : Body none w.thread.frames) (awaits : p.Awaits f.id) :
    Leads texts ⟨w, none, .exec, [f.id]⟩ ((w.switchTo f p).stage (some f.id)) ∧
      (w.switchTo f p).thread.Ready (some f.id) ∧
        (w.switchTo f p).Continues (fun _ => False) none := by
  have logged : Stays texts ⟨w, none, .exec, [f.id]⟩
      ⟨w.log (.resumed f.id f.state), none, .exec, [f.id]⟩ := .log _ trivial
  have same := (w.log_same (.resumed f.id f.state)).thread
  rw [← same] at isMain found body
  cases rests with
  | @waiting lease cb onStack state context callback =>
    have moved : Leads texts _ _ := .move (.enter isMain found ne body awaits context callback)
    have frames := frames_switchTo_fresh (w := w) (p := p) context callback
    have handles :
        Frame.allHandles [.ops cb.body, .task f.id cb.tag cb.keep] = f.id :: cb.keep := by
      simp [Frame.handles]
    have body : Body (some f.id) (w.switchTo f p).thread.frames := by
      rw [frames]
      exact .ops cb.body (.task f.id cb.tag cb.keep)
    refine ⟨?_, .body body, .ahead ?_ (.inl rfl)⟩
    rotate_left
    · intro q k id same
      rw [frames] at same
      cases same
    rw [stage, frames, switchTo_fresh context callback, handles]
    exact (logged.leads.trans moved).trans (Stays.log (.entered f.id) trivial).leads
  | @suspended lease q k onStack state context callback body' pauses =>
    have resumed : w.switchTo f p =
        ((w.log (.resumed f.id f.state)).depart f.id p).goOn (.waiting q :: k) := by
      simp only [switchTo, context]
      rfl
    have moved : Leads texts _ _ := .move (.resume isMain found ne body awaits context)
    have suspends : ∀ id, ¬ q.Awaits id := by
      intro id awaits'
      cases q <;> simp_all [Pending.Awaits, Pending.Pauses]
    rw [resumed]
    refine ⟨logged.leads.trans moved, .behind rfl body' fun id awaits' => ?_, ?_⟩
    · exact absurd awaits' (suspends id)
    · refine .ahead ?_ (.inl rfl)
      intro q' k' id same
      obtain rfl : q = q' := Frame.waiting.inj (List.cons.inj same).1
      exact suspends id
  | finished onStack state context callback =>
    cases eq : f.state <;> simp_all [FiberState.terminal, FiberState.canResume]

/-- The main fiber is there once a resume is asked for, and a fiber that can be resumed is
another one, which rests. -/
theorem rests_beside_main (sound : Stage.Sound others ⟨w, none, .exec, h⟩)
    (found : w.thread.fiber? f.id = some f) (can : f.state.canResume) :
    w.currentFiber.1.thread.main = some w.currentFiber.2 ∧
      w.currentFiber.1.thread.fiber? f.id = some f ∧ f.id ≠ w.currentFiber.2 ∧ f.Rests := by
  have after := (currentFiber_stays sound : Stays (fun _ => True) _ _).sound sound
  have isMain := main_of_currentFiber sound
  have there := fiber?_currentFiber found
  obtain ⟨rests, notMain⟩ := rests_of_canResume after.thread there can
  exact ⟨isMain, there, fun same => notMain (same ▸ isMain), rests⟩

/-- A resume is refused, or it switches into the fiber. -/
theorem resume_lands {m : Manner} {p : Pending}
    (sound : Stage.Sound others ⟨w, r, .exec, f.id :: Frame.allHandles w.thread.frames⟩)
    (found : w.thread.fiber? f.id = some f) (body : Body r w.thread.frames)
    (awaits : p.Awaits f.id)
    (permitted : ∀ e, m = .trusted → (w.resumeRefusal f).2 = some e →
      texts (fatalText e.message) ∧ fatal e.message) :
    Lands texts fatal ⟨w, r, .exec, f.id :: Frame.allHandles w.thread.frames⟩
      (f.id :: Frame.allHandles w.thread.frames) (w.resume m f p) := by
  have stays : Stays texts _ _ := resumeRefusal_stays sound f
  unfold resume
  split
  · rename_i v e eq
    rw [eq] at stays
    exact (reject_lands (refusal_of_resume sound found (by rw [eq]))
      fun trusted => permitted e trusted (by rw [eq])).after stays
  · rename_i v eq
    obtain ⟨rfl, can, same⟩ := accepted_of_resume sound (f := f) (by rw [eq])
    obtain rfl : v = w.currentFiber.1 := by rw [← same, eq]
    rw [eq] at stays
    have frames : w.currentFiber.1.thread.frames = w.thread.frames := stays.frames
    obtain ⟨isMain, there, ne, rests⟩ := rests_beside_main sound found can
    rw [body.script_handles] at stays ⊢
    rw [← frames] at body
    obtain ⟨leads, ready, continues⟩ := switchTo_leads isMain there ne rests can body awaits
    exact .next (stays.leads.trans leads) ready continues

/-! ## 4. Suspending -/

/-- While a task runs, the code of the main fiber is parked. -/
theorem mainFrames_of_runner {task : FiberId} {s : FiberState}
    (sound : w.thread.Sound (some task) s h) :
    ∃ main p k, w.thread.main = some main ∧ main ≠ task ∧ w.mainFrames = .ok (.waiting p :: k) ∧
      Body none k ∧ p.Awaits task := by
  obtain ⟨some_main, other⟩ := sound.apart task rfl
  obtain ⟨main, isMain⟩ := Option.ne_none_iff_exists'.mp some_main
  obtain ⟨g, found, -, presides⟩ := sound.main_presides isMain
  cases presides with
  | parked noStack callback state context body awaits =>
    refine ⟨main, _, _, isMain, fun same => other (same ▸ isMain), ?_, body, awaits⟩
    simp [mainFrames, isMain, found, context]

/-- The code that comes back is ready to go on. -/
theorem ready_of_parked {task main : FiberId} {p : Pending} {k : List Frame} {t : Thread}
    (frames : t.frames = .waiting p :: k) (isMain : t.main = some main) (ne : main ≠ task)
    (body : Body none k) (awaits : p.Awaits task) : t.Ready none := by
  refine .behind frames body fun id awaits' => ⟨rfl, ?_⟩
  obtain rfl : task = id := by
    cases p <;> simp_all [Pending.Awaits]
  rw [isMain]
  simpa using ne

/-- A switch back leaves the state of the task as it is. -/
theorem stateOf_comeBack {task main : FiberId} (context : Context) (k : List Frame)
    (isMain : w.thread.main = some main) (ne : task ≠ main) :
    (w.comeBack task main context k).stateOf task = w.stateOf task := by
  have thread := comeBack_thread context k isMain ne
  have found := Thread.fiber?_crossed (congrArg Thread.fibers thread) (fun _ => rfl)
    (fun _ => rfl) task
  rw [stateOf, stateOf, found]
  cases eq : w.thread.fiber? task with
  | none => rfl
  | some f => simp [Thread.Sound.crossed, Thread.id_of_fiber? eq]

theorem stateOf_of_runner {task : FiberId} {s : FiberState}
    (sound : w.thread.Sound (some task) s h) : w.stateOf task = s := by
  obtain ⟨f, found, -, runs⟩ := sound.runner_runs
  simp only [stateOf, found, runs.state]

/-- What the main fiber goes on with does not change with other parts of a fiber. -/
theorem mainFrames_update (w : World) (id : FiberId) (c : Fiber → Fiber)
    (keeps : ∀ f, (c f).id = f.id) (context : ∀ f, (c f).context = f.context) :
    (w.onThread fun t => t.update id c).mainFrames = w.mainFrames := by
  have same : ∀ other, ((w.thread.update id c).fiber? other).bind Fiber.context =
      (w.thread.fiber? other).bind Fiber.context := by
    intro other
    rw [Thread.fiber?_update _ _ _ _ keeps]
    cases w.thread.fiber? other with
    | none => rfl
    | some g =>
      simp only [Option.map_some, Option.bind_some]
      split
      · exact context g
      · rfl
  unfold mainFrames
  simp only [onThread, same]
  rfl

theorem mainFrames_setState (w : World) (id : FiberId) (state : FiberState) :
    (w.onThread fun t => t.setState id state).mainFrames = w.mainFrames :=
  w.mainFrames_update id _ (fun _ => rfl) fun _ => rfl

/-- A switch away from the main fiber parks its code. -/
theorem mainFrames_of_parked {w v : World} {x main : FiberId} {c : Fiber → Fiber} {p : Pending}
    {k k' : List Frame} {current : Option FiberId} (isMain : w.thread.main = some main)
    (ne : x ≠ main) (there : w.thread.fiber? main ≠ none)
    (thread : v.thread = { w.thread with
      fibers := w.thread.fibers.map (Thread.Sound.crossed x main c (Thread.Sound.parkedIn p k))
      current, frames := k' }) (hc : ∀ f, (c f).id = f.id) : v.mainFrames = .ok (.waiting p :: k) := by
  obtain ⟨g, found⟩ := Option.ne_none_iff_exists'.mp there
  have after := Thread.fiber?_crossed (congrArg Thread.fibers thread) hc (fun _ => rfl) main
  have mine := Thread.id_of_fiber? found
  have other : ¬ g.id = x := fun same => ne (same.symm.trans mine)
  rw [found, Option.map_some, Thread.Sound.crossed, if_neg other, if_pos mine] at after
  have isMain' : v.thread.main = some main := (congrArg Thread.main thread).trans isMain
  simp [mainFrames, isMain', after, Thread.Sound.parkedIn]

/-- A switch back leads to the parked code. -/
theorem switchBack_eq {main id : FiberId} {k : List Frame} (context : Context)
    (isMain : w.thread.main = some main) (parked : w.mainFrames = .ok k) :
    w.switchBack id context = (w.comeBack id main context k, none) := by
  obtain rfl : main = w.thread.main.getD 0 := by rw [isMain, Option.getD_some]
  simp only [switchBack, parked]
  rfl

/-- A fiber whose id is that of the current fiber is the current fiber: no fiber has the
id zero. -/
theorem current_of_currentId (sound : Stage.Sound others ⟨w, r, .exec, h⟩)
    (found : w.thread.fiber? f.id = some f) (mine : w.thread.currentId = f.id) :
    w.thread.current = some f.id := by
  have positive := (sound.numbered f.id (List.mem_append_left _
    (List.mem_map_of_mem (Thread.mem_of_fiber? found)))).1
  cases eq : w.thread.current with
  | none =>
    rw [Thread.currentId, eq] at mine
    exact absurd mine (Nat.ne_of_lt positive)
  | some id =>
    rw [Thread.currentId, eq] at mine
    exact congrArg some mine

/-- Only the task that runs is not turned away when it yields. -/
theorem runner_of_yield (sound : Stage.Sound others ⟨w, r, .exec, h⟩)
    (found : w.thread.fiber? f.id = some f) (accepted : f.yieldRefusal? w.thread.currentId = none) :
    r = some f.id ∧ f.state = .exec := by
  unfold Fiber.yieldRefusal? at accepted
  split at accepted
  · cases accepted
  · split at accepted
    · cases accepted
    · split at accepted
      · cases accepted
      · rename_i can onStack mine
        have current := current_of_currentId sound found (by simpa using mine)
        rw [sound.thread.current] at current
        cases r with
        | none =>
          -- the main fiber would have a stack
          have isMain : w.thread.main = some f.id := current
          obtain ⟨g, foundMain, -, presides⟩ := sound.thread.main_presides isMain
          obtain rfl : f = g := by simpa [found] using foundMain
          simp [Fiber.isMain, presides.lease] at onStack
        | some task =>
          obtain rfl : task = f.id := Option.some.inj current
          obtain ⟨g, foundRunner, -, runs⟩ := sound.thread.runner_runs
          obtain rfl : f = g := by simpa [found] using foundRunner
          exact ⟨rfl, runs.state⟩

/-- A yield is refused for one of three causes. -/
theorem refusal_of_yield {e : FiberError} {current : FiberId}
    (refused : f.yieldRefusal? current = some e) : e.Refusal := by
  unfold Fiber.yieldRefusal? at refused
  split at refused
  · cases refused
    trivial
  · split at refused
    · cases refused
      trivial
    · split at refused <;> cases refused
      trivial

/-- The task that runs stands aside, and the code of the main fiber goes on. -/
theorem yield_leads {id : FiberId} {p : Pending} (next : Parking)
    (sound : Stage.Sound others
      ⟨w, some id, .exec, p.handles ++ Frame.allHandles w.thread.frames⟩)
    (body : Body (some id) w.thread.frames) (pauses : p.Pauses id)
    (parks : p.parking? = some next) :
    ∃ v, (w.onThread fun t => t.setState id next.state).switchBack id
        (.suspended (.waiting p :: w.thread.frames)) = (v, none) ∧
      Leads texts ⟨w, some id, .exec, p.handles ++ Frame.allHandles w.thread.frames⟩
        (v.stage none) ∧ v.thread.Ready none ∧ v.Continues (fun _ => False) (some id) := by
  obtain ⟨main, q, k, isMain, ne, parked, body', awaits⟩ := mainFrames_of_runner sound.thread
  have back : (w.onThread fun t => t.setState id next.state).switchBack id
      (.suspended (.waiting p :: w.thread.frames)) = _ :=
    switchBack_eq _ isMain ((mainFrames_setState w id next.state).trans parked)
  refine ⟨_, back, .move (.yield next isMain parked body pauses parks), ?_, ?_⟩
  · refine ready_of_parked rfl ?_ ne body' awaits
    rw [comeBack_thread _ _ (by exact isMain) ne.symm]
    exact isMain
  · have aside : (w.onThread fun t => t.setState id next.state).stateOf id = next.state :=
      stateOf_of_runner (sound.thread.conclude next.state)
    refine .back rfl rfl awaits ?_ ?_
    all_goals rw [stateOf_comeBack _ _ (by exact isMain) ne.symm, aside]
    · cases next <;> simp [Parking.state]
    · cases next <;> simp [Parking.state, FiberState.terminal]

/-- A yield that is not refused, once the main fiber has code to come back to. -/
theorem suspend_eq {m : Manner} {next : Parking} {p : Pending} {main : FiberId} {k : List Frame}
    (isMain : w.thread.main = some main) (parked : w.mainFrames = .ok k) (running : f.state = .exec)
    (accepted : f.yieldRefusal? w.thread.currentId = none) :
    w.suspend m f next p =
      (((w.log (.yielded f.id next.state)).onThread fun t => t.setState f.id next.state).comeBack
        f.id main (.suspended (.waiting p :: w.thread.frames)) k, .next) := by
  have same := (w.log_same (.yielded f.id next.state)).thread
  have notDone : ¬ f.state = .term := by simp [running]
  have there : (w.log (.yielded f.id next.state)).mainFrames = .ok k := by
    rw [mainFrames, same]
    exact parked
  have back : ((w.log (.yielded f.id next.state)).onThread fun t =>
      t.setState f.id next.state).switchBack f.id (.suspended (.waiting p :: w.thread.frames)) = _ :=
    switchBack_eq _ (by rw [← isMain, ← same]; rfl) ((mainFrames_setState _ _ _).trans there)
  have frames : ((w.log (.yielded f.id next.state)).onThread fun t =>
      t.setState f.id next.state).thread.frames = w.thread.frames := by rw [← same]; rfl
  simp only [suspend, accepted, if_neg notDone, frames, back]

/-- A yield is refused, or it switches back to the main fiber. -/
theorem suspend_lands {m : Manner} {next : Parking} {p : Pending}
    (sound : Stage.Sound others ⟨w, r, .exec, p.handles ++ Frame.allHandles w.thread.frames⟩)
    (found : w.thread.fiber? f.id = some f) (body : Body r w.thread.frames)
    (pauses : p.Pauses f.id) (parks : p.parking? = some next)
    (permitted : ∀ e, m = .trusted → f.yieldRefusal? w.thread.currentId = some e →
      texts (fatalText e.message) ∧ fatal e.message) :
    Lands texts fatal ⟨w, r, .exec, p.handles ++ Frame.allHandles w.thread.frames⟩
      (p.handles ++ Frame.allHandles w.thread.frames) (w.suspend m f next p) := by
  unfold suspend
  split
  · rename_i e refused
    exact reject_lands (refusal_of_yield refused) fun trusted => permitted e trusted refused
  · rename_i accepted
    obtain ⟨rfl, running⟩ := runner_of_yield sound found accepted
    have logged : Stays texts ⟨w, some f.id, .exec, p.handles ++ Frame.allHandles w.thread.frames⟩
        ⟨w.log (.yielded f.id next.state), some f.id, .exec,
          p.handles ++ Frame.allHandles w.thread.frames⟩ := .log (.yielded f.id next.state) trivial
    have after := logged.sound sound
    have frames : (w.log (.yielded f.id next.state)).thread.frames = w.thread.frames :=
      logged.frames
    rw [← frames] at after body
    obtain ⟨v, back, leads, ready, continues⟩ := yield_leads next after body pauses parks
    have notDone : ¬ f.state = .term := by simp [running]
    rw [frames] at leads
    simp only [if_neg notDone]
    split <;> rename_i eq
    · cases eq.symm.trans back
    · cases eq.symm.trans back
      exact .next (logged.leads.trans leads) ready continues

/-! ## 5. Resetting -/

/-- Two changes of a fiber are one if they agree on it. -/
theorem update_congr {t : Thread} {id : FiberId} {c d : Fiber → Fiber} (distinct : t.Distinct)
    (found : t.fiber? id = some f) (same : c f = d f) : t.update id c = t.update id d := by
  simp only [Thread.update]
  congr 1
  apply List.map_congr_left
  intro g mem
  by_cases mine : g.id = id
  · have found' := Thread.fiber?_of_mem distinct mem
    rw [mine, found] at found'
    obtain rfl := Option.some.inj found'
    simp [mine, same]
  · simp [mine]

/-- A fiber that is in a state already does not change. -/
theorem setState_eq_self {t : Thread} {id : FiberId} {state : FiberState}
    (already : ∀ g ∈ t.fibers, g.id = id → g.state = state) : t.setState id state = t := by
  have same : t.fibers.map (fun g => if g.id = id then { g with state } else g) = t.fibers := by
    conv => rhs; rw [← List.map_id t.fibers]
    apply List.map_congr_left
    intro g mem
    by_cases mine : g.id = id
    · rw [if_pos mine, ← already g mem mine]
      rfl
    · simp [mine]
  simp only [Thread.setState, Thread.update, same]

/-- Destroy a callback that was not entered, if there is one. -/
def dropPending (w : World) : Option Callback → World
  | some cb => w.dropCallback cb.tag cb.keep
  | none => w

/-- Bind a fiber to a callback, and destroy the one that it never entered. -/
def bindAnew (w : World) (f : Fiber) (cb : Callback) : World :=
  (w.onThread fun t => t.update f.id (Fiber.bound cb)).dropPending f.pending

theorem bindAnew_stays {cb : Callback} (found : w.thread.fiber? f.id = some f)
    (can : f.state.canReset) :
    Stays texts ⟨w, r, .exec, cb.keep ++ h⟩ ⟨w.bindAnew f cb, r, .exec, h⟩ := by
  have installed : Stays texts ⟨w, r, .exec, cb.keep ++ h⟩
      ⟨(w.onThread fun t => t.update f.id (Fiber.bound cb)).dropTag (f.pending.bind Callback.tag),
        r, .exec, f.pending.elim [] Callback.keep ++ h⟩ := by
    refine ⟨.move (.install cb found can), rfl, ?_⟩
    rw [dropTag_thread]
    rfl
  unfold bindAnew
  cases callback : f.pending with
  | none =>
    rw [callback] at installed
    exact installed
  | some old =>
    rw [callback] at installed
    exact installed.trans (release_stays old.keep)

section

variable {cb : Callback} (sound : Stage.Sound others ⟨w, r, .exec, cb.keep ++ h⟩)
  (found : w.thread.fiber? f.id = some f) (can : f.state.canReset)

include sound found can

/-- An accepted reset binds the fiber to its new callback. One that it never entered is
destroyed while the fiber waits for the new one already. -/
theorem rebind_eq : w.rebind f cb = (w.bindAnew f cb).log (.fiberReset f.id f.state) := by
  obtain ⟨notMain, notRunner, -, -⟩ := sound.thread.rests_of_canReset found can
  cases sound.thread.rests found notMain notRunner with
  | @waiting lease old onStack state context callback =>
    have bound : (w.onThread fun t => t.update f.id fun f =>
        { f with context := some .fresh, pending := some cb }) =
          w.onThread fun t => t.update f.id (Fiber.bound cb) := by
      simp only [onThread]
      rw [update_congr sound.thread.distinct found]
      simp [Fiber.bound, ← state]
    have settled : (w.bindAnew f cb).onThread (fun t => t.setState f.id .init) =
        w.bindAnew f cb := by
      rw [onThread, setState_eq_self]
      intro g mem mine
      have stays : Stays (fun _ => True) ⟨w, r, .exec, cb.keep ++ h⟩ _ := bindAnew_stays found can
      have there := Thread.fiber?_of_mem (stays.sound sound).thread.distinct mem
      simp only [bindAnew, callback, dropPending] at there
      rw [mine] at there
      obtain ⟨f', found', same⟩ := fiber?_release there
      rw [dropTag_thread] at found'
      simp only [onThread, Thread.fiber?_update _ _ _ (Fiber.bound cb) fun _ => rfl, found,
        Option.map_some, if_true, Option.some.injEq] at found'
      rw [same, ← found']
      rfl
    have settled : ((w.onThread fun t => t.update f.id (Fiber.bound cb)).dropCallback old.tag
        old.keep).onThread (fun t => t.setState f.id .init) = w.bindAnew f cb := by
      simpa only [bindAnew, callback, dropPending] using settled
    simp only [rebind, callback, bound, settled]
  | suspended onStack state context callback body pauses =>
    rcases state with state | state <;> simp [state, FiberState.canReset] at can
  | finished onStack state context callback =>
    have bound : (w.onThread fun t => t.update f.id fun f =>
        { f with context := some .fresh, pending := some cb }).onThread
          (fun t => t.setState f.id .init) =
        w.onThread fun t => t.update f.id (Fiber.bound cb) := by
      have keeps : ∀ x : Fiber, { x with context := some .fresh, pending := some cb }.id = x.id :=
        fun _ => rfl
      simp only [onThread, Thread.setState]
      rw [Thread.update_update _ _ _ _ keeps]
      rfl
    simp only [rebind, bindAnew, callback, bound, dropPending]

theorem rebind_stays : Stays texts ⟨w, r, .exec, cb.keep ++ h⟩ ⟨w.rebind f cb, r, .exec, h⟩ := by
  rw [rebind_eq sound found can]
  exact (bindAnew_stays found can).trans (.log _ trivial)

end

/-- A reset is turned away for one of two causes. -/
theorem refusal_of_reset {e : FiberError} (refused : f.resetRefusal? = some e) : e.Refusal := by
  unfold Fiber.resetRefusal? at refused
  split at refused
  · cases refused
    trivial
  · split at refused <;> cases refused
    trivial

theorem canReset_of_reset (accepted : f.resetRefusal? = none) : f.state.canReset := by
  unfold Fiber.resetRefusal? at accepted
  split at accepted
  · cases accepted
  · split at accepted
    · assumption
    · cases accepted

/-- A reset binds the fiber to the callback, or the callback is destroyed. -/
theorem reset_lands {m : Manner} {cb : Callback}
    (sound : Stage.Sound others ⟨w, r, .exec, cb.keep ++ h⟩)
    (found : w.thread.fiber? f.id = some f)
    (permitted : ∀ e, m = .trusted → f.resetRefusal? = some e →
      texts (fatalText e.message) ∧ fatal e.message) :
    Lands texts fatal ⟨w, r, .exec, cb.keep ++ h⟩ h (w.reset m f cb) := by
  unfold reset
  split
  · rename_i e refused
    exact (reject_lands (refusal_of_reset refused) fun trusted => permitted e trusted refused).after
      (refuse_stays cb)
  · rename_i accepted
    exact .done (rebind_stays sound found (canReset_of_reset accepted)) trivial

end World

end FiberEngine
