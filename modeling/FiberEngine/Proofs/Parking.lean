/-
FiberEngine.Proofs.Parking — the code of the main fiber while a task runs.

A call that resumes a task parks the code of the main fiber in the context of that
fiber, under the call itself. `World.Calls` lists these calls with the code behind them,
and `parks_of_call` says that just this code is parked once the task runs.

The parked code does not change while the task goes on, whatever its own code does
(`parks_steps`): none of its operations depends on it, so a world in which it is
put into its place again and again is still the same world. Where the callback of the
task ends, the main fiber goes on with it (`finish_eq_of_returns`).
-/
import FiberEngine.Proofs.Interleaving
import FiberEngine.Proofs.Suspension
import FiberEngine.Proofs.Blindness

namespace FiberEngine

variable {others : List FiberId} {h keep : List FiberId} {K k : List Frame}

/-! ## 1. Parked code -/

/-- The main fiber of the thread is away from its code, which is parked. -/
def Thread.Parks (t : Thread) (K : List Frame) : Prop :=
  ∃ main g, t.main = some main ∧ t.fiber? main = some g ∧ g.context = some (.suspended K)

theorem World.parks_iff {w : World} : w.mainFrames = .ok K ↔ w.thread.Parks K := by
  constructor
  · intro parked
    cases isMain : w.thread.main with
    | none => simp [mainFrames, isMain] at parked
    | some main =>
      obtain ⟨g, found, context⟩ := mainFrames_eq_ok isMain parked
      exact ⟨main, g, isMain, found, context⟩
  · rintro ⟨main, g, isMain, found, context⟩
    simp [mainFrames, isMain, found, context]

/-! ## 2. The end of a callback -/

/-- The thread of a task whose callback has ended: the task stands aside for good, with
the handle to itself given up, and the main fiber goes on with some code. -/
def Thread.handBack (t : Thread) (id main : FiberId) (last : FiberState) (k : List Frame) :
    Thread :=
  { t with
    fibers := t.fibers.map (Thread.Sound.crossed id main
      (fun f => { f with state := last, context := some .spent, handles := f.handles - 1 })
      Thread.Sound.atHome)
    current := some main
    frames := k }

namespace World

variable {w u : World} {id main : FiberId} {tag : Option String}

/-- The task stands aside, and no one hears of it. -/
theorem standAside_eq {s : FiberState} (e : Finish)
    (sound : Stage.Sound others ⟨w, some id, s, [id]⟩) (isMain : w.thread.main = some main)
    (parked : w.mainFrames = .ok K) :
    w.standAside id e =
      { w with thread := w.thread.handBack id main s (e.handTo id K) } := by
  obtain ⟨f, found, mine, -⟩ := sound.thread.runner_runs
  obtain ⟨main', -, -, isMain', ne, -⟩ := mainFrames_of_runner sound.thread
  obtain rfl : main' = main := Option.some.inj (isMain'.symm.trans isMain)
  have more : ¬ f.handles ≤ 1 := fun last => (sound.thread.rests_last found last).2.1 rfl
  subst mine
  have less : w.release [f.id] = _ := release_more found more
  have parked' := (w.mainFrames_update f.id (fun f => { f with handles := f.handles - 1 })
    (fun _ => rfl) fun _ => rfl).trans parked
  generalize eq : (w.onThread fun t => t.update f.id fun f => { f with handles := f.handles - 1 }) =
    u at less parked'
  have isMain'' : u.thread.main = some main' := by rw [← eq]; exact isMain
  have thread := comeBack_thread .spent K isMain'' ne.symm
  have fibers : u.thread.fibers.map
      (Thread.Sound.crossed f.id main' (fun f => { f with context := some .spent })
        Thread.Sound.atHome) = (w.thread.handBack f.id main' s K).fibers := by
    rw [← eq]
    simp only [onThread, Thread.update, Thread.handBack, List.map_map]
    refine List.map_congr_left fun g mem => ?_
    by_cases same : g.id = f.id
    · have runs := (sound.thread.fits g mem).runs
        (by rw [same, isMain']; exact fun same => ne (Option.some.inj same)) (congrArg some same.symm)
      have state : g.state = s := runs.state
      simp [Thread.Sound.crossed, same, ← state]
    · simp [Thread.Sound.crossed, same]
  rw [fibers] at thread
  rw [standAside, less, switchBack_eq .spent isMain'' parked']
  change World.mk u.process (Thread.goOn (World.thread _) (e.handTo f.id (Thread.frames _))) = _
  rw [thread, ← eq]
  rfl

theorem report_returns (returns : w.process.hook.panics = false) (text : String) :
    (w.report text).2 = none := by
  rw [← Option.not_isSome_iff_eq_none, w.report_panics, returns]
  exact Bool.false_ne_true

/-- Up to the report of a fault. -/
theorem ended_sound (e : Finish) (sound : Stage.Sound others ⟨w, some id, .exec, id :: keep⟩)
    (base : w.thread.frames.getLast? = some (.task id tag keep)) :
    Stage.Sound others
      ⟨(w.dropCallback tag keep).onThread fun t => t.setState id e.state, some id, e.state, [id]⟩ := by
  have grouped : Leads (fun _ => True) ⟨w, some id, .exec, id :: keep⟩
      ⟨w, some id, .exec, keep ++ [id]⟩ := .regroup (List.perm_append_singleton id keep).symm
  have terminal : e.state.terminal := by cases e <;> rfl
  exact (grouped.trans (.move (.conclude e.state terminal base))).sound sound

theorem reportFault_eq (p : Payload) (returns : w.process.hook.panics = false) :
    w.reportFault id (.faulted p) = (w.report (faultText p id w.thread.name)).1 := by
  have none := report_returns returns (faultText p id w.thread.name)
  simp only [reportFault]
  split <;> rename_i eq <;> rw [eq] at none ⊢
  cases none

theorem reportFault_sound (e : Finish) (sound : Stage.Sound others ⟨w, some id, e.state, h⟩)
    (returns : ∀ p, e = .faulted p → w.process.hook.panics = false) :
    Stage.Sound others ⟨w.reportFault id e, some id, e.state, h⟩ := by
  cases e with
  | returned v => exact sound
  | faulted p =>
    have reported : Leads (fun _ => True) ⟨w, some id, .except, h⟩
        ⟨(w.report (faultText p id w.thread.name)).1, some id, .except, h⟩ :=
      reportOfFault_leads trivial
    rw [reportFault_eq p (returns p rfl)]
    exact reported.sound sound

theorem handBack_setState (t : Thread) (id main : FiberId) (last : FiberState) (k : List Frame) :
    (t.setState id last).handBack id main last k = t.handBack id main last k := by
  simp only [Thread.handBack, Thread.setState, Thread.update, List.map_map]
  congr 1
  refine List.map_congr_left fun f _ => ?_
  by_cases mine : f.id = id <;> simp [Thread.Sound.crossed, mine]

/-- The end of a callback, when the hook takes the report of a fault: the callback is
destroyed, the fault is reported, and the main fiber goes on with its code. -/
theorem finish_eq_of_returns (e : Finish)
    (sound : Stage.Sound others ⟨w, some id, .exec, id :: keep⟩)
    (base : w.thread.frames.getLast? = some (.task id tag keep)) (isMain : w.thread.main = some main)
    (parked : w.mainFrames = .ok K)
    (returns : ∀ p, e = .faulted p → w.process.hook.panics = false) :
    w.finish id tag keep e =
      ⟨(((w.dropCallback tag keep).onThread fun t => t.setState id e.state).reportFault id
          e).process,
        (w.dropCallback tag keep).thread.handBack id main e.state (e.handTo id K)⟩ := by
  have ended := ended_sound e sound base
  have hook : (w.dropCallback tag keep).process.hook = w.process.hook :=
    (w.dropCallback_spares tag keep).hook
  have parked' : (w.dropCallback tag keep).mainFrames = .ok K := by
    obtain ⟨main', p, k, -, -, still, -, -⟩ := mainFrames_of_runner ended.thread
    have still : (w.dropCallback tag keep).mainFrames = .ok (.waiting p :: k) :=
      (mainFrames_setState _ id e.state).symm.trans still
    have before : (w.dropTag tag).mainFrames = .ok (.waiting p :: k) :=
      mainFrames_of_release ((dropTag_thread w tag).symm ▸ isMain) ended.going still
    rw [mainFrames, dropTag_thread, ← mainFrames, parked] at before
    rw [still, ← before]
  have isMain' : (w.dropCallback tag keep).thread.main = some main := by
    rw [dropCallback, release_main, dropTag_thread, isMain]
  have told := reportFault_sound e ended fun p same =>
    (congrArg ReportHook.panics hook).trans (returns p same)
  have thread := reportFault_thread
    ((w.dropCallback tag keep).onThread fun t => t.setState id e.state) id e
  have aside := standAside_eq (K := K) e told (by rw [thread]; exact isMain') (by
    rw [mainFrames, thread, ← mainFrames, mainFrames_setState, parked'])
  rw [finish_eq, aside, thread]
  exact congrArg (World.mk _) (handBack_setState ..)

/-- When the hook panics over the report of a fault, the process ends there and then. -/
theorem finish_of_panics {p : Payload} {x y : World}
    (ended : x = (w.dropCallback tag keep).onThread fun t => t.setState id .except)
    (told : y = (x.report (faultText p id x.thread.name)).1)
    (sound : Stage.Sound others ⟨w, some id, .exec, id :: keep⟩)
    (base : w.thread.frames.getLast? = some (.task id tag keep))
    (panics : w.process.hook.panics = true) :
    (w.finish id tag keep (.faulted p)).process.halted = true ∧
      (w.finish id tag keep (.faulted p)).process.trace.toList =
        x.process.trace.toList ++ x.reportEntries (faultText p id x.thread.name) ++ y.lastEntries := by
  have going : x.process.halted = false := by
    rw [ended]
    exact (ended_sound (.faulted p) sound base).going
  have hook : x.process.hook = w.process.hook := by
    rw [ended]
    exact (w.dropCallback_spares tag keep).hook
  have reports := x.report_reports (faultText p id x.thread.name)
  obtain ⟨q, raises⟩ : ∃ q, x.report (faultText p id x.thread.name) = (y, some q) := by
    rw [told]
    unfold report
    cases eq : x.process.hook with
    | sink | output => simp [← hook, eq, ReportHook.panics] at panics
    | tagged tag b =>
      obtain rfl : b = true := by simpa [← hook, eq, ReportHook.panics] using panics
      exact ⟨_, rfl⟩
  have fault : x.reportFault id (.faulted p) = y.abort := by simp only [reportFault, raises]
  rw [raises] at reports
  have lasts : Over y.abort.process (y.abort.standAside id (.faulted p)) :=
    standAside_over id (.faulted p) ⟨rfl, rfl, rfl, rfl⟩
  have finished : w.finish id tag keep (.faulted p) = y.abort.standAside id (.faulted p) := by
    rw [finish_eq, ← fault, ended]
    rfl
  rw [finished]
  refine ⟨lasts.1, ?_⟩
  rw [lasts.2.1, abort_trace (reports.halted.trans going), reports.trace going]

/-- After the end of its callback the task does not run any more. -/
theorem finish_idle (e : Finish) (sound : Stage.Sound others ⟨w, some id, .exec, id :: keep⟩)
    (base : w.thread.frames.getLast? = some (.task id tag keep))
    (going : (w.finish id tag keep e).process.halted = false) :
    (w.finish id tag keep e).thread.task? = none := by
  obtain ⟨main, p, k, isMain, -, parked, body, -⟩ := mainFrames_of_runner sound.thread
  have returns : ∀ p, e = .faulted p → w.process.hook.panics = false := by
    rintro p rfl
    cases panics : w.process.hook.panics with
    | false => rfl
    | true => cases going.symm.trans (finish_of_panics rfl rfl sound base panics).1
  obtain ⟨q, handed, -, -⟩ := handTo_waiting e id p k
  have frames := congrArg (fun v : World => v.thread.frames)
    (finish_eq_of_returns e sound base isMain parked returns)
  rw [Thread.task?, frames]
  change (e.handTo id _).getLast?.bind _ = none
  rw [handed]
  exact body.owner_cons _

end World

/-! ## 3. The parked code stays -/

/-- Put code into the place of the parked code of a fiber. -/
def Guise.parking (main : FiberId) (K : List Frame) : Guise :=
  ⟨id, fun id k => if id = main then K else k, fun _ body => body⟩

/-- Whatever the main fiber has parked is the given code: putting that into its place
makes no difference. -/
def World.Settled (w : World) (main : FiberId) (K : List Frame) : Prop :=
  Twins main (.parking main K) w w

namespace World

variable {w v : World} {id main : FiberId} {tag : Option String}

theorem settled_iff : w.Settled main K ↔ (Guise.parking main K).thread w.thread = w.thread :=
  ⟨fun settled => settled.thread.symm, fun same => ⟨same.symm, rfl, rfl⟩⟩

theorem Settled.goOn (settled : w.Settled main K) (k : List Frame) : (w.goOn k).Settled main K := by
  rw [settled_iff] at settled ⊢
  exact congrArg (Thread.goOn · k) settled

theorem settled_of_parks (distinct : w.thread.Distinct) (isMain : w.thread.main = some main)
    (parks : w.thread.Parks K) : w.Settled main K := by
  obtain ⟨main', g, isMain', found, context⟩ := parks
  obtain rfl : main' = main := Option.some.inj (isMain'.symm.trans isMain)
  have same : ∀ f ∈ w.thread.fibers, (Guise.parking main' K).fiber f = f := by
    intro f mem
    have callback : ∀ cb, (Guise.parking main' K).callback f.id cb = cb := fun _ => rfl
    have kept : f.context.map ((Guise.parking main' K).context f.id) = f.context := by
      cases there : f.context with
      | none => rfl
      | some c =>
        cases c with
        | fresh | spent => rfl
        | suspended k =>
          by_cases mine : f.id = main'
          · obtain rfl : g = f :=
              distinct.eq_of_id (Thread.mem_of_fiber? found) mem
                ((Thread.id_of_fiber? found).trans mine.symm)
            cases there.symm.trans context
            simp [Guise.context, Guise.parking]
          · simp [Guise.context, Guise.parking, mine]
    simp [Guise.fiber, kept, funext callback]
  rw [settled_iff, Guise.thread, List.map_congr_left same, List.map_id']
  rfl

theorem Settled.parks (settled : w.Settled main K) (isMain : w.thread.main = some main)
    (parks : w.thread.Parks k) : k = K := by
  obtain ⟨main', g, isMain', found, context⟩ := parks
  obtain rfl : main' = main := Option.some.inj (isMain'.symm.trans isMain)
  have same := Guise.fiber?_thread (g := .parking main' K) w.thread main'
  rw [settled_iff.mp settled, found] at same
  have dressed := congrArg Fiber.context (Option.some.inj same)
  have mine := Thread.id_of_fiber? found
  simp only [Guise.fiber, context, Option.map_some, Guise.context, Guise.parking, mine,
    if_true] at dressed
  cases dressed
  rfl

/-- The parked code is the given one for as long as the task runs. -/
def Holding (v : World) (id main : FiberId) (K : List Frame) : Prop :=
  v.process.halted = false → v.thread.task? = some id → v.Settled main K

theorem Settled.holding (settled : v.Settled main K) : v.Holding id main K :=
  fun _ _ => settled

/-- There is nothing to hold where the main fiber has its code back. -/
theorem holding_of_idle (idle : v.process.halted = false → v.thread.task? = none) :
    v.Holding id main K := fun going runs => by
  cases (idle going).symm.trans runs

section

variable (settled : w.Settled main K) (sound : Stage.Sound others (w.stage (some id)))
  (body : Body (some id) w.thread.frames)

include settled sound body

theorem unwind_holding (p : Payload) : (w.unwind p).1.Holding id main K := by
  have stop := body.unwind
  have suffix : (w.thread.frames.dropWhile fun f => !f.stopsPanic) <:+ w.thread.frames :=
    List.dropWhile_suffix _
  unfold unwind
  generalize w.thread.frames.dropWhile (fun f => !f.stopsPanic) = k at stop suffix
  cases stop with
  | catching rest same => exact Settled.holding (emit_twins (settled.goOn _) _)
  | program rest same => exact Settled.holding (endDemo_twins (settled.goOn _) _ _)
  | task mine same =>
    cases mine
    rw [stage, same] at sound
    exact holding_of_idle (finish_idle _ sound (Body.getLast?_of_suffix suffix).symm)
  | script mine same => cases mine

omit settled in
theorem leave_holding (v : Datum) : (w.leave v).1.Holding id main K := by
  have suffix : (w.thread.frames.dropWhile fun f => !f.isBase) <:+ w.thread.frames :=
    List.dropWhile_suffix _
  unfold leave
  rcases body.leave with ⟨f, tag, keep, mine, same, base⟩ | ⟨none, -⟩
  · cases mine
    rw [stage, same] at sound
    rw [base] at suffix ⊢
    exact holding_of_idle (finish_idle _ sound (Body.getLast?_of_suffix suffix).symm)
  · cases none

theorem conclude_holding (name : String) (r : Reply) :
    (w.conclude name r).1.Holding id main K := by
  unfold conclude
  split
  · exact Settled.holding (emit_twins settled _)
  · split
    · exact settled.holding
    · exact unwind_holding settled sound body _

end

/-- What the task does after a request that leaves the parked code alone. -/
theorem settle_holding {a : Stage} {x : World × Outcome} (name : String)
    (settled : x.1.Settled main K) (runner : a.runner = some id) (sound : a.Sound others)
    (body : Body (some id) a.world.thread.frames)
    (lands : Lands (fun _ => True) (fun _ => True) a (Frame.allHandles a.world.thread.frames) x) :
    (settle name x).1.Holding id main K := by
  cases lands with
  | @done v reply stays plain =>
    have frames : v.thread.frames = a.world.thread.frames := stays.frames
    have after := stays.sound sound
    rw [← frames, runner] at after
    exact conclude_holding settled after (frames ▸ body) name reply
  | @panicked v p stays =>
    have frames : v.thread.frames = a.world.thread.frames := stays.frames
    have after := stays.sound sound
    rw [← frames, runner] at after
    exact unwind_holding settled after (frames ▸ body) p
  | next leads ready continues => exact settled.holding
  | aborted falls => exact settled.holding
  | started leads frames => exact settled.holding

theorem away_of_runner (sound : Stage.Sound others ⟨w, some id, .exec, h⟩) : w.Away := by
  obtain ⟨main, -, -, isMain, ne, -⟩ := mainFrames_of_runner sound.thread
  refine ⟨id, sound.thread.current, ?_⟩
  rw [isMain]
  exact fun same => ne (Option.some.inj same)

/-- What a reference denotes while a task runs is in the thread as it is. -/
theorem fetch_of_runner (sound : Stage.Sound others ⟨w, some id, .exec, h⟩) (ref : FiberRef) :
    w.fetch ref = (w, none) ∨
      ∃ g, w.fetch ref = (w, some g.id) ∧ w.thread.fiber? g.id = some g := by
  have same : (w.fetch ref).1 = w := (away_of_runner sound).fetch ref
  rcases fetch_cases ref sound with ⟨u, eq⟩ | ⟨u, g, eq, found⟩ <;> rw [eq] at same <;> subst same
  · exact .inl eq
  · exact .inr ⟨g, eq, found⟩

/-- A request to suspend a fiber is refused, or the main fiber has its code back. -/
theorem suspend_settled {m : Manner} {next : Parking} {p : Pending} {f : Fiber}
    (settled : w.Settled main K) (sound : Stage.Sound others ⟨w, some id, .exec, h⟩)
    (found : w.thread.fiber? f.id = some f) :
    (w.suspend m f next p).1.Settled main K ∨
      ∃ v, w.suspend m f next p = (v, .next) ∧ v.thread.task? = none := by
  cases refused : f.yieldRefusal? w.thread.currentId with
  | none =>
    obtain ⟨-, running⟩ := runner_of_yield sound found refused
    obtain ⟨main, q, k, isMain, -, parked, body, -⟩ := mainFrames_of_runner sound.thread
    exact .inr ⟨_, suspend_eq isMain parked running refused, body.owner_cons _⟩
  | some e =>
    have agree : Agree main (.parking main K) (w.suspend m f next p) _ :=
      suspend_agree_of_refused settled refused
    have same : (Guise.parking main K).fiber f = f := by
      have dressed := Guise.fiber?_thread (g := .parking main K) w.thread f.id
      rw [settled_iff.mp settled, found] at dressed
      exact (Option.some.inj dressed).symm
    rw [same] at agree
    exact .inl agree.twins

section

variable (settled : w.Settled main K) (sound : Stage.Sound others (w.stage (some id)))

include settled sound

/-- A request to suspend a fiber that a reference denotes. -/
theorem pause_settled (m : Manner) (ref : FiberRef) :
    (w.perform (.pause m ref)).1.Settled main K ∨
      ∃ v, w.perform (.pause m ref) = (v, .next) ∧ v.thread.task? = none := by
  rcases fetch_of_runner sound ref with eq | ⟨g, eq, found⟩
  · refine .inl ?_
    simp only [perform, onFiber, eq]
    exact settled
  · obtain ⟨found', performs⟩ := onFiber_eq eq found
      fun w f => w.suspend m f .ready (.pause m f.id)
    have held : Stays (fun _ => True) (w.stage (some id)) _ := hold_stays found
    have performs : w.perform (.pause m ref) = _ := performs
    rw [performs]
    rcases suspend_settled (f := { g with handles := g.handles + 1 }) (hold_twins settled g.id)
      (held.sound sound) found' with still | ⟨v, passes, idle⟩
    · exact .inl (letGo_agree (.of still rfl) g.id).twins
    · exact .inr ⟨v, congrArg (letGo g.id) passes, idle⟩

/-- Whatever operation the task performs, the parked code stays until the task gives way. -/
theorem perform_settled (op : Op) : (w.perform op).1.Settled main K ∨
    ∃ v, w.perform op = (v, .next) ∧ v.thread.task? = none := by
  by_cases request : op.isControl = false
  · exact .inl (perform_agree settled (fun _ _ => rfl) (.inr (away_of_runner sound)) request).twins
  cases op with
  | leave v => exact .inl settled
  | loop times ops =>
    rw [perform]
    split
    · exact .inl settled
    · exact .inl (settled.goOn _)
  | attempt ops => exact .inl ((settled.goOn _).goOn _)
  | thread kind ops =>
    change (w.spawn kind ops).1.Settled main K ∨ _
    unfold spawn
    split
    · exact .inl settled
    · cases kind with
      | engine name => exact .inl (Settled.goOn (log_twins settled _) _)
      | plain name => exact .inl (settled.goOn _)
  | demo d =>
    have started := settled.withProcess fun p => { p with program := some ⟨⟨"", ""⟩, 0, none⟩ }
    exact .inl ((Settled.goOn started _).goOn _)
  | pause m ref => exact pause_settled settled sound m ref
  | park p =>
    have current : w.currentFiber = (w, id) := currentFiber_of_runner sound.thread
    obtain ⟨f, found, mine, -⟩ := sound.thread.runner_runs
    subst mine
    have performs : w.perform (.park p) = w.suspend .trusted f p (.park p) := by
      simp only [perform, current, found]
    rw [performs]
    exact suspend_settled settled sound found
  | _ => exact absurd rfl request

/-- So does it when the task goes on behind the operation. -/
theorem perform_holding (body : Body (some id) w.thread.frames) (op : Op) :
    (settle op.name (w.perform op)).1.Holding id main K := by
  have permits : w.Permits op (fun _ => True) (fun _ => True) :=
    ⟨fun _ => trivial, fun _ _ => trivial, fun _ _ => ⟨trivial, trivial⟩⟩
  by_cases early : ∃ v, op = .leave v
  · obtain ⟨v, rfl⟩ := early
    exact leave_holding sound body v
  have lands := perform_lands sound body (fun v same => early ⟨v, same⟩) permits
  rcases perform_settled settled sound op with still | ⟨v, passes, idle⟩
  · exact settle_holding op.name still rfl sound body lands
  · rw [passes]
    exact holding_of_idle fun _ => idle

end

/-- A step of the task leaves the parked code alone. -/
theorem step_holding (settled : w.Settled main K) (sound : Stage.Sound others (w.stage (some id)))
    (ready : w.thread.Ready (some id)) : w.step.1.Holding id main K := by
  cases ready with
  | @behind p k frames body home =>
    have went : Leads (fun _ => True) (w.stage (some id)) _ := waiting_leads frames body
    have after := went.sound sound
    have agree := carryOn_agree (settled.goOn k) (.inr (away_of_runner after)) p
    simp only [step, frames]
    exact settle_holding (a := ⟨w.goOn k, some id, .exec, p.handles ++ Frame.allHandles k⟩) p.name
      agree.twins rfl after body (carryOn_lands (w := w.goOn k) after body home)
  | body body =>
    generalize frames : w.thread.frames = k at body
    cases body with
    | task f tag keep =>
      rw [stage, frames] at sound
      have account : Frame.allHandles [.task id tag keep] = id :: keep := by simp [Frame.handles]
      rw [account] at sound
      simp only [step, frames]
      exact holding_of_idle (finish_idle _ sound (by rw [frames]; rfl))
    | @inner _ fr k hfr rest =>
      have went : Leads (fun _ => True) (w.stage (some id)) ((w.goOn k).stage (some id)) :=
        popped_leads frames hfr rest
      cases fr with
      | ops ops =>
        cases ops with
        | nil =>
          simp only [step, frames]
          exact (settled.goOn k).holding
        | cons op ops =>
          have began : Leads (fun _ => True) (w.stage (some id))
              ((w.goOn (.ops ops :: k)).stage (some id)) := begun_leads frames rest
          simp only [step, frames]
          exact perform_holding (settled.goOn _) (began.sound sound) (.ops ops rest) op
      | loop times ops =>
        cases times with
        | zero =>
          simp only [step, frames]
          exact (settled.goOn k).holding
        | succ n =>
          simp only [step, frames]
          exact (settled.goOn _).holding
      | catching =>
        simp only [step, frames]
        exact conclude_holding (settled.goOn k) (went.sound sound) rest _ _
      | program d =>
        simp only [step, frames]
        exact Settled.holding (endDemo_twins (settled.goOn k) d none)
      | waiting p => cases hfr
      | task f tag keep => cases hfr
      | script => cases hfr

end World

namespace Machine

variable {m : Machine} {d : Nat} {id : FiberId} {t u : Thread}

theorem hear_parks (e : Ending) : (hear t e).Parks K ↔ t.Parks K := by
  unfold hear
  split <;> rfl

/-- What a thread has parked while it runs a task, if it has parked anything. -/
theorem parks_of_holding {main : FiberId} {v : World} (holding : v.Holding id main K)
    (going : v.process.halted = false) (runs : v.thread.task? = some id)
    (isMain : v.thread.main = some main) (sound : ∃ s h, v.thread.Sound (some id) s h) :
    v.thread.Parks K := by
  obtain ⟨s, h, sound⟩ := sound
  obtain ⟨-, p, k, -, -, parked, -, -⟩ := World.mainFrames_of_runner sound
  have parks := World.parks_iff.mp parked
  rwa [(holding going runs).parks isMain parks] at parks

/-- A thread of a sound machine is sound for the task that it runs, also while it waits. -/
theorem Sound.runs_of_mem (sound : m.Sound) (mem : t ∈ m.threads) (runs : t.task? = some id) :
    ∃ s h, t.Sound (some id) s h := by
  rw [threads, List.mem_append, List.mem_reverse, List.mem_singleton] at mem
  rcases mem with waits | rfl
  · obtain ⟨r, -, -, -, -, thread⟩ := sound.waiting t waits
    obtain rfl : r = some id := thread.task.symm.trans runs
    exact ⟨_, _, thread⟩
  · exact ⟨_, _, (sound.stage_of_task runs).1.thread⟩

/-- A thread that waits stays as it is, or it is told of the end of the one that it waits
for. -/
theorem waits_on (x : World × World.Signal) (below : d < m.spawners.length)
    (here : m.threads[d]? = some t) :
    ∃ u, (m.take x).threads[d]? = some u ∧ (u = t ∨ ∃ e, u = hear t e) := by
  obtain ⟨w, sig⟩ := x
  have below' : d < m.spawners.reverse.length := by simpa using below
  rw [threads, List.getElem?_append_left below'] at here
  have same : ∀ {v : Machine} (ts : List Thread), v.threads = m.spawners.reverse ++ ts →
      ∃ u, v.threads[d]? = some u ∧ (u = t ∨ ∃ e, u = hear t e) := by
    intro v ts eq
    exact ⟨t, by rw [eq, List.getElem?_append_left below', here], .inl rfl⟩
  cases sig with
  | running => exact same [w.thread] rfl
  | started child =>
    have eq : (m.take (w, .started child)).threads = m.spawners.reverse ++ [w.thread, child] := by
      simp [take, threads]
    exact same _ eq
  | ended e =>
    cases waiting : m.spawners with
    | nil => simp [waiting] at below
    | cons parent rest =>
      have eq : (m.take (w, .ended e)).threads = rest.reverse ++ [hear parent e] := by
        simp [take, finishThread, waiting, threads]
      rw [eq]
      rw [waiting, List.reverse_cons] at here
      rw [waiting, List.length_cons] at below
      rcases Nat.lt_or_ge d rest.reverse.length with lt | ge
      · rw [List.getElem?_append_left lt] at here ⊢
        exact ⟨t, here, .inl rfl⟩
      · obtain rfl : d = rest.reverse.length := by
          rw [List.length_reverse] at ge ⊢
          omega
        rw [List.getElem?_concat_length] at here ⊢
        cases here
        exact ⟨_, rfl, .inr ⟨e, rfl⟩⟩

/-- A thread that waits keeps what it has parked. -/
theorem parks_of_waiting {x : World × World.Signal} (below : d < m.spawners.length)
    (here : m.threads[d]? = some t) (parks : t.Parks K)
    (there : (m.take x).threads[d]? = some u) : u.Parks K := by
  obtain ⟨u', there', rfl | ⟨e, rfl⟩⟩ := waits_on x below here <;>
    obtain rfl := Option.some.inj (there'.symm.trans there)
  · exact parks
  · exact (hear_parks e).mpr parks

/-- If a thread still runs a task after its step, the step has neither ended it nor made it
anything but what the step says. -/
theorem Sound.thread_of_runs (sound : m.Sound) (goes : m.done = false)
    (there : m.step.threads[m.spawners.length]? = some u) (still : u.task? = some id) :
    u = m.world.step.1.thread ∧ m.step.world.process = m.world.step.1.process := by
  obtain ⟨r, stage, ready⟩ := sound.running
  have steps := World.step_steps stage (ready (finished_of_goes goes))
  rw [step_eq] at there ⊢
  generalize m.world.step = x at steps there ⊢
  cases steps with
  | @running v comes =>
    have same : v.thread = u :=
      Option.some.inj ((threads_running { m with world := v }).symm.trans there)
    exact ⟨same.symm, rfl⟩
  | @started v r kind ops k leads body frames =>
    have eq : (m.take (v, .started (World.child kind ops))).threads =
        m.spawners.reverse ++ [v.thread, World.child kind ops] := by
      simp [take, threads]
    rw [eq, List.getElem?_append_right (by simp)] at there
    exact ⟨by simpa using there.symm, rfl⟩
  | @ended v e leads body =>
    cases waiting : m.spawners with
    | nil =>
      -- the script of the first thread is no callback
      have stays : Stays (fun _ => True) _ _ := finishFirst_stays m e body _
      have frames : ({ m with world := v }.finishFirst e).world.thread.frames = v.thread.frames :=
        stays.frames
      have eq : (m.take (v, .ended e)).threads =
          [({ m with world := v }.finishFirst e).world.thread] := by
        simp [take, finishThread, waiting, threads, finishFirst]
      have first : m.spawners.length = 0 := by rw [waiting]; rfl
      rw [eq, first, List.getElem?_cons_zero] at there
      obtain rfl : ({ m with world := v }.finishFirst e).world.thread = u := Option.some.inj there
      rw [Thread.task?, frames] at still
      cases body.owner.symm.trans still
    | cons parent rest =>
      have eq : (m.take (v, .ended e)).threads = rest.reverse ++ [hear parent e] := by
        simp [take, finishThread, waiting, threads]
      rw [eq, waiting, List.getElem?_eq_none (by simp)] at there
      cases there

/-- A step of the machine leaves alone what is parked while a task runs, also a step that
another thread makes. -/
theorem Sound.parks_step (sound : m.Sound) (goes : m.done = false)
    (here : m.threads[d]? = some t) (runs : t.task? = some id) (parks : t.Parks K)
    (going : m.step.world.process.halted = false) (there : m.step.threads[d]? = some u)
    (still : u.task? = some id) : u.Parks K := by
  rcases Nat.lt_trichotomy d m.spawners.length with below | same | above
  · rw [step_eq] at there
    exact parks_of_waiting below here parks there
  · subst same
    obtain rfl : m.world.thread = t := Option.some.inj (m.threads_running.symm.trans here)
    obtain ⟨stage, ready⟩ := sound.stage_of_task runs
    have ⟨main, _, isMain, _, _⟩ := parks
    have settled := World.settled_of_parks stage.thread.distinct isMain parks
    have holding := World.step_holding settled stage (ready (finished_of_goes goes))
    obtain ⟨new, -, keeps⟩ := sound.step_adds goes
    have keeps := (keeps going).threads _ _ u here there
    have whole := (sound.step goes going).runs_of_mem (List.mem_of_getElem? there) still
    obtain ⟨rfl, process⟩ := sound.thread_of_runs goes there still
    exact parks_of_holding holding (process ▸ going) still (keeps main isMain) whole
  · rw [m.threads_above above] at here
    cases here

/-- The task runs in the thread with so many threads around it, or has started one there. -/
def RunsAt (m : Machine) (d : Nat) (id : FiberId) : Prop :=
  ∃ t, m.threads[d]? = some t ∧ t.task? = some id

/-- The parked code stays for as long as the task runs. -/
theorem Sound.parks_steps (sound : m.Sound) (k : Nat) (turn : ∀ j ≤ k, (m.steps j).RunsAt d id)
    (parks : ∀ t, m.threads[d]? = some t → t.Parks K)
    (going : (m.steps k).world.process.halted = false) :
    ∀ t, (m.steps k).threads[d]? = some t → t.Parks K := by
  induction k with
  | zero => exact parks
  | succ k ih =>
    intro u there
    obtain ⟨t, here, runs⟩ := turn k (Nat.le_succ k)
    obtain ⟨u', there', still⟩ := turn (k + 1) (Nat.le_refl _)
    obtain rfl : u' = u := Option.some.inj (there'.symm.trans there)
    cases goes : (m.steps k).done with
    | true =>
      rw [steps_succ_of_done goes] at there going
      exact ih (fun j le => turn j (Nat.le_succ_of_le le)) going _ there
    | false =>
      have before := ih (fun j le => turn j (Nat.le_succ_of_le le)) (halted_of_goes goes) t here
      have sound := (sound.steps k).resolve_right (by rw [halted_of_goes goes]; simp)
      rw [steps_succ_of_goes goes] at there going
      exact sound.parks_step goes here runs before going there still

end Machine

/-! ## 4. The calls that park -/

namespace World

variable {w u v : World} {id main : FiberId} {f : Fiber}

/-- The next step makes a call to resume a task, with some code behind it: a resume, or
one of the resumes that a loop of them or an entry function makes. -/
inductive Calls (w : World) (id : FiberId) : Pending → List Frame → Prop
  | resume {m : Manner} {ref : FiberRef} {rest : List Op} {k : List Frame}
    (frames : w.thread.frames = .ops (.resume m ref :: rest) :: k) :
    Calls w id (.resume m id) (.ops rest :: k)
  | drive {ref : FiberRef} {max : Nat} {rest : List Op} {k : List Frame}
    (frames : w.thread.frames = .ops (.drive ref max :: rest) :: k) :
    Calls w id (.drive id 1 max) (.ops rest :: k)
  | driveOn {done max : Nat} {k : List Frame}
    (frames : w.thread.frames = .waiting (.drive id done max) :: k) :
    Calls w id (.drive id (done + 1) max) k
  | entry {size : Nat} {shape : EntryShape} {body rest : List Op} {k : List Frame}
    (frames : w.thread.frames = .ops (.entry size shape body :: rest) :: k) :
    Calls w id (.entry size shape id none) (.ops rest :: k)
  | entryOn {size : Nat} {shape : EntryShape} {result : Option Datum} {k : List Frame}
    (frames : w.thread.frames = .waiting (.entry size shape id result) :: k) :
    Calls w id (.entry size shape id result) k

/-- A refused request is answered, or it is a violated contract. -/
theorem reject_ne_next (m : Manner) (x : FiberId) (e : FiberError) :
    w.reject m x e ≠ (v, .next) := by
  cases m with
  | checked => simp [reject]
  | trusted => rcases eq : w.reportFatal e.message with ⟨y, _ | p⟩ <;> simp [reject, fatal, eq]

/-- A request to resume a task that passes has been accepted. -/
theorem accepted_of_next {m : Manner} {q : Pending} (resumed : w.resume m f q = (v, .next)) :
    ∃ u, w.resumeRefusal f = (u, none) ∧ v = u.switchTo f q := by
  unfold resume at resumed
  split at resumed
  · exact absurd resumed (reject_ne_next _ _ _)
  · rename_i u asked
    cases resumed
    exact ⟨u, asked, rfl⟩

/-- A resume that is accepted parks the code behind it. -/
theorem resume_parks {m : Manner} {p : Pending} (sound : Stage.Sound others ⟨w, none, .exec, h⟩)
    (found : w.thread.fiber? f.id = some f) (resumed : w.resume m f p = (v, .next)) :
    v.thread.Parks (.waiting p :: w.thread.frames) := by
  obtain ⟨u, asked, rfl⟩ := accepted_of_next resumed
  obtain ⟨-, can, same⟩ := accepted_of_resume (f := f) sound (by rw [asked])
  obtain rfl : u = w.currentFiber.1 := by rw [← same, asked]
  have asking : Stays (fun _ => True) _ _ := currentFiber_stays sound
  have after := asking.sound sound
  have isMain := main_of_currentFiber sound
  have there := fiber?_currentFiber found
  have code : w.currentFiber.1.thread.frames = w.thread.frames := asking.frames
  obtain ⟨rests, notMain⟩ := rests_of_canResume after.thread there can
  have ne : f.id ≠ w.currentFiber.2 := fun same => notMain (same ▸ isMain)
  obtain ⟨g, foundMain, -, -⟩ := after.thread.main_presides isMain
  rw [← code]
  generalize w.currentFiber = x at *
  have logged := x.1.log_same (.resumed f.id f.state)
  have there' : (x.1.log (.resumed f.id f.state)).thread.fiber? x.2 ≠ none := by
    rw [logged.thread, foundMain]
    simp
  have isMain' := (congrArg Thread.main logged.thread).trans isMain
  rw [← logged.thread, ← parks_iff]
  cases rests with
  | @waiting lease cb onStack state context callback =>
    have thread := begin_thread p cb isMain' ne
    have parked := mainFrames_of_parked isMain' ne there' thread fun _ => rfl
    rw [switchTo_fresh context callback, mainFrames, (log_same _ _).thread]
    exact parked
  | @suspended lease q k onStack state context callback body pauses =>
    have thread := congrArg (Thread.goOn · (.waiting q :: k)) (depart_thread p isMain' ne)
    have switched : x.1.switchTo f p =
        ((x.1.log (.resumed f.id f.state)).depart f.id p).goOn (.waiting q :: k) := by
      simp only [switchTo, context]
      rfl
    rw [switched]
    exact mainFrames_of_parked isMain' ne there' thread fun _ => rfl
  | finished onStack state context callback =>
    cases eq : f.state <;> simp_all [FiberState.terminal, FiberState.canResume]

/-! ### The step that makes the call -/

/-- A panic in the code of the main fiber leaves the main fiber running. -/
theorem unwind_idle (body : Body none w.thread.frames) (p : Payload) :
    (w.unwind p).1.thread.task? = none := by
  have stop := body.unwind
  unfold unwind
  generalize w.thread.frames.dropWhile (fun f => !f.stopsPanic) = k at stop
  cases stop with
  | catching rest same =>
    simp only [emit_thread]
    exact rest.owner
  | @program d k rest same =>
    have ended : Stays (fun _ => True) _ _ :=
      endDemo_stays (w := w.goOn k) (r := none) (h := []) d (some p)
    exact (congrArg (fun k => k.getLast?.bind Frame.owner?) ended.frames).trans rest.owner
  | task mine same => cases mine
  | script mine same => exact body.owner

theorem conclude_idle (body : Body none w.thread.frames) (name : String) (r : Reply) :
    (w.conclude name r).1.thread.task? = none := by
  unfold conclude
  split
  · rw [emit_thread]
    exact body.owner
  · split
    · exact body.owner
    · exact unwind_idle body _

/-- A request after which a task runs has neither answered nor been left by a panic. -/
theorem next_of_runs {a : Stage} {x : World × Outcome} {name : String}
    (lands : Lands (fun _ => True) (fun _ => True) a h x) (sound : a.Sound others)
    (body : Body none a.world.thread.frames) (going : (settle name x).1.process.halted = false)
    (runs : (settle name x).1.thread.task? = some id) :
    ∃ v, x = (v, .next) ∧ (settle name x).1 = v ∧ Stage.Sound others (v.stage (some id)) := by
  cases lands with
  | @done v reply stays plain =>
    have frames : v.thread.frames = a.world.thread.frames := stays.frames
    cases (conclude_idle (frames ▸ body) name reply).symm.trans runs
  | @panicked v p stays =>
    have frames : v.thread.frames = a.world.thread.frames := stays.frames
    cases (unwind_idle (frames ▸ body) p).symm.trans runs
  | @next v r leads ready continues =>
    have after := leads.sound sound
    obtain rfl : r = some id := after.thread.task.symm.trans runs
    exact ⟨v, rfl, rfl, after⟩
  | @aborted v falls =>
    cases falls.halted.symm.trans going
  | @started v kind ops leads frames =>
    have idle : v.thread.task? = none := by
      rw [Thread.task?, frames]
      exact body.owner_cons _
    cases idle.symm.trans runs

/-- The task that runs is the one for which the parked code waits. -/
theorem awaits_of_parks {p : Pending} {k : List Frame}
    (sound : Stage.Sound others (v.stage (some id))) (parks : v.thread.Parks (.waiting p :: k)) :
    p.Awaits id := by
  obtain ⟨main, q, k', -, -, parked, -, awaits⟩ := mainFrames_of_runner sound.thread
  cases (parks_iff.mpr parks).symm.trans parked
  exact awaits

theorem next_of_letGo {x : World × Outcome} (next : letGo id x = (v, .next)) : x = (v, .next) := by
  obtain ⟨w, o⟩ := x
  cases o <;> cases next
  rfl

theorem driveOn_parks {done max : Nat} (sound : Stage.Sound others ⟨w, none, .exec, h⟩)
    (found : w.thread.fiber? f.id = some f) (next : w.driveOn f done max = (v, .next)) :
    v.thread.Parks (.waiting (.drive f.id (done + 1) max) :: w.thread.frames) := by
  unfold driveOn at next
  split at next
  · cases next
  · exact resume_parks sound found next

theorem entryOn_parks {size : Nat} {shape : EntryShape} {result : Option Datum}
    (sound : Stage.Sound others ⟨w, none, .exec, h⟩) (found : w.thread.fiber? f.id = some f)
    (next : w.entryOn f size shape result = (v, .next)) :
    v.thread.Parks (.waiting (.entry size shape f.id result) :: w.thread.frames) := by
  unfold entryOn at next
  split at next
  · split at next <;> cases next
  · exact resume_parks sound found next

/-- A call under a handle of its own parks what is behind it. -/
theorem onFiber_parks {ref : FiberRef} {act : World → Fiber → World × Outcome}
    {q : FiberId → Pending} (sound : Stage.Sound others ⟨w, none, .exec, h⟩)
    (next : w.onFiber ref act = (v, .next))
    (parks : ∀ {u g h}, Stage.Sound others ⟨u, none, .exec, h⟩ → u.thread.fiber? g.id = some g →
      act u g = (v, .next) → v.thread.Parks (.waiting (q g.id) :: u.thread.frames)) :
    ∃ id, v.thread.Parks (.waiting (q id) :: w.thread.frames) := by
  have fetched : Stays (fun _ => True) _ _ := fetch_stays ref sound
  rcases fetch_cases ref sound with ⟨u, eq⟩ | ⟨u, g, eq, found⟩ <;> rw [eq] at fetched
  · simp [onFiber, eq] at next
  · obtain ⟨found', performs⟩ := onFiber_eq eq found act
    have held : Stays (fun _ => True) _ ⟨u.hold g.id, none, .exec, g.id :: h⟩ :=
      fetched.trans (hold_stays found)
    have parked := parks (g := { g with handles := g.handles + 1 }) (held.sound sound) found'
      (next_of_letGo (performs.symm.trans next))
    rw [held.frames] at parked
    exact ⟨g.id, parked⟩

theorem onHeld_parks {act : Fiber → World × Outcome} {q : Pending}
    (next : w.onHeld id act = (v, .next))
    (parks : ∀ {g}, w.thread.fiber? g.id = some g → g.id = id → act g = (v, .next) →
      v.thread.Parks (.waiting q :: w.thread.frames)) :
    v.thread.Parks (.waiting q :: w.thread.frames) := by
  unfold onHeld at next
  split at next
  · cases next
  · rename_i g found
    have mine := Thread.id_of_fiber? found
    exact parks (mine ▸ found) mine (next_of_letGo next)

/-- An entry function parks what is behind it when it resumes its fiber. -/
theorem enterMain_parks {size : Nat} {shape : EntryShape} {ops : List Op}
    (sound : Stage.Sound others ⟨w, none, .exec, h⟩) (next : w.enterMain size shape ops = (v, .next)) :
    ∃ id, v.thread.Parks (.waiting (.entry size shape id none) :: w.thread.frames) := by
  have asking : Stays (fun _ => True) _ _ := currentFiber_stays sound
  have made : Stays (fun _ => True) ⟨w.currentFiber.1, none, .exec, [] ++ h⟩ _ :=
    createTask_stays (fun _ => trivial) .heap size ⟨ops, none, []⟩
  have whole := asking.trans made
  unfold enterMain at next
  simp only at next
  rcases eq : w.currentFiber.1.createTask .heap size ⟨ops, none, []⟩ with ⟨u, (e | p) | id⟩ <;>
    rw [eq] at whole
  · simp [eq] at next
  · simp [eq] at next
  · simp only [eq] at next
    split at next
    · cases next
    · rename_i f found
      obtain rfl := Thread.id_of_fiber? found
      have parked := entryOn_parks (whole.sound sound) found (next_of_letGo next)
      rw [whole.frames] at parked
      exact ⟨f.id, parked⟩

section

variable (sound : Stage.Sound others (w.stage none)) (ready : w.thread.Ready none)
  (going : w.step.1.process.halted = false) (runs : w.step.1.thread.task? = some id)

include sound ready going runs

/-- An operation of the main fiber after which a task runs. -/
theorem next_of_begun {op : Op} {rest : List Op} {k : List Frame}
    (frames : w.thread.frames = .ops (op :: rest) :: k) (stays : ∀ v, op ≠ .leave v) :
    Stage.Sound others ((w.goOn (.ops rest :: k)).stage none) ∧
      (w.goOn (.ops rest :: k)).perform op = (w.step.1, .next) ∧
        Stage.Sound others (w.step.1.stage (some id)) := by
  have permits : (w.goOn (.ops rest :: k)).Permits op (fun _ => True) (fun _ => True) :=
    ⟨fun _ => trivial, fun _ _ => trivial, fun _ _ => ⟨trivial, trivial⟩⟩
  obtain ⟨after, body⟩ := Starts.sound ⟨rest, k, frames, rfl⟩ sound ready
  have lands := perform_lands after body stays permits
  simp only [step, frames] at going runs ⊢
  obtain ⟨v, next, settled, sound⟩ := next_of_runs lands after body going runs
  rw [settled]
  exact ⟨after, next, sound⟩

/-- An operation of the main fiber that waited, and after which a task runs. -/
theorem next_of_waiting {p : Pending} {k : List Frame} (frames : w.thread.frames = .waiting p :: k) :
    Stage.Sound others ⟨w.goOn k, none, .exec, p.handles ++ Frame.allHandles k⟩ ∧
      (w.goOn k).carryOn p = (w.step.1, .next) ∧ Stage.Sound others (w.step.1.stage (some id)) := by
  obtain ⟨body, home⟩ := ready.below frames
  have went : Leads (fun _ => True) (w.stage none) _ := waiting_leads frames body
  have after := went.sound sound
  have lands : Lands (fun _ => True) (fun _ => True) _ _ _ :=
    carryOn_lands (w := w.goOn k) after body home
  simp only [step, frames] at going runs ⊢
  obtain ⟨v, next, settled, sound⟩ := next_of_runs lands after body going runs
  rw [settled]
  exact ⟨after, next, sound⟩

/-- A call to resume a task that is accepted parks the code of the main fiber behind it. -/
theorem parks_of_call {q : Pending} {k : List Frame} (calls : w.Calls id q k) :
    w.step.1.thread.Parks (.waiting q :: k) := by
  cases calls with
  | @resume m ref rest k frames =>
    obtain ⟨after, next, turned⟩ := next_of_begun sound ready going runs frames (by simp)
    rw [perform] at next
    obtain ⟨x, parks⟩ := onFiber_parks (q := .resume m) after next fun sound found next =>
      resume_parks sound found next
    obtain rfl : x = id := awaits_of_parks turned parks
    exact parks
  | @drive ref max rest k frames =>
    obtain ⟨after, next, turned⟩ := next_of_begun sound ready going runs frames (by simp)
    rw [perform] at next
    obtain ⟨x, parks⟩ := onFiber_parks (q := fun x => .drive x 1 max) after next
      fun sound found next => driveOn_parks sound found next
    obtain rfl : x = id := awaits_of_parks turned parks
    exact parks
  | @driveOn done max k frames =>
    obtain ⟨after, next, -⟩ := next_of_waiting sound ready going runs frames
    rw [carryOn] at next
    refine onHeld_parks next fun found mine accepted => ?_
    subst mine
    exact driveOn_parks after found accepted
  | @entry size shape body rest k frames =>
    obtain ⟨after, next, turned⟩ := next_of_begun sound ready going runs frames (by simp)
    rw [perform] at next
    obtain ⟨x, parks⟩ := enterMain_parks after next
    obtain rfl : x = id := awaits_of_parks turned parks
    exact parks
  | @entryOn size shape result k frames =>
    obtain ⟨after, next, -⟩ := next_of_waiting sound ready going runs frames
    rw [carryOn] at next
    refine onHeld_parks next fun found mine accepted => ?_
    subst mine
    exact entryOn_parks after found accepted

end

end World

namespace Machine

/-- A thread that runs the task behind a call has parked what stands behind the call. -/
theorem Sound.parks_of_call {m : Machine} {id : FiberId} {q : Pending} {k : List Frame} {u : Thread}
    (sound : m.Sound) (goes : m.done = false) (idle : m.world.thread.task? = none)
    (calls : m.world.Calls id q k) (going : m.step.world.process.halted = false)
    (there : m.step.threads[m.spawners.length]? = some u) (runs : u.task? = some id) :
    u.Parks (.waiting q :: k) := by
  obtain ⟨stage, ready⟩ := sound.stage_of_task idle
  obtain ⟨rfl, process⟩ := sound.thread_of_runs goes there runs
  exact World.parks_of_call stage (ready (finished_of_goes goes)) (process ▸ going) runs calls

end Machine

end FiberEngine
