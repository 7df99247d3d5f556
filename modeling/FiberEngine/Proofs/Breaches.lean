/-
FiberEngine.Proofs.Breaches — a trusted request that is rejected.

Where its checked form would be refused, a trusted request makes a fatal report.
With a hook that returns, the process ends there and then: `Machine.Aborts` says
what that means. With a hook that panics, the panic leaves the request instead,
and the code goes on behind the caught block or the fault that stops it.

`perform_breach` finds the rejection in each of the requests. The main statement
is `aborts_iff`.
-/
import FiberEngine.Proofs.Violations

namespace FiberEngine

variable {others : List FiberId}

/-- The hook panics when a report is handed to it. -/
def ReportHook.panics : ReportHook → Bool
  | .tagged _ panics => panics
  | .sink | .output => false

namespace World

variable {w u v x : World} {r : Option FiberId} {h : List FiberId} {f : Fiber} {e : FiberError}

/-! ## 1. Before the rejection -/

/-- Handles are taken, and a main fiber may be created. -/
structure Holds (w v : World) : Prop where
  hook : v.process.hook = w.process.hook
  fibers : ∀ id f, w.thread.fiber? id = some f →
    ∃ n, v.thread.fiber? id = some { f with handles := n }

/-- Whatever was there before and is still there differs in its handles alone. -/
structure Spares (w v : World) : Prop where
  hook : v.process.hook = w.process.hook
  fibers : ∀ id f g, w.thread.fiber? id = some f → v.thread.fiber? id = some g →
    g = { f with handles := g.handles }

theorem Holds.refl (w : World) : Holds w w :=
  ⟨rfl, fun _ f found => ⟨f.handles, found⟩⟩

theorem Holds.trans (first : Holds w u) (second : Holds u v) : Holds w v where
  hook := second.hook.trans first.hook
  fibers id f found := by
    obtain ⟨n, found⟩ := first.fibers id f found
    obtain ⟨k, found⟩ := second.fibers id _ found
    exact ⟨k, found⟩

theorem Holds.spares (first : Holds w u) (second : Spares u v) : Spares w v where
  hook := second.hook.trans first.hook
  fibers id f g before after := by
    obtain ⟨n, between⟩ := first.fibers id f before
    have same := second.fibers id _ g between after
    exact same

theorem Spares.refl (w : World) : Spares w w :=
  ⟨rfl, fun id f g before after => by
    cases before.symm.trans after
    rfl⟩

theorem currentFiber_holds (w : World) : Holds w w.currentFiber.1 where
  hook := by
    unfold currentFiber
    split
    · rfl
    · split
      · rfl
      · exact ((w.count.1).log_same _).hook
  fibers id f found := ⟨f.handles, fiber?_currentFiber found⟩

theorem fetch_holds (w : World) (f : FiberRef) : Holds w (w.fetch f).1 := by
  cases f with
  | slot name => exact .refl w
  | current => exact w.currentFiber_holds

theorem hold_holds (w : World) (id : FiberId) : Holds w (w.hold id) where
  hook := rfl
  fibers other f found := by
    have keeps : ∀ x : Fiber, { x with handles := x.handles + 1 }.id = x.id := fun _ => rfl
    change ∃ n, (w.thread.update id fun f => { f with handles := f.handles + 1 }).fiber? other =
      some { f with handles := n }
    rw [Thread.fiber?_update _ _ _ _ keeps, found]
    by_cases mine : other = id
    · exact ⟨f.handles + 1, by simp [mine]⟩
    · exact ⟨f.handles, by simp [mine]⟩

theorem holdAll_holds (w : World) (fs : List FiberRef) : Holds w (w.holdAll fs).1 := by
  induction fs generalizing w with
  | nil => exact .refl w
  | cons f rest ih =>
    have fetched := w.fetch_holds f
    rcases eq : w.fetch f with ⟨v, _ | id⟩ <;> rw [eq] at fetched <;> simp only [holdAll, eq]
    · exact fetched.trans (ih v)
    · exact (fetched.trans (v.hold_holds id)).trans (ih _)

theorem resumeRefusal_holds (w : World) (f : Fiber) : Holds w (w.resumeRefusal f).1 := by
  have asked := w.currentFiber_holds
  unfold resumeRefusal
  split
  · exact .refl w
  · split
    split <;> rename_i eq _ <;> rw [eq] at asked <;> exact asked

theorem dropCallback_spares (w : World) (tag : Option String) (keep : List FiberId) :
    Spares w (w.dropCallback tag keep) where
  hook := by
    rw [dropCallback, (release_keeps _ _).2.2]
    cases tag with
    | none => rfl
    | some tag => exact (w.emit_same _).hook
  fibers id f g before after := by
    obtain ⟨f', found, same⟩ := fiber?_release after
    rw [dropTag_thread, before] at found
    cases found
    exact same

/-! ## 2. The rejection -/

/-- A violated contract is reported under the handles `ids`. They are released if
the hook panics. -/
def breach (w : World) (ids : List FiberId) (message : String) : World × Outcome :=
  match w.reportFatal message with
  | (w, none) => (w.abort, .aborted)
  | (w, some p) => (w.release ids, .panicked p)

theorem letGo_fatal (w : World) (id : FiberId) (message : String) :
    letGo id (w.fatal message) = w.breach [id] message := by
  unfold fatal breach
  rcases w.reportFatal message with ⟨v, _ | p⟩ <;> rfl

theorem fatal_eq_breach (w : World) (message : String) : w.fatal message = w.breach [] message := by
  unfold fatal breach
  rcases w.reportFatal message with ⟨v, _ | p⟩
  · rfl
  · simp only [release]

/-- A request stays in place until it is rejected, and spares the fibers. -/
structure Rejects (w : World) (r : Option FiberId) (h : List FiberId) (x : World)
    (h' : List FiberId) : Prop where
  stays : ∀ texts, Stays texts ⟨w, r, .exec, h⟩ ⟨x, r, .exec, h'⟩
  spares : Spares w x

theorem letGo_refused {id : FiberId} {a : World × Outcome} {s : FiberState}
    (refused : letGo id a = (v, .done (.refused s e))) :
    ∃ y, a = (y, .done (.refused s e)) := by
  rcases a with ⟨y, reply | _ | p | d | _ | child⟩ <;> cases refused
  exact ⟨y, rfl⟩

theorem onFiber_breach {ref : FiberRef} {checked trusted : World → Fiber → World × Outcome}
    {s : FiberState} (sound : Stage.Sound others ⟨w, r, .exec, h⟩)
    (refused : w.onFiber ref checked = (v, .done (.refused s e)))
    (acts : ∀ {u g y}, Stage.Sound others ⟨u, r, .exec, g.id :: h⟩ →
      u.thread.fiber? g.id = some g → checked u g = (y, .done (.refused s e)) →
      ∃ x, Rejects u r (g.id :: h) x (g.id :: h) ∧ trusted u g = x.fatal e.message) :
    ∃ x ids, Rejects w r h x (ids ++ h) ∧ w.onFiber ref trusted = x.breach ids e.message := by
  have fetched : ∀ texts, Stays texts _ _ := fun texts => fetch_stays ref sound
  have holds := w.fetch_holds ref
  rcases fetch_cases ref sound with ⟨u, eq⟩ | ⟨u, g, eq, found⟩ <;> rw [eq] at fetched holds
  · simp only [onFiber, eq] at refused
    cases refused
  · obtain ⟨found', unfolded⟩ := onFiber_eq eq found checked
    rw [unfolded] at refused
    obtain ⟨y, refused⟩ := letGo_refused refused
    have held : ∀ texts, Stays texts ⟨w, r, .exec, h⟩ ⟨u.hold g.id, r, .exec, g.id :: h⟩ :=
      fun texts => (fetched texts).trans (hold_stays found)
    obtain ⟨x, rejects, fatal⟩ := acts (g := { g with handles := g.handles + 1 })
      ((held fun _ => True).sound sound) found' refused
    refine ⟨x, [g.id], ⟨fun texts => (held texts).trans (rejects.stays texts),
      (holds.trans (u.hold_holds g.id)).spares rejects.spares⟩, ?_⟩
    rw [(onFiber_eq eq found trusted).2, fatal, letGo_fatal]

/-- A resume is rejected after the fiber was asked. -/
theorem resume_breach {p q : Pending} {s : FiberState}
    (sound : Stage.Sound others ⟨w, r, .exec, h⟩) (found : w.thread.fiber? f.id = some f)
    (refused : w.resume .checked f p = (v, .done (.refused s e))) :
    f.state = s ∧ ∃ x, Rejects w r h x h ∧ w.resume .trusted f q = x.fatal e.message := by
  have stays : ∀ texts, Stays texts _ _ := fun texts => resumeRefusal_stays sound f
  have holds := w.resumeRefusal_holds f
  have state := stateOf_resumeRefusal found
  unfold resume at refused ⊢
  rcases eq : w.resumeRefusal f with ⟨x, _ | e'⟩ <;> rw [eq] at refused stays holds state
  · cases refused
  · cases refused
    exact ⟨state.symm, v, ⟨stays, holds.spares (.refl v)⟩, rfl⟩

/-- The task that runs is not rejected when it yields. -/
theorem suspend_next {m : Manner} {next : Parking} {p : Pending}
    (sound : Stage.Sound others ⟨w, r, .exec, h⟩) (found : w.thread.fiber? f.id = some f)
    (accepted : f.yieldRefusal? w.thread.currentId = none) :
    ∃ v, w.suspend m f next p = (v, .next) := by
  obtain ⟨rfl, running⟩ := runner_of_yield sound found accepted
  have same := (w.log_same (.yielded f.id next.state)).thread
  have sound' : (w.log (.yielded f.id next.state)).thread.Sound (some f.id) .exec h :=
    same ▸ sound.thread
  obtain ⟨main, q, k, isMain, -, parked, -, -⟩ := mainFrames_of_runner sound'
  have notDone : ¬ f.state = .term := by simp [running]
  have back : ((w.log (.yielded f.id next.state)).onThread fun t =>
      t.setState f.id next.state).switchBack f.id
        (.suspended (.waiting p :: (w.log (.yielded f.id next.state)).thread.frames)) = _ :=
    switchBack_eq _ isMain ((mainFrames_setState _ f.id next.state).trans parked)
  unfold suspend
  simp only [accepted, if_neg notDone]
  split <;> rename_i eq
  · cases eq.symm.trans back
  · exact ⟨_, rfl⟩

/-- A yield is rejected at once. -/
theorem suspend_breach {next : Parking} {p : Pending} {s : FiberState}
    (sound : Stage.Sound others ⟨w, r, .exec, h⟩) (found : w.thread.fiber? f.id = some f)
    (refused : w.suspend .checked f next p = (v, .done (.refused s e))) :
    f.yieldRefusal? w.thread.currentId = some e := by
  cases rejected : f.yieldRefusal? w.thread.currentId with
  | none =>
    obtain ⟨u, passes⟩ : ∃ u, w.suspend .checked f next p = (u, .next) :=
      suspend_next sound found rejected
    cases passes.symm.trans refused
  | some e' =>
    unfold suspend at refused
    simp only [rejected, reject] at refused
    cases refused
    rfl

/-- A trusted request whose checked form is refused is a breach. -/
theorem perform_breach {op form : Op} {s : FiberState} (sound : Stage.Sound others ⟨w, r, .exec, h⟩)
    (trusts : op.checked? = some form) (calls : op.Calls s)
    (refused : w.perform form = (v, .done (.refused s e))) :
    ∃ x ids, Rejects w r h x (ids ++ h) ∧ w.perform op = x.breach ids e.message := by
  cases op with
  | resume m f =>
    cases m with
    | checked => cases trusts
    | trusted =>
      cases trusts
      rw [perform] at refused ⊢
      exact onFiber_breach sound refused fun sound found refused =>
        (resume_breach sound found refused).2
  | drive f max =>
    cases trusts
    rw [perform] at refused
    rw [perform]
    refine onFiber_breach sound refused fun {u g y} sound found refused => ?_
    obtain ⟨state, x, rejects, fatal⟩ := resume_breach (q := .drive g.id 1 max) sound found refused
    obtain ⟨some_max, goes⟩ := calls
    refine ⟨x, rejects, ?_⟩
    rw [driveOn, state, goes, if_neg (by simpa [Nat.pos_iff_ne_zero] using some_max)]
    exact fatal
  | pause m f =>
    cases m with
    | checked => cases trusts
    | trusted =>
      cases trusts
      rw [perform] at refused ⊢
      refine onFiber_breach sound refused fun {u g y} sound found refused => ?_
      have rejected := suspend_breach sound found refused
      exact ⟨u, ⟨fun _ => .refl _, .refl u⟩, by simp only [suspend, rejected, reject]⟩
  | park p =>
    cases trusts
    have stays : ∀ texts, Stays texts _ _ := fun texts => currentFiber_stays sound
    have holds := w.currentFiber_holds
    obtain ⟨u, g, eq, found⟩ := currentFiber_found sound
    have denotes : w.fetch .current = (u, some g.id) := by simp only [fetch, eq]
    rw [eq] at stays holds
    obtain ⟨found', unfolded⟩ := onFiber_eq denotes found
      fun w f => w.suspend .checked f .ready (.pause .checked f.id)
    rw [perform, unfolded] at refused
    obtain ⟨y, refused⟩ := letGo_refused refused
    have held : Stays (fun _ => True) ⟨w, r, .exec, h⟩ ⟨u.hold g.id, r, .exec, g.id :: h⟩ :=
      (stays _).trans (hold_stays found)
    have rejected : g.yieldRefusal? u.thread.currentId = some e :=
      suspend_breach (w := u.hold g.id) (f := { g with handles := g.handles + 1 })
        (held.sound sound) found' refused
    refine ⟨u, [], ⟨stays, holds.spares (.refl u)⟩, ?_⟩
    simp only [perform, eq, found, suspend, rejected, reject]
    exact fatal_eq_breach u e.message
  | reset m f ops tag keep =>
    cases m with
    | checked => cases trusts
    | trusted =>
      cases trusts
      rw [perform] at refused ⊢
      refine onFiber_breach sound refused fun {u g y} sound found refused => ?_
      have held : ∀ texts, Stays texts _ _ := fun texts => holdAll_stays keep sound
      have holds := u.holdAll_holds keep
      rcases eq : u.holdAll keep with ⟨x, ids⟩
      rw [eq] at held holds
      have sound := (held fun _ => True).sound sound
      simp only [eq] at refused ⊢
      unfold reset at refused ⊢
      cases rejected : g.resetRefusal? with
      | none =>
        simp only [rejected] at refused
        cases refused
      | some e' =>
        simp only [rejected, reject] at refused ⊢
        cases refused
        exact ⟨x.dropCallback tag ids,
          ⟨fun texts => (held texts).trans (refuse_stays ⟨ops, tag, ids⟩),
            holds.spares (x.dropCallback_spares tag ids)⟩, rfl⟩
  | _ => cases trusts

/-! ## 3. The report -/

theorem reportFatal_panics (w : World) (message : String) :
    (w.reportFatal message).2 = none ↔ w.process.hook.panics = false := by
  unfold reportFatal report
  cases hook : w.process.hook with
  | sink | output => simp [ReportHook.panics]
  | tagged tag panics => cases panics <;> simp [ReportHook.panics]

/-- How many reports there are among some entries. -/
def reportsIn (es : List Entry) : Nat :=
  es.countP fun e => e.event.report?.isSome

theorem reportsIn_append (es es' : List Entry) :
    reportsIn (es ++ es') = reportsIn es + reportsIn es' :=
  List.countP_append

theorem reportsIn_silent {es : List Entry} (silent : ∀ e ∈ es, e.event.report? = none) :
    reportsIn es = 0 := by
  rw [reportsIn, List.countP_eq_zero]
  intro e mem
  simp [silent e mem]

theorem reportsIn_last (w : World) : reportsIn w.lastEntries = 0 := by
  refine reportsIn_silent ?_
  intro e mem
  rcases (lastEntries_last mem).2 with last | ⟨o, last⟩ <;> rw [last] <;> rfl

/-- A report is one entry at most, -/
theorem reportsIn_report_le (w : World) (text : String) : reportsIn (w.reportEntries text) ≤ 1 := by
  refine Nat.le_trans List.countP_le_length ?_
  unfold reportEntries
  split
  · split <;> simp
  · simp
  · simp

/-- and one entry if the hook panics. -/
theorem reportsIn_report {text : String} (panics : w.process.hook.panics = true) :
    reportsIn (w.reportEntries text) = 1 := by
  unfold reportEntries
  cases hook : w.process.hook with
  | sink | output => simp [hook, ReportHook.panics] at panics
  | tagged tag b => simp [reportsIn, Event.report?]

/-- A panic leaves a report if and only if the hook panics. -/
theorem report_panics (w : World) (text : String) :
    (w.report text).2.isSome = w.process.hook.panics := by
  unfold report
  cases hook : w.process.hook with
  | sink | output => rfl
  | tagged tag panics => cases panics <;> rfl

theorem panics_of_report {text : String} (panics : (w.report text).2 ≠ none) :
    w.process.hook.panics = true := by
  rw [← w.report_panics text]
  exact Option.isSome_iff_ne_none.mpr panics

end World

namespace Machine

variable {m v : Machine} {r : Option FiberId}

/-! ## 4. The end of the process -/

/-- The process ends by a violated contract, there and then. Up to the report
nothing is reported, the entries of the end come right behind it, nothing happens
any more, and no fiber has changed but in its handles. -/
structure Aborts (m v : Machine) (message : String) (x : World) (quiet : List Entry) : Prop where
  before : x.process.trace.toList = m.world.process.trace.toList ++ quiet
  silent : ∀ e ∈ quiet, e.event.report? = none
  errors : x.process.errorOutput = m.world.process.errorOutput ∨ x.process.errorOutput = ""
  ends : v = { m with world := (x.reportFatal message).1.abort }
  trace : v.world.process.trace.toList = m.world.process.trace.toList ++ quiet ++
    x.reportEntries (fatalText message) ++ (x.reportFatal message).1.lastEntries
  text : fatalText message = "ASSERTION: " ++ message ++ "\nbacktrace:\n" ++ "    <frames>\n"
  last : ∃ t, v.world.process.trace.toList.getLast? = some ⟨t, .aborted⟩
  past : v.world.process.halted = true ∧ ∀ k, v.steps k = v
  fibers : ∀ id f g, m.world.thread.fiber? id = some f → v.world.thread.fiber? id = some g →
    g = { f with handles := g.handles }

theorem steps_of_done (done : m.done = true) (k : Nat) : m.steps k = m := by
  cases k with
  | zero => rfl
  | succ k => rw [steps, if_pos done]

theorem lastEntries_getLast? (w : World) (es : List Entry) :
    (es ++ w.lastEntries).getLast? = some ⟨w.thread, .aborted⟩ := by
  rw [World.lastEntries, ← List.append_assoc, List.getLast?_concat]

/-- With a hook that returns, a rejection ends the process. -/
theorem aborts_of_rejects {u x : World} {h h' : List FiberId} {k : List Frame} {message : String}
    (sound : Stage.Sound m.others ⟨u, r, .exec, h⟩) (here : u = m.world.goOn k)
    (rejects : World.Rejects u r h x h')
    (ends : v = { m with world := (x.reportFatal message).1.abort }) :
    ∃ quiet, Aborts m v message x quiet := by
  subst here ends
  obtain ⟨quiet, tells⟩ := (rejects.stays fun _ => False).leads.tells sound
  have after := (rejects.stays fun _ => False).sound sound
  have reports := x.reportFatal_reports message
  have trace : (x.reportFatal message).1.abort.process.trace.toList =
      m.world.process.trace.toList ++ quiet ++ x.reportEntries (fatalText message) ++
        (x.reportFatal message).1.lastEntries := by
    have before : x.process.trace.toList = m.world.process.trace.toList ++ quiet := tells.trace
    rw [World.abort_trace (reports.halted.trans after.going), reports.trace after.going, before]
  refine ⟨quiet, tells.trace, ?_, ?_, rfl, trace, rfl, ?_, ⟨rfl, steps_of_done ?_⟩, ?_⟩
  · intro e mem
    rw [Option.eq_none_iff_forall_ne_some]
    intro text report
    exact (tells.fair e mem).allowed report
  · obtain ⟨start, texts, from_m, none, output⟩ := tells.errors
    have none : texts = [] := List.eq_nil_iff_forall_not_mem.mpr none
    subst none
    rw [printed, List.map_nil, String.join_nil, String.append_empty] at output
    exact output.symm ▸ from_m
  · exact ⟨_, by rw [trace]; exact lastEntries_getLast? _ _⟩
  · simp [done, World.abort]
  · intro id f g before after
    refine rejects.spares.fibers id f g before ?_
    have thread : (x.reportFatal message).1.abort.thread = x.thread := by
      rw [World.abort_thread, World.reportFatal_thread]
    exact thread ▸ after

theorem take_world (m : Machine) (y : World) (z : World × World.Signal) :
    ({ m with world := y } : Machine).take z = m.take z := by
  rcases z with ⟨w, _ | _ | _⟩ <;> rfl

/-- A panic behind a report does not end the process by this report: the process
goes on, or it ends by the report of a fault as well. -/
theorem not_aborts_of_unwind {y : World} {p : Payload}
    (sound : Stage.Sound m.others (y.stage r)) (body : Body r y.thread.frames)
    (leaked : y.process.leaked = m.world.process.leaked)
    (reported : World.reportsIn m.world.process.trace.toList <
      World.reportsIn y.process.trace.toList) (message : String) (x : World) (quiet : List Entry) :
    ¬ Aborts m (m.take (y.unwind p)) message x quiet := by
  intro aborts
  have others : Machine.others { m with world := y } = m.others := by
    simp only [Machine.others, leaked]
  have steps : World.Steps (fun _ => True) (fun _ => False) (fun _ => True) (y.stage r)
      (y.unwind p) := World.unwind_steps (fun _ _ _ => trivial) trivial p sound body
  have advances := take_advances (m := { m with world := y }) steps
  rw [take_world] at advances
  have falls := advances.falls (others ▸ sound) aborts.past.1
  have ending := aborts.trace
  generalize (m.take (y.unwind p)).world = v at falls ending
  cases falls with
  | contract leads cause => exact cause
  | @fault w v id p h leads ok panics past =>
    obtain ⟨new, tells⟩ := leads.tells sound
    have after := leads.sound sound
    have reports := w.report_reports (faultText p id w.thread.name)
    have trace := World.abort_trace (reports.halted.trans after.going)
    rw [reports.trace after.going, tells.trace] at trace
    have once : World.reportsIn (w.reportEntries (faultText p id w.thread.name)) = 1 :=
      World.reportsIn_report (World.panics_of_report panics)
    have count := congrArg World.reportsIn (ending.symm.trans (past.2.1 ▸ trace))
    have silent := World.reportsIn_silent aborts.silent
    have most := x.reportsIn_report_le (fatalText message)
    simp only [World.reportsIn_append, World.reportsIn_last] at count
    omega

/-- With a hook that panics, a rejection does not end the process there and then. -/
theorem not_aborts_of_rejects {u x : World} {ids : List FiberId} {k : List Frame} {p : Payload}
    (sound : Stage.Sound m.others (u.stage r)) (body : Body r u.thread.frames)
    (here : u = m.world.goOn k)
    (rejects : World.Rejects u r (Frame.allHandles u.thread.frames) x
      (ids ++ Frame.allHandles u.thread.frames)) {message : String}
    (panics : (x.reportFatal message).2 = some p) (z : World) (quiet : List Entry) :
    ¬ Aborts m (m.take (((x.reportFatal message).1.release ids).unwind p)) message z quiet := by
  have before := rejects.stays fun _ => True
  have hook : x.process.hook.panics = true := by
    cases returns : x.process.hook.panics with
    | true => rfl
    | false =>
      rw [(World.reportFatal_panics x message).mpr returns] at panics
      cases panics
  have report : Stays (fun _ => True) ⟨x, r, .exec, ids ++ Frame.allHandles u.thread.frames⟩
      ⟨(x.reportFatal message).1, r, .exec, ids ++ Frame.allHandles u.thread.frames⟩ :=
    (World.reportFatal_stays trivial).resolve_right (by simp [panics])
  have told := report.sound (before.sound sound)
  have released : Stays (fun _ => True)
      ⟨(x.reportFatal message).1, r, .exec, ids ++ Frame.allHandles u.thread.frames⟩ _ :=
    World.release_stays ids
  have whole := (before.trans report).trans released
  have frames : ((x.reportFatal message).1.release ids).thread.frames = u.thread.frames :=
    whole.frames
  obtain ⟨new, tells⟩ := (before.leads).tells sound
  obtain ⟨more, tells'⟩ := released.leads.tells told
  obtain ⟨all, tells''⟩ := whole.leads.tells sound
  refine not_aborts_of_unwind (r := r) ?_ (frames ▸ body) ?_ ?_ message z quiet
  · rw [World.stage, frames]
    exact whole.sound sound
  · exact tells''.leaked.trans (by rw [here]; rfl)
  · have trace := tells'.trace
    have first : x.process.trace.toList = m.world.process.trace.toList ++ new := by
      rw [tells.trace, here]
      rfl
    simp only [(x.reportFatal_reports message).trace (before.sound sound).going, first] at trace
    simp only [trace, World.reportsIn_append, World.reportsIn_report hook]
    omega

/-- A trusted request whose checked form would be refused ends the process there
and then if and only if the report hook does not panic. Whatever is around the
request, a panic of the hook leaves it instead. -/
theorem aborts_iff (level : Option Level) (hook : ReportHook) (script : List Op) (n : Nat)
    {op form : Op} {u y : World} {s : FiberState} {e : FiberError}
    (goes : ((start level hook script).steps n).done = false)
    (starts : ((start level hook script).steps n).world.Starts op u)
    (trusts : op.checked? = some form) (calls : op.Calls s)
    (refused : u.perform form = (y, .done (.refused s e))) :
    (∃ x quiet, Aborts ((start level hook script).steps n)
      ((start level hook script).steps (n + 1)) e.message x quiet) ↔
        ((start level hook script).steps n).world.process.hook.panics = false := by
  obtain ⟨r, here, ready⟩ := (sound_of_goes goes).running
  obtain ⟨sound, body⟩ := starts.sound here (ready (finished_of_goes goes))
  obtain ⟨x, ids, rejects, performed⟩ := World.perform_breach sound trusts calls refused
  rw [steps_succ_of_goes goes]
  generalize (start level hook script).steps n = m at *
  obtain ⟨rest, k, frames, rfl⟩ := starts
  have stepped : m.step = m.take (World.settle op.name (x.breach ids e.message)) := by
    rw [step_eq, ← performed]
    simp only [World.step, frames]
  have same : x.process.hook = m.world.process.hook := rejects.spares.hook
  have panics := World.reportFatal_panics x e.message
  rw [same] at panics
  rw [stepped]
  unfold World.breach
  rcases reported : x.reportFatal e.message with ⟨v, _ | p⟩
  · have ends : m.take (World.settle op.name (v.abort, .aborted)) =
        { m with world := (x.reportFatal e.message).1.abort } := by
      rw [reported]
      rfl
    obtain ⟨quiet, aborts⟩ := aborts_of_rejects sound rfl rejects ends
    exact ⟨fun _ => panics.mp (by rw [reported]), fun _ => ⟨x, quiet, aborts⟩⟩
  · have not := not_aborts_of_rejects sound body rfl rejects (p := p) (by rw [reported])
    rw [reported] at not
    refine ⟨?_, ?_⟩
    · intro ends
      obtain ⟨z, quiet, aborts⟩ := ends
      exact absurd aborts (not z quiet)
    · intro returns
      have none := panics.mpr returns
      rw [reported] at none
      cases none

/-- The main fiber of a fresh process yields, and the hook returns. -/
theorem aborts_yield : ∃ x quiet, Aborts ((start none (.tagged "t" false) [.park .ready]).steps 0)
    ((start none (.tagged "t" false) [.park .ready]).steps 1)
    (FiberError.mainFiberYield 1).message x quiet :=
  (aborts_iff none (.tagged "t" false) [.park .ready] 0 (s := .exec) (e := .mainFiberYield 1) rfl
    ⟨[], [.script], rfl, rfl⟩ (rfl : (Op.park .ready).checked? = _) trivial
    (Prod.ext rfl rfl)).mpr rfl

/-- It yields in a caught block, and the hook panics: the block ends by the panic,
and the process goes on. -/
theorem violation_caught :
    ∃ u y, ((start none (.tagged "t" true) [.attempt [.park .ready]]).steps 1).world.Starts
        (.park .ready) u ∧
      u.perform (.pause .checked .current) = (y, .done (.refused .exec (.mainFiberYield 1))) ∧
      (((start none (.tagged "t" true) [.attempt [.park .ready]]).steps
        2).world.process.trace.toList.getLast?.map Entry.event) =
          some (.completed "catch" (.panicked (World.hookPanic "t").text?)) ∧
      ¬ ∃ x quiet, Aborts ((start none (.tagged "t" true) [.attempt [.park .ready]]).steps 1)
        ((start none (.tagged "t" true) [.attempt [.park .ready]]).steps 2)
        (FiberError.mainFiberYield 1).message x quiet := by
  refine ⟨_, _, ⟨[], [.catching, .ops [], .script], rfl, rfl⟩, Prod.ext rfl rfl, rfl, ?_⟩
  rintro ⟨x, quiet, aborts⟩
  exact absurd aborts.past.1 (by decide)

end Machine

end FiberEngine
