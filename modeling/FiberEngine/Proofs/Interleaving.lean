/-
FiberEngine.Proofs.Interleaving — tasks that are resumed in turn.

The main fiber of a thread resumes its tasks in some order, and each of them suspends
itself between its rounds. What a resume tells is then the next round of its task,
whatever rounds of other tasks came before: a task goes on exactly where it stopped.

`Turn.round` follows a task through one round, `Home.serve` the main fiber from one
resume to the next one. `Stands` says how far all tasks are after so many resumes, and
`Schedules.run` carries it on, by induction on the resumes that are made. The main
statement is `rounds_undisturbed`.
-/
import FiberEngine.Proofs.Stretches
import FiberEngine.Proofs.Acceptance

namespace FiberEngine

variable {others : List FiberId}

/-! ## 1. What a fiber has still to do -/

/-- A fiber whose callback concerns itself alone, with the rounds that it has still
to go. -/
inductive Fiber.Owes (f : Fiber) : List Round → Prop
  | fresh {cb : Callback} (state : f.state = .init) (context : f.context = some .fresh)
    (callback : f.pending = some cb) (own : Op.solitaryAll cb.body) : f.Owes (Op.rounds cb.body)
  | suspended {p : Parking} {tag : Option String} {keep : List FiberId} {k : List Frame}
    (state : f.state = p.state) (context : f.context = some (.suspended (.waiting (.park p) :: k)))
    (own : Solitary f.id tag keep k) : f.Owes (Frame.score (.waiting (.park p) :: k)).rounds
  | ended (state : f.state.terminal) : f.Owes []

theorem Fiber.Owes.handles {f : Fiber} {rs : List Round} (owes : f.Owes rs) (n : Nat) :
    Fiber.Owes { f with handles := n } rs := by
  cases owes with
  | fresh state context callback own => exact .fresh state context callback own
  | suspended state context own => exact .suspended state context own
  | ended state => exact .ended state

/-- No more rounds are to come after the last one. -/
theorem Score.rounds_ne_nil (c : Score) : c.rounds ≠ [] := by
  obtain ⟨beats, exit⟩ := c
  unfold rounds
  induction beats with
  | nil => simp [cut]
  | cons b rest ih =>
    cases b with
    | answer op reply => simpa [cut, List.modifyHead_eq_nil_iff] using ih
    | park p => simp [cut]

theorem Fiber.Owes.canResume {f : Fiber} {r : Round} {rs : List Round} (owes : f.Owes (r :: rs)) :
    f.state.canResume := by
  generalize whole : r :: rs = all at owes
  cases owes with
  | fresh state context callback own => rw [state]; rfl
  | @suspended p tag keep k state context own => rw [state]; cases p <;> rfl
  | ended state => cases whole

namespace World

variable {w v : World} {x main : FiberId} {tag : Option String} {keep : List FiberId}
variable {marks : List Mark} {K : List Frame}

/-! ## 2. The end of a round -/

/-- The hook takes reports without a panic. -/
def HookReturns (w : World) : Prop :=
  ∀ tag, w.process.hook ≠ .tagged tag true

/-- The task has given way: the main fiber goes on with its own code. -/
structure GaveWay (x main : FiberId) (K : List Frame) (r : Round) (rs : List Round)
    (w v : World) : Prop where
  goes : v.process.halted = false
  frames : v.thread.frames = K
  current : v.thread.current = some main
  isMain : v.thread.main = some main
  stretch : Stretch x r.marks w v
  fiber : ∃ g, v.thread.fiber? x = some g ∧ g.state = r.state ∧ g.Owes rs

/-- A task that runs and suspends itself. -/
theorem suspend_gives_way {f : Fiber} {p : Parking} 
    (sound : Stage.Sound others ⟨w, some f.id, .exec, Frame.allHandles w.thread.frames⟩)
    (found : w.thread.fiber? f.id = some f) (own : Solitary f.id tag keep w.thread.frames)
    (isMain : w.thread.main = some main) (parked : w.mainFrames = .ok K) :
    ∃ v, w.suspend .trusted f p (.park p) = (v, .next) ∧
      GaveWay f.id main K ⟨[], p.state⟩
        (Frame.score (.waiting (.park p) :: w.thread.frames)).rounds w v := by
  have accepted : f.yieldRefusal? w.thread.currentId = none := by
    rw [yieldRefusal_eq sound found, if_pos rfl]
  have running : f.state = .exec := (runner_of_yield sound found accepted).2
  have ne : f.id ≠ main := fun same => (sound.thread.apart f.id rfl).2 (same ▸ isMain)
  have logged := w.log_same (.yielded f.id p.state)
  have suspended : w.suspend .trusted f p (.park p) = _ :=
    suspend_eq isMain parked running accepted
  generalize eq : w.log (.yielded f.id p.state) = u at suspended logged
  have start : Stretch f.id [] w u := by
    rw [← eq]
    exact log_silent w fun _ => rfl
  have isMain' : u.thread.main = some main := by rw [logged.thread, isMain]
  have thread := yield_thread (w := u) (.park p) p K isMain' ne
  have crossing := fun process =>
    crossed_stretch (x := f.id) isMain' process thread (fun _ => rfl) fun _ => rfl
  rw [logged.thread] at thread crossing
  refine ⟨_, suspended, ?_⟩
  refine ⟨?_, congrArg Thread.frames thread, congrArg Thread.current thread,
    (congrArg Thread.main thread).trans isMain, start.trans (crossing rfl), ?_⟩
  · exact logged.halted.trans sound.going
  · have aside := Thread.fiber?_crossed (congrArg Thread.fibers thread) (fun _ => rfl)
      (fun _ => rfl) f.id
    rw [found, Option.map_some, Thread.Sound.crossed, if_pos rfl] at aside
    exact ⟨_, aside, rfl, .suspended rfl rfl own⟩

/-- What the code of the main fiber would be comes out of a release unchanged. -/
theorem mainFrames_of_release {ids : List FiberId} (isMain : w.thread.main = some main)
    (goes : (w.release ids).process.halted = false) (parked : (w.release ids).mainFrames = .ok K) :
    w.mainFrames = .ok K := by
  have isMain' := (release_stretch (x := main) w ids goes).main main isMain
  obtain ⟨g, found, context⟩ := mainFrames_eq_ok isMain' parked
  obtain ⟨f, before, same⟩ := fiber?_release found
  have context : f.context = some (.suspended K) := by rw [← context, same]
  simp [mainFrames, isMain, before, context]

/-- The task gives up the handle to itself and stands aside for good. -/
theorem standAside_gives_way {e : Finish} {m : Manner} {y : FiberId}
    (sound : Stage.Sound others ⟨w, some x, e.state, [x]⟩) (isMain : w.thread.main = some main)
    (parked : w.mainFrames = .ok (.waiting (.resume m y) :: K)) :
    GaveWay x main (.waiting (.resume m y) :: K) ⟨[], e.state⟩ [] w (w.standAside x e) := by
  have released : Leads (fun _ => True) _ _ := release_self_leads sound
  have after := released.sound sound
  have going := after.going
  have start := release_stretch (x := x) w [x] going
  have isMain' := start.main main isMain
  obtain ⟨main', p, k, same, ne, parked', body, awaits⟩ := mainFrames_of_runner after.thread
  obtain rfl : main' = main := Option.some.inj (same.symm.trans isMain')
  have code : Frame.waiting p :: k = .waiting (.resume m y) :: K :=
    Except.ok.inj ((mainFrames_of_release isMain going parked').symm.trans parked)
  rw [code] at parked'
  have aside : w.standAside x e =
      (w.release [x]).comeBack x main' .spent (.waiting (.resume m y) :: K) := by
    simp only [standAside, switchBack_eq .spent isMain' parked']
    cases e <;> rfl
  have thread := comeBack_thread .spent (.waiting (.resume m y) :: K) isMain' ne.symm
  have crossing := fun process =>
    crossed_stretch (x := x) isMain' process thread (fun _ => rfl) fun _ => rfl
  rw [aside]
  refine ⟨going, congrArg Thread.frames thread, congrArg Thread.current thread,
    (congrArg Thread.main thread).trans isMain', start.trans (crossing rfl), ?_⟩
  obtain ⟨f, found, mine, runs⟩ := after.thread.runner_runs
  have there := Thread.fiber?_crossed (congrArg Thread.fibers thread) (fun _ => rfl)
    (fun _ => rfl) x
  rw [found, Option.map_some, Thread.Sound.crossed, if_pos mine] at there
  refine ⟨_, there, runs.state, .ended ?_⟩
  rw [show f.state = e.state from runs.state]
  cases e <;> rfl

/-- The fault of a task is reported, and the process goes on. -/
theorem reportFault_calm {e : Finish} {h : List FiberId}
    (sound : Stage.Sound others ⟨w, some x, e.state, h⟩) (calm : w.process.program = none)
    (returns : w.HookReturns) :
    Stage.Sound others ⟨w.reportFault x e, some x, e.state, h⟩ ∧
      Stretch x e.marks w (w.reportFault x e) ∧ (w.reportFault x e).thread = w.thread := by
  cases e with
  | returned value => exact ⟨sound, .refl w, rfl⟩
  | faulted p =>
    have none : (w.report (faultText p x w.thread.name)).2 = none := by
      unfold report
      split
      · rfl
      · rename_i tag panics hook
        cases panics with
        | true => exact absurd hook (returns tag)
        | false => rfl
      · rfl
    have reported : w.reportFault x (.faulted p) = (w.report (faultText p x w.thread.name)).1 := by
      simp only [reportFault]
      split <;> rename_i eq <;> rw [eq] at none ⊢
      cases none
    rw [reported]
    have leads : Leads (fun _ => True) ⟨w, some x, .except, h⟩
        ⟨(w.report (faultText p x w.thread.name)).1, some x, .except, h⟩ :=
      reportOfFault_leads trivial
    exact ⟨leads.sound sound, report_stretch sound.going sound.thread.current calm p,
      report_thread ..⟩

/-- The callback of the task ends. -/
theorem finish_gives_way (e : Finish) {m : Manner} {y : FiberId}
    (sound : Stage.Sound others ⟨w, some x, .exec, x :: keep⟩)
    (base : w.thread.frames.getLast? = some (.task x tag keep)) (isMain : w.thread.main = some main)
    (parked : w.mainFrames = .ok (.waiting (.resume m y) :: K)) (calm : w.process.program = none)
    (returns : w.HookReturns) :
    GaveWay x main (.waiting (.resume m y) :: K) ⟨e.marks, e.state⟩ [] w
      (w.finish x tag keep e) := by
  have grouped : Leads (fun _ => True) ⟨w, some x, .exec, x :: keep⟩
      ⟨w, some x, .exec, keep ++ [x]⟩ := .regroup (List.perm_append_singleton x keep).symm
  have terminal : e.state.terminal := by cases e <;> rfl
  have concluded := grouped.trans (.move (.conclude e.state terminal base))
  have after := concluded.sound sound
  have shed : Stretch x [] w (w.dropCallback tag keep) := dropCallback_stretch w tag keep after.going
  -- the code of the main fiber is still the same
  have parked' : (w.dropCallback tag keep).mainFrames = .ok (.waiting (.resume m y) :: K) := by
    obtain ⟨main', p, k, same, ne, still, body, awaits⟩ := mainFrames_of_runner after.thread
    have still : (w.dropCallback tag keep).mainFrames = .ok (.waiting p :: k) :=
      (mainFrames_setState _ x e.state).symm.trans still
    have before : (w.dropTag tag).mainFrames = .ok (.waiting p :: k) :=
      mainFrames_of_release ((dropTag_thread w tag).symm ▸ isMain) after.going still
    rw [mainFrames, dropTag_thread, ← mainFrames] at before
    rw [still, ← before, parked]
  have settled : Stretch x [] (w.dropCallback tag keep)
      ((w.dropCallback tag keep).onThread fun t => t.setState x e.state) := by
    refine onThread_stretch rfl rfl rfl rfl fun id g other _ found => ?_
    have keeps : ∀ f : Fiber, { f with state := e.state }.id = f.id := fun _ => rfl
    rw [Thread.setState, Thread.fiber?_update _ _ _ _ keeps] at found
    obtain ⟨f, there, rfl⟩ := Option.map_eq_some_iff.mp found
    exact ⟨f, there, by rw [if_neg other]⟩
  have ended := shed.trans settled
  have parked' := (mainFrames_setState (w.dropCallback tag keep) x e.state).trans parked'
  rw [finish_eq]
  generalize (w.dropCallback tag keep).onThread (fun t => t.setState x e.state) = u at *
  have returns' : u.HookReturns := by
    have same : u.process.hook = w.process.hook := congrArg Setting.hook ended.setting
    intro t
    rw [same]
    exact returns t
  obtain ⟨told, report, thread⟩ := reportFault_calm after (ended.program.trans calm) returns'
  have isMain' : (u.reportFault x e).thread.main = some main := by
    rw [thread, ended.main main isMain]
  have parked' : (u.reportFault x e).mainFrames = .ok (.waiting (.resume m y) :: K) := by
    rw [mainFrames, thread, ← mainFrames, parked']
  have aside := standAside_gives_way told isMain' parked'
  have whole := (ended.trans report).trans aside.stretch
  rw [List.nil_append, List.append_nil] at whole
  exact ⟨aside.goes, aside.frames, aside.current, aside.isMain, whole, aside.fiber⟩

/-- What comes before the task gives way belongs to its round. -/
theorem GaveWay.after {u : World} {r : Round} {rs : List Round} (first : Stretch x marks w u)
    (gave : GaveWay x main K r rs u v) :
    GaveWay x main K { r with marks := marks ++ r.marks } rs w v :=
  ⟨gave.goes, gave.frames, gave.current, gave.isMain, first.trans gave.stretch, gave.fiber⟩

theorem goOn_stretch (w : World) (k : List Frame) : Stretch x [] w (w.goOn k) :=
  .of_same rfl rfl rfl rfl rfl rfl fun _ g _ _ found => ⟨g, found, rfl⟩

end World

namespace Machine

variable {m : Machine} {x main : FiberId} {tag : Option String} {keep : List FiberId}
variable {manner : Manner} {K : List Frame} {r : Round} {rs : List Round}

/-! ## 3. A round -/

/-- A task runs code that concerns itself alone, and the code of the main fiber is
parked behind the resume of this task. -/
structure Turn (m : Machine) (x main : FiberId) (tag : Option String) (keep : List FiberId)
    (manner : Manner) (K : List Frame) : Prop where
  sound : m.Sound
  goes : m.done = false
  own : Solitary x tag keep m.world.thread.frames
  isMain : m.world.thread.main = some main
  parked : m.world.mainFrames = .ok (.waiting (.resume manner x) :: K)
  calm : m.world.process.program = none
  returns : m.world.HookReturns

theorem Turn.stage (turn : m.Turn x main tag keep manner K) :
    Stage.Sound m.others (m.world.stage (some x)) := by
  have task : m.world.thread.task? = some x := by
    rw [Thread.task?, turn.own.getLast?]
    rfl
  exact (turn.sound.stage_of_task task).1

/-- The task is still running after a step. -/
theorem Turn.on {w : World} {marks : List Mark} (turn : m.Turn x main tag keep manner K)
    (step : m.world.step = (w, .running)) (going : w.process.halted = false)
    (own : Solitary x tag keep w.thread.frames) (isMain : w.thread.main = some main)
    (parked : w.mainFrames = m.world.mainFrames) (first : World.Stretch x marks m.world w) :
    Turn { m with world := w } x main tag keep manner K where
  sound := turn.sound.on turn.goes step going
  goes := goes_of_going turn.goes going
  own := own
  isMain := isMain
  parked := parked.trans turn.parked
  calm := first.program.trans turn.calm
  returns t := by
    have hook : w.process.hook = m.world.process.hook := congrArg Setting.hook first.setting
    rw [hook]
    exact turn.returns t

/-- The task that runs gives way after some steps, and this ends its round. -/
def RoundEnds (m : Machine) (x main : FiberId) (K : List Frame) (r : Round) (rs : List Round) :
    Prop :=
  ∃ n w, m.steps n = { m with world := w } ∧ Sound { m with world := w } ∧
    World.GaveWay x main K r rs m.world w

theorem RoundEnds.after {w : World} {marks : List Mark} (goes : m.done = false)
    (step : m.world.step = (w, .running)) (first : World.Stretch x marks m.world w)
    (ends : RoundEnds { m with world := w } x main K r rs) :
    m.RoundEnds x main K { r with marks := marks ++ r.marks } rs := by
  obtain ⟨n, v, steps, sound, gave⟩ := ends
  refine ⟨n + 1, v, ?_, sound, gave.after first⟩
  rw [steps_of_step goes, step_of_running step, steps]

theorem RoundEnds.now {w : World} (turn : m.Turn x main tag keep manner K)
    (step : m.world.step = (w, .running))
    (gave : World.GaveWay x main (.waiting (.resume manner x) :: K) r rs m.world w) :
    m.RoundEnds x main (.waiting (.resume manner x) :: K) r rs := by
  refine ⟨1, w, ?_, turn.sound.on turn.goes step gave.goes, gave⟩
  rw [steps_of_step turn.goes, step_of_running step]
  rfl

/-- The task goes on until it gives way: that is one round. -/
theorem Turn.round (turn : m.Turn x main tag keep manner K)
    (rounds : (Frame.score m.world.thread.frames).rounds = r :: rs) :
    m.RoundEnds x main (.waiting (.resume manner x) :: K) r rs := by
  generalize weight : Frame.weights m.world.thread.frames = n
  induction n using Nat.strongRecOn generalizing m r with
  | ind n ih =>
    subst weight
    have here := turn.stage
    obtain ⟨f, found, mine, -⟩ := here.thread.runner_runs
    subst mine
    have plays := World.step_plays turn.calm here.thread.current found turn.own
    have going := halted_of_goes turn.goes
    have account : Frame.allHandles m.world.thread.frames = f.id :: keep := turn.own.handles
    have base : m.world.thread.frames.getLast? = some (.task f.id tag keep) := turn.own.getLast?
    generalize step : m.world.step = y at plays
    cases plays with
    | @silent k own same less =>
      have first := World.goOn_stretch (x := f.id) m.world k
      have next := turn.on step going own turn.isMain rfl first
      rw [same] at rounds
      exact (ih _ less next rounds rfl).after turn.goes step first
    | @answers k op reply own plays less =>
      have written := ((m.world.goOn k).emit_same (.completed op reply))
      have first : World.Stretch f.id [.answer op reply] m.world
          ((m.world.goOn k).emit (.completed op reply)) :=
        (World.goOn_stretch m.world k).trans
          (World.answer_stretch (w := m.world.goOn k) going here.thread.current op reply)
      have frames : ((m.world.goOn k).emit (.completed op reply)).thread.frames = k :=
        congrArg Thread.frames written.thread
      have next := turn.on step (written.halted.trans going) (frames.symm ▸ own)
        ((congrArg Thread.main written.thread).trans turn.isMain)
        (by rw [World.mainFrames, written.thread]; rfl) first
      cases later : (Frame.score k).rounds with
      | nil => exact absurd later (Score.rounds_ne_nil _)
      | cons r' rs' =>
        rw [plays, Score.rounds_answer, later] at rounds
        cases rounds
        have lighter : Frame.weights ((m.world.goOn k).emit (.completed op reply)).thread.frames <
            Frame.weights m.world.thread.frames := by rw [frames]; exact less
        exact (ih _ lighter next (frames.symm ▸ later) rfl).after turn.goes step first
    | @parks k p own plays =>
      rw [plays, Score.rounds_park] at rounds
      cases rounds
      have went : Leads (fun _ => True) (m.world.stage (some f.id))
          ((m.world.goOn k).stage (some f.id)) :=
        World.goOn_leads (own.getLast?.trans base.symm) (own.handles.trans account.symm)
      obtain ⟨v, suspended, gave⟩ := World.suspend_gives_way (p := p) (went.sound here) found own
        turn.isMain turn.parked
      rw [suspended] at step
      exact .now turn step (gave.after (World.goOn_stretch m.world k))
    | @ends k e last plays =>
      rw [plays, Score.rounds_end] at rounds
      cases rounds
      have went : Leads (fun _ => True) (m.world.stage (some f.id))
          ⟨m.world.goOn k, some f.id, .exec, f.id :: keep⟩ := by
        rw [World.stage, account]
        exact .move (.goOn k (last.trans base.symm))
      have gave := World.finish_gives_way e.finish (went.sound here) last turn.isMain turn.parked
        turn.calm turn.returns
      exact .now turn step (gave.after (World.goOn_stretch m.world k))

end Machine

/-! ## 4. A resume -/

namespace World

/-- The main fiber switches into a task that has rounds to go. -/
theorem switchTo_turns {w : World} {f : Fiber} {main : FiberId} {p : Pending} {r : Round}
    {rs : List Round} (owes : f.Owes (r :: rs)) (isMain : w.thread.main = some main)
    (ne : f.id ≠ main) (there : w.thread.fiber? main ≠ none) :
    (∃ tag keep, Solitary f.id tag keep (w.switchTo f p).thread.frames) ∧
      (Frame.score (w.switchTo f p).thread.frames).rounds = r :: rs ∧
      (w.switchTo f p).thread.main = some main ∧
      (w.switchTo f p).mainFrames = .ok (.waiting p :: w.thread.frames) ∧
      (w.switchTo f p).process.halted = w.process.halted ∧
      Stretch f.id [] w (w.switchTo f p) := by
  have logged := w.log_same (.resumed f.id f.state)
  have start : Stretch f.id [] w (w.log (.resumed f.id f.state)) := log_silent w fun _ => rfl
  have isMain' : (w.log (.resumed f.id f.state)).thread.main = some main :=
    (congrArg Thread.main logged.thread).trans isMain
  have there' : (w.log (.resumed f.id f.state)).thread.fiber? main ≠ none := by
    rw [logged.thread]
    exact there
  generalize rounds : r :: rs = all at owes
  cases owes with
  | @fresh cb state context callback own =>
    have switched := switchTo_fresh (w := w) (p := p) context callback
    have frames := frames_switchTo_fresh (w := w) (p := p) context callback
    generalize w.log (.resumed f.id f.state) = u at *
    have thread := begin_thread (w := u) p cb isMain' ne
    have process : ((u.depart f.id p).begin f.id cb).process = u.process :=
      depart_process isMain' f.id p
    have crossing : Stretch f.id [] u ((u.depart f.id p).begin f.id cb) :=
      crossed_stretch isMain' process thread (fun _ => rfl) fun _ => rfl
    have parked := mainFrames_of_parked isMain' ne there' thread fun _ => rfl
    have entered := log_same ((u.depart f.id p).begin f.id cb) (.entered f.id)
    rw [frames]
    refine ⟨⟨cb.tag, cb.keep, .cons own .task⟩, ?_, ?_, ?_, ?_, ?_⟩
    · rfl
    all_goals rw [switched]
    · exact (congrArg Thread.main entered.thread).trans (crossing.main main isMain')
    · rw [mainFrames, entered.thread, ← mainFrames, parked, logged.thread]
    · rw [entered.halted, process, logged.halted]
    · exact (start.trans crossing).trans (log_silent _ fun _ => rfl)
  | @suspended q tag keep k state context own =>
    have switched : w.switchTo f p =
        ((w.log (.resumed f.id f.state)).depart f.id p).goOn (.waiting (.park q) :: k) := by
      simp only [switchTo, context]
      rfl
    generalize w.log (.resumed f.id f.state) = u at *
    have thread : ((u.depart f.id p).goOn (.waiting (.park q) :: k)).thread = _ :=
      congrArg (Thread.goOn · (.waiting (.park q) :: k)) (depart_thread (w := u) p isMain' ne)
    have process : ((u.depart f.id p).goOn (.waiting (.park q) :: k)).process = u.process :=
      depart_process isMain' f.id p
    have crossing : Stretch f.id [] u ((u.depart f.id p).goOn (.waiting (.park q) :: k)) :=
      crossed_stretch isMain' process thread (fun _ => rfl) fun _ => rfl
    have parked := mainFrames_of_parked isMain' ne there' thread fun _ => rfl
    rw [switched]
    refine ⟨⟨tag, keep, .cons rfl own⟩, rfl, crossing.main main isMain', ?_, ?_,
      start.trans crossing⟩
    · rw [parked, logged.thread]
    · rw [process, logged.halted]
  | ended state => cases rounds

end World

namespace Machine

variable {m : Machine} {x main : FiberId} {f : Fiber} {manner : Manner} {slot : SlotName}
variable {rest : List Op} {k : List Frame} {r : Round} {rs : List Round}

/-- The main fiber of a thread goes on, outside of a demonstration. -/
structure Home (m : Machine) : Prop where
  sound : m.Sound
  goes : m.done = false
  idle : m.world.thread.task? = none
  calm : m.world.process.program = none
  returns : m.world.HookReturns

theorem Home.stage (home : m.Home) : Stage.Sound m.others (m.world.stage none) :=
  (home.sound.stage_of_task home.idle).1

theorem Home.ready (home : m.Home) : m.world.thread.Ready none :=
  (home.sound.stage_of_task home.idle).2 (finished_of_goes home.goes)

/-- The main fiber has a task resumed that has rounds to go. -/
theorem Home.resume (home : m.Home)
    (frames : m.world.thread.frames = .ops (.resume manner (.slot slot) :: rest) :: k)
    (holds : m.world.thread.slot? slot = some f.id) (found : m.world.thread.fiber? f.id = some f)
    (owes : f.Owes (r :: rs)) :
    ∃ w main tag keep, m.world.step = (w, .running) ∧ World.Stretch f.id [] m.world w ∧
      Turn { m with world := w } f.id main tag keep manner (.ops rest :: k) ∧
      (Frame.score w.thread.frames).rounds = r :: rs := by
  have here := home.stage
  have below := ((home.ready.code frames (by simp)).of_inner rfl).1
  have went : Leads (fun _ => True) (m.world.stage none)
      ((m.world.goOn (.ops rest :: k)).stage none) := World.begun_leads frames below
  have after := went.sound here
  have fetched : (m.world.goOn (.ops rest :: k)).fetch (.slot slot) =
      (m.world.goOn (.ops rest :: k), some f.id) := congrArg (Prod.mk _) holds
  obtain ⟨found', performs⟩ := World.onFiber_eq fetched found
    (fun w f => w.resume manner f (.resume manner f.id))
  have held : Stays (fun _ => True) _ _ := World.hold_stays (w := m.world.goOn (.ops rest :: k))
    (r := none) (h := Frame.allHandles (.ops rest :: k)) found
  have holding := held.sound after
  have owes' := owes.handles (f.handles + 1)
  generalize eq : (m.world.goOn (.ops rest :: k)).hold f.id = u at *
  have start : World.Stretch f.id [] m.world u := by
    rw [← eq]
    exact (World.goOn_stretch m.world _).trans (World.hold_stretch _)
  have code : u.thread.frames = .ops rest :: k := by rw [← eq]; rfl
  -- the resume is accepted
  have accepted : (u.resumeRefusal { f with handles := f.handles + 1 }).2 = none := by
    rw [World.resumeRefusal_eq holding found', if_pos owes'.canResume]
    rfl
  obtain ⟨-, can, same⟩ := World.accepted_of_resume holding accepted
  have asked : u.resumeRefusal { f with handles := f.handles + 1 } = (u.currentFiber.1, none) :=
    Prod.ext same accepted
  have step : m.world.step = (u.currentFiber.1.switchTo { f with handles := f.handles + 1 }
      (.resume manner f.id), .running) := by
    have starts : (m.world.goOn (.ops rest :: k)).perform (.resume manner (.slot slot)) = _ :=
      performs
    simp only [World.step, frames, starts, World.resume, asked, World.letGo, World.settle]
  -- the task is switched into
  have asking : Stays (fun _ => True) _ _ := World.currentFiber_stays holding
  have home' := asking.sound holding
  have isMain := World.main_of_currentFiber holding
  have there := World.fiber?_currentFiber found'
  obtain ⟨-, notMain⟩ := World.rests_of_canResume home'.thread there can
  have ne : f.id ≠ u.currentFiber.2 := fun same => notMain (same ▸ isMain)
  obtain ⟨g, foundMain, -, -⟩ := home'.thread.main_presides isMain
  have code' : u.currentFiber.1.thread.frames = .ops rest :: k := asking.frames.trans code
  obtain ⟨⟨tag, keep, own⟩, rounds, isMain', parked, halted, switch⟩ :=
    World.switchTo_turns (p := .resume manner f.id) owes' isMain ne (by simp [foundMain])
  rw [code'] at parked
  have whole := (start.trans (World.currentFiber_stretch u)).trans switch
  have going := halted.trans home'.going
  refine ⟨_, u.currentFiber.2, tag, keep, step, whole, ?_, rounds⟩
  refine ⟨home.sound.on home.goes step going, goes_of_going home.goes going, own, isMain', parked,
    whole.program.trans home.calm, fun t => ?_⟩
  have hook := congrArg Setting.hook whole.setting
  exact fun panics => home.returns t (hook.symm.trans panics)

/-- The resume is answered, and the main fiber goes on. -/
theorem Home.answer (home : m.Home)
    (frames : m.world.thread.frames = .waiting (.resume manner x) :: .ops rest :: k)
    (isMain : m.world.thread.main = some main)
    (holds : m.world.thread.slot? slot = some x) (found : m.world.thread.fiber? x = some f)
    (owes : f.Owes rs) :
    ∃ w, m.world.step = (w, .running) ∧ World.Stretch x [] m.world w ∧ Home { m with world := w } ∧
      w.thread.frames = .ops rest :: k ∧
      ∃ g, w.thread.fiber? x = some g ∧ g.state = f.state ∧ g.Owes rs := by
  have here := home.stage
  have below : Body none (.ops rest :: k) := (home.ready.below frames).1
  have went : Leads (fun _ => True) (m.world.stage none)
      ⟨m.world.goOn (.ops rest :: k), none, .exec, [x] ++ Frame.allHandles (.ops rest :: k)⟩ :=
    World.waiting_leads frames below
  have released : Stays (fun _ => True) _ _ := World.release_stays (w := m.world.goOn (.ops rest :: k))
    (r := none) (h := Frame.allHandles (.ops rest :: k)) [x]
  have after := released.sound (went.sound here)
  have gone : World.Stretch x [] m.world ((m.world.goOn (.ops rest :: k)).release [x]) :=
    (World.goOn_stretch m.world _).trans (World.release_stretch _ [x] after.going)
  have code : ((m.world.goOn (.ops rest :: k)).release [x]).thread.frames = .ops rest :: k :=
    released.frames
  have step : m.world.step = (((m.world.goOn (.ops rest :: k)).release [x]).emit
      (.completed (Pending.resume manner x).name (.state f.state)), .running) := by
    have found' : (m.world.goOn (.ops rest :: k)).thread.fiber? x = some f := found
    simp only [World.step, frames, World.carryOn, World.onHeld, found', World.answer, World.letGo,
      World.settle]
    exact World.conclude_of_calm (gone.program.trans home.calm) _ _
  -- the task is still there, with one handle less
  obtain ⟨g, left⟩ := after.thread.exists_of_mem (List.mem_append_left _
    (Thread.Sound.mem_kept_of_slot (show Thread.slot? _ slot = some x by
      rw [Thread.slot?, gone.slots]; exact holds)))
  obtain ⟨f', before, same⟩ := World.fiber?_release left
  obtain rfl : f' = f := Option.some.inj (before.symm.trans found)
  have isMain' := gone.main main isMain
  have current' : ((m.world.goOn (.ops rest :: k)).release [x]).thread.current = some main := by
    rw [after.thread.current, isMain']
    rfl
  generalize (m.world.goOn (.ops rest :: k)).release [x] = u at *
  have written := u.emit_same (.completed (Pending.resume manner x).name (.state f'.state))
  have whole := gone.trans (World.emit_of_main after.going isMain' current'
    (.completed (Pending.resume manner x).name (.state f'.state)))
  have going := written.halted.trans after.going
  refine ⟨_, step, whole, ⟨home.sound.on home.goes step going, goes_of_going home.goes going, ?_,
    whole.program.trans home.calm, fun t => ?_⟩, ?_, g, ?_, ?_, ?_⟩
  · rw [written.thread, Thread.task?, code]
    exact below.owner
  · have hook := congrArg Setting.hook whole.setting
    exact fun panics => home.returns t (hook.symm.trans panics)
  · rw [written.thread, code]
  · rw [written.thread, left]
  · rw [same]
  · rw [same]
    exact owes.handles _

/-- One resume of a task, from the point at which the main fiber makes it to the
point at which it has been answered. -/
theorem Home.serve (home : m.Home)
    (frames : m.world.thread.frames = .ops (.resume manner (.slot slot) :: rest) :: k)
    (holds : m.world.thread.slot? slot = some f.id) (found : m.world.thread.fiber? f.id = some f)
    (owes : f.Owes (r :: rs)) :
    ∃ n w, m.steps (n + 1) = { m with world := w } ∧ Home { m with world := w } ∧
      w.thread.frames = .ops rest :: k ∧ World.Stretch f.id r.marks m.world w ∧
      ∃ g, w.thread.fiber? f.id = some g ∧ g.state = r.state ∧ g.Owes rs := by
  obtain ⟨u, main, tag, keep, step, start, turn, rounds⟩ := home.resume frames holds found owes
  obtain ⟨n, v, steps, sound, gave⟩ := turn.round rounds
  have ran := start.trans gave.stretch
  have body : Body none (.ops rest :: k) :=
    .ops rest ((home.ready.code frames (by simp)).of_inner rfl).1
  have home' : Home { m with world := v } := by
    refine ⟨sound, goes_of_going home.goes gave.goes, ?_, ran.program.trans home.calm, fun t => ?_⟩
    · rw [Thread.task?, gave.frames]
      exact body.owner_cons _
    · have hook := congrArg Setting.hook ran.setting
      exact fun panics => home.returns t (hook.symm.trans panics)
  obtain ⟨g, left, state, still⟩ := gave.fiber
  have holds' : v.thread.slot? slot = some f.id := by
    rw [Thread.slot?, ran.slots]
    exact holds
  obtain ⟨w, answer, last, home'', frames', g', found', state', owes'⟩ :=
    home'.answer gave.frames gave.isMain holds' left still
  have whole := ran.trans last
  rw [List.nil_append, List.append_nil] at whole
  refine ⟨n + 1, w, ?_, home'', frames', whole, g', found', state'.trans state, owes'⟩
  have before : m.steps (n + 1) = { m with world := v } := by
    rw [steps_of_step home.goes, step_of_running step, steps]
  rw [steps_succ_of_goes (by rw [before]; exact home'.goes), before, step_of_running answer]

end Machine

/-! ## 5. Schedules -/

/-- A resume of the task that a slot holds. -/
def Op.resumption (r : Manner × SlotName) : Op :=
  .resume r.1 (.slot r.2)

namespace Thread

variable (t : Thread) (schedule : List (Manner × SlotName))

/-- The tasks that are resumed, in order. -/
def tasks : List FiberId :=
  schedule.map fun r => (t.slot? r.2).getD 0

/-- The body of a task that has not been entered yet. -/
def bodyOf (x : FiberId) : List Op :=
  ((t.fiber? x).bind Fiber.pending).elim [] Callback.body

/-- How often a task is among the first resumes. -/
def resumes (i : Nat) (x : FiberId) : Nat :=
  ((t.tasks schedule).take i).count x

/-- The rounds that these resumes of a task bring. -/
def past (i : Nat) (x : FiberId) : List Round :=
  (Op.rounds (t.bodyOf x)).take (t.resumes schedule i x)

end Thread

section

variable {t : Thread} {schedule : List (Manner × SlotName)} {i : Nat}

theorem Thread.resumes_le (x : FiberId) :
    t.resumes schedule i x ≤ (t.tasks schedule).count x :=
  (List.take_sublist i _).count_le x

theorem Thread.resumes_succ {x : FiberId} (next : (t.tasks schedule)[i]? = some x) (y : FiberId) :
    t.resumes schedule (i + 1) y = t.resumes schedule i y + if y = x then 1 else 0 := by
  rw [resumes, resumes, List.take_add_one, next, List.count_append]
  by_cases same : y = x
  · simp [same]
  · have other : ¬ x = y := fun eq => same eq.symm
    simp [same, other]

/-- A resume of a task brings its next round. -/
theorem Thread.past_succ {x : FiberId} {r : Round} (next : (t.tasks schedule)[i]? = some x)
    (round : (Op.rounds (t.bodyOf x))[t.resumes schedule i x]? = some r) :
    t.past schedule (i + 1) x = t.past schedule i x ++ [r] := by
  rw [past, past, resumes_succ next, if_pos rfl, List.take_add_one, round]
  rfl

theorem Thread.past_of_ne {x y : FiberId} (next : (t.tasks schedule)[i]? = some x) (other : y ≠ x) :
    t.past schedule (i + 1) y = t.past schedule i y := by
  rw [past, past, resumes_succ next, if_neg other, Nat.add_zero]

end

namespace Machine

variable {m v v' : Machine} {schedule : List (Manner × SlotName)} {rest : List Op}
  {k : List Frame}

/-- The main fiber of a thread is about to resume some tasks, outside of a
demonstration and with a report hook that returns. No task has been entered yet,
each has a body that concerns itself alone, and none is resumed more often than
it can be before it has ended, so that each resume is accepted. -/
structure Schedules (m : Machine) (schedule : List (Manner × SlotName)) (rest : List Op)
    (k : List Frame) : Prop where
  frames : m.world.thread.frames = .ops (schedule.map Op.resumption ++ rest) :: k
  idle : m.world.thread.task? = none
  calm : m.world.process.program = none
  returns : m.world.HookReturns
  tasks : ∀ r ∈ schedule, ∃ f cb, m.world.thread.slot? r.2 = some f.id ∧
    m.world.thread.fiber? f.id = some f ∧ f.state = .init ∧ f.pending = some cb ∧
    Op.solitaryAll cb.body
  accepted : ∀ x, (m.world.thread.tasks schedule).count x ≤
    (Op.rounds (m.world.thread.bodyOf x)).length

/-- The first `i` resumes of a schedule have been made and answered. Every task has
left in the trace what these rounds of its body bring, and is in the state to which
the last of them has brought it. -/
structure Stands (m : Machine) (schedule : List (Manner × SlotName)) (rest : List Op)
    (k : List Frame) (i : Nat) (v : Machine) : Prop where
  goes : v.done = false
  frames : v.world.thread.frames = .ops ((schedule.drop i).map Op.resumption ++ rest) :: k
  trace : ∃ new, v.world.process.trace.toList = m.world.process.trace.toList ++ new ∧
    ∀ x ∈ m.world.thread.tasks schedule, told x new =
      (m.world.thread.past schedule i x).flatMap fun r =>
        r.marks.flatMap (Mark.events m.world.setting x)
  states : ∀ x ∈ m.world.thread.tasks schedule, v.world.stateOf x =
    (m.world.thread.past schedule i x).getLast?.elim .init Round.state

/-- Between two points of a run, one of some tasks goes one round. -/
structure Goes (s : Setting) (tasks : List FiberId) (x : FiberId) (r : Round) (v v' : Machine) :
    Prop where
  state : v'.world.stateOf x = r.state
  others : ∀ y ∈ tasks, y ≠ x → v'.world.stateOf y = v.world.stateOf y
  trace : ∃ new, v'.world.process.trace.toList = v.world.process.trace.toList ++ new ∧
    told x new = r.marks.flatMap (Mark.events s x) ∧ ∀ y ∈ tasks, y ≠ x → told y new = []

/-- What every task has still to do when `i` resumes have been made. -/
structure Awaits (m : Machine) (schedule : List (Manner × SlotName)) (i : Nat) (v : Machine) :
    Prop where
  home : v.Home
  setting : v.world.setting = m.world.setting
  slots : v.world.thread.slots = m.world.thread.slots
  owes : ∀ x ∈ m.world.thread.tasks schedule, ∃ f, v.world.thread.fiber? x = some f ∧
    f.Owes ((Op.rounds (m.world.thread.bodyOf x)).drop (m.world.thread.resumes schedule i x))

/-- A task with rounds to go, or one that has ended, is not the main fiber. -/
theorem Home.ne_main (home : m.Home) {f : Fiber} {rs : List Round}
    (found : m.world.thread.fiber? f.id = some f) (owes : f.Owes rs) :
    m.world.thread.main ≠ some f.id := by
  intro mine
  obtain ⟨g, foundMain, -, presides⟩ := home.stage.thread.main_presides mine
  obtain rfl : g = f := Option.some.inj (foundMain.symm.trans found)
  have exec : g.state = .exec := by cases presides with | home _ _ state _ => exact state
  cases owes with
  | fresh state context callback own => cases exec.symm.trans state
  | @suspended p tag keep k state context own => cases p <;> cases exec.symm.trans state
  | ended state => rw [exec] at state; cases state

/-- Every task of a schedule is held by a slot. -/
theorem Schedules.holds (schedules : m.Schedules schedule rest k) {x : FiberId}
    (mem : x ∈ m.world.thread.tasks schedule) : ∃ s, m.world.thread.slot? s = some x := by
  obtain ⟨p, there, rfl⟩ := List.mem_map.mp mem
  obtain ⟨f, cb, holds, -⟩ := schedules.tasks p there
  exact ⟨p.2, by rw [holds, Option.getD_some]⟩

/-- The resume that comes next is one of a task that has a round to go. -/
theorem Schedules.due (schedules : m.Schedules schedule rest k) {i : Nat} {x : FiberId}
    (next : (m.world.thread.tasks schedule)[i]? = some x) :
    ∃ p r, schedule[i]? = some p ∧ m.world.thread.slot? p.2 = some x ∧
      (Op.rounds (m.world.thread.bodyOf x))[m.world.thread.resumes schedule i x]? = some r := by
  obtain ⟨p, there, named⟩ : ∃ p, schedule[i]? = some p ∧ (m.world.thread.slot? p.2).getD 0 = x := by
    rw [Thread.tasks, List.getElem?_map] at next
    exact Option.map_eq_some_iff.mp next
  obtain ⟨f, cb, holds, -⟩ := schedules.tasks p (List.mem_of_getElem? there)
  have mine : f.id = x := by rw [← named, holds, Option.getD_some]
  have below : m.world.thread.resumes schedule i x <
      (Op.rounds (m.world.thread.bodyOf x)).length := by
    have sooner := Nat.le_trans (Thread.resumes_le (i := i + 1) x) (schedules.accepted x)
    rw [Thread.resumes_succ next, if_pos rfl] at sooner
    exact sooner
  exact ⟨p, _, there, mine ▸ holds, List.getElem?_eq_getElem below⟩

section

variable {i : Nat} {x : FiberId} {r : Round} {w : World}

/-- No task takes the place of the main fiber while another one runs. -/
theorem Awaits.away (awaits : m.Awaits schedule i v)
    (stretch : World.Stretch x r.marks v.world w) :
    ∀ y ∈ m.world.thread.tasks schedule, w.thread.main ≠ some y := by
  intro y mem isMain
  obtain ⟨f, found, owes⟩ := awaits.owes y mem
  have same := Thread.id_of_fiber? found
  rcases stretch.fresh y isMain with before | later
  · exact awaits.home.ne_main (same ▸ found) owes (same ▸ before)
  · have numbered := (awaits.home.stage.numbered y (List.mem_append_left _
      (same ▸ List.mem_map_of_mem (Thread.mem_of_fiber? found)))).2
    exact absurd later (Nat.not_le.mpr numbered)

/-- The other tasks last, and differ in their handles at most. -/
theorem Awaits.apart (awaits : m.Awaits schedule i v) (schedules : m.Schedules schedule rest k)
    (stretch : World.Stretch x r.marks v.world w) (home : Home { v with world := w }) :
    ∀ y ∈ m.world.thread.tasks schedule, y ≠ x → ∃ f g,
      v.world.thread.fiber? y = some f ∧ w.thread.fiber? y = some g ∧
        g = { f with handles := g.handles } := by
  intro y mem other
  obtain ⟨s, slot⟩ := schedules.holds mem
  have still : w.thread.slot? s = some y := by
    rw [Thread.slot?, stretch.slots, awaits.slots]
    exact slot
  obtain ⟨g, found⟩ := home.stage.thread.exists_of_mem
    (List.mem_append_left _ (Thread.Sound.mem_kept_of_slot still))
  obtain ⟨f, before, same⟩ := stretch.others y g other (awaits.away stretch y mem) found
  exact ⟨f, g, before, found, same⟩

/-- A task has gone one round: the other tasks have left no mark and are in their
states. -/
theorem Awaits.goes (awaits : m.Awaits schedule i v) (schedules : m.Schedules schedule rest k)
    (mem : x ∈ m.world.thread.tasks schedule) (stretch : World.Stretch x r.marks v.world w)
    (home : Home { v with world := w }) {g : Fiber} (left : w.thread.fiber? x = some g)
    (state : g.state = r.state) :
    Goes m.world.setting (m.world.thread.tasks schedule) x r v { v with world := w } := by
  obtain ⟨new, trace, tells⟩ := stretch.trace
  rw [awaits.setting] at tells
  refine ⟨?_, fun y mem other => ?_, new, trace, ?_, fun y mem other => ?_⟩
  · simp only [World.stateOf, left, state]
  · obtain ⟨f, g, before, found, same⟩ := awaits.apart schedules stretch home y mem other
    simp only [World.stateOf, before, found]
    rw [same]
  · rw [tells x (awaits.away stretch x mem), if_pos rfl]
  · rw [tells y (awaits.away stretch y mem), if_neg other]

/-- The first resumes of a schedule and one more. -/
theorem Stands.next (stands : m.Stands schedule rest k i v)
    (next : (m.world.thread.tasks schedule)[i]? = some x)
    (round : (Op.rounds (m.world.thread.bodyOf x))[m.world.thread.resumes schedule i x]? = some r)
    (takes : Goes m.world.setting (m.world.thread.tasks schedule) x r v v')
    (goes : v'.done = false)
    (frames : v'.world.thread.frames = .ops ((schedule.drop (i + 1)).map Op.resumption ++ rest) :: k) :
    m.Stands schedule rest k (i + 1) v' := by
  obtain ⟨old, before, told'⟩ := stands.trace
  obtain ⟨new, after, tells, silent⟩ := takes.trace
  refine ⟨goes, frames, ⟨old ++ new, ?_, fun y mem => ?_⟩, fun y mem => ?_⟩
  · rw [after, before, List.append_assoc]
  · rw [told_append, told' y mem]
    by_cases same : y = x
    · subst same
      rw [tells, Thread.past_succ next round, List.flatMap_append]
      simp
    · rw [silent y mem same, Thread.past_of_ne next same, List.append_nil]
  · by_cases same : y = x
    · subst same
      rw [Thread.past_succ next round, List.getLast?_concat]
      exact takes.state
    · rw [Thread.past_of_ne next same, ← stands.states y mem]
      exact takes.others y mem same

/-- The task that was resumed has one round less to go, and all others have as many. -/
theorem Awaits.next (awaits : m.Awaits schedule i v) (schedules : m.Schedules schedule rest k)
    (next : (m.world.thread.tasks schedule)[i]? = some x)
    (stretch : World.Stretch x r.marks v.world w) (home : Home { v with world := w }) {g : Fiber}
    (left : w.thread.fiber? x = some g)
    (still : g.Owes ((Op.rounds (m.world.thread.bodyOf x)).drop
      (m.world.thread.resumes schedule i x + 1))) :
    m.Awaits schedule (i + 1) { v with world := w } where
  home := home
  setting := stretch.setting.trans awaits.setting
  slots := stretch.slots.trans awaits.slots
  owes y mem := by
    rw [Thread.resumes_succ next]
    by_cases same : y = x
    · subst same
      rw [if_pos rfl]
      exact ⟨g, left, still⟩
    · obtain ⟨f, g', before, found, kept⟩ := awaits.apart schedules stretch home y mem same
      obtain ⟨f', before', owes⟩ := awaits.owes y mem
      obtain rfl : f' = f := Option.some.inj (before'.symm.trans before)
      rw [if_neg same, Nat.add_zero]
      exact ⟨g', found, kept ▸ owes.handles _⟩

end

/-- The next resume of a schedule is made and answered. -/
theorem Schedules.next (schedules : m.Schedules schedule rest k) {i : Nat} {x : FiberId}
    (next : (m.world.thread.tasks schedule)[i]? = some x)
    (stands : m.Stands schedule rest k i v) (awaits : m.Awaits schedule i v) :
    ∃ n r, (Op.rounds (m.world.thread.bodyOf x))[m.world.thread.resumes schedule i x]? = some r ∧
      m.Stands schedule rest k (i + 1) (v.steps (n + 1)) ∧
      m.Awaits schedule (i + 1) (v.steps (n + 1)) ∧
      Goes m.world.setting (m.world.thread.tasks schedule) x r v (v.steps (n + 1)) := by
  have mem : x ∈ m.world.thread.tasks schedule := List.mem_of_getElem? next
  obtain ⟨p, r, there, holds, round⟩ := schedules.due next
  obtain ⟨f, found, owes⟩ := awaits.owes x mem
  obtain rfl := Thread.id_of_fiber? found
  obtain ⟨below, rfl⟩ := List.getElem?_eq_some_iff.mp round
  rw [List.drop_eq_getElem_cons below] at owes
  obtain ⟨length, rfl⟩ := List.getElem?_eq_some_iff.mp there
  have code := stands.frames
  rw [List.drop_eq_getElem_cons length, List.map_cons, List.cons_append] at code
  have holds' : v.world.thread.slot? (schedule[i]).2 = some f.id := by
    rw [Thread.slot?, awaits.slots]
    exact holds
  obtain ⟨n, w, steps, home, frames, stretch, g, left, state, still⟩ :=
    awaits.home.serve code holds' found owes
  have takes := awaits.goes schedules mem stretch home left state
  refine ⟨n, _, round, ?_⟩
  rw [steps]
  exact ⟨stands.next next round takes home.goes frames,
    awaits.next schedules next stretch home left still, takes⟩

/-- Before the first resume, every task has all rounds of its body to go. -/
theorem Schedules.begin (schedules : m.Schedules schedule rest k) (sound : m.Sound)
    (goes : m.done = false) :
    m.Stands schedule rest k 0 m ∧ m.Awaits schedule 0 m := by
  have home : m.Home := ⟨sound, goes, schedules.idle, schedules.calm, schedules.returns⟩
  have fresh : ∀ x ∈ m.world.thread.tasks schedule, ∃ f, m.world.thread.fiber? x = some f ∧
      f.state = .init ∧ f.Owes (Op.rounds (m.world.thread.bodyOf x)) := by
    intro x mem
    obtain ⟨p, there, rfl⟩ := List.mem_map.mp mem
    obtain ⟨f, cb, holds, found, state, callback, own⟩ := schedules.tasks p there
    have named : (m.world.thread.slot? p.2).getD 0 = f.id := by rw [holds, Option.getD_some]
    rw [named]
    have can : f.state.canResume := by rw [state]; rfl
    have body : m.world.thread.bodyOf f.id = cb.body := by
      simp [Thread.bodyOf, found, callback]
    refine ⟨f, found, state, body ▸ .fresh state ?_ callback own⟩
    cases (World.rests_of_canResume home.stage.thread found can).1 with
    | waiting onStack state context callback => exact context
    | suspended onStack other context none => cases none.symm.trans callback
    | finished onStack other context none => cases none.symm.trans callback
  refine ⟨⟨goes, schedules.frames, ⟨[], by simp, fun x _ => rfl⟩, fun x mem => ?_⟩,
    ⟨home, rfl, rfl, fun x mem => ?_⟩⟩
  · obtain ⟨f, found, state, -⟩ := fresh x mem
    simp only [World.stateOf, found, state]
    rfl
  · obtain ⟨f, found, -, owes⟩ := fresh x mem
    exact ⟨f, found, owes⟩

/-- All resumes of a schedule are made and answered, one after another. -/
theorem Schedules.run (schedules : m.Schedules schedule rest k) (sound : m.Sound)
    (goes : m.done = false) {l : Nat} (le : l ≤ schedule.length) :
    ∃ stops : Nat → Nat, stops 0 = 0 ∧
      (∀ i ≤ l, m.Stands schedule rest k i (m.steps (stops i)) ∧
        m.Awaits schedule i (m.steps (stops i))) ∧
      ∀ i x, i < l → (m.world.thread.tasks schedule)[i]? = some x → stops i < stops (i + 1) ∧
        ∃ r, (Op.rounds (m.world.thread.bodyOf x))[m.world.thread.resumes schedule i x]? = some r ∧
          Goes m.world.setting (m.world.thread.tasks schedule) x r (m.steps (stops i))
            (m.steps (stops (i + 1))) := by
  induction l with
  | zero =>
    refine ⟨fun _ => 0, rfl, fun i none => ?_, fun i x none => absurd none (Nat.not_lt_zero i)⟩
    obtain rfl := Nat.le_zero.mp none
    exact schedules.begin sound goes
  | succ l ih =>
    obtain ⟨stops, first, stand, go⟩ := ih (Nat.le_of_succ_le le)
    obtain ⟨x, due⟩ : ∃ x, (m.world.thread.tasks schedule)[l]? = some x :=
      ⟨_, List.getElem?_eq_getElem (by rw [Thread.tasks, List.length_map]; exact le)⟩
    obtain ⟨stands, awaits⟩ := stand l (Nat.le_refl l)
    obtain ⟨n, r, round, stands', awaits', takes⟩ := schedules.next due stands awaits
    rw [← steps_add] at stands' awaits' takes
    refine ⟨fun i => if i ≤ l then stops i else stops l + (n + 1), first, fun i le => ?_,
      fun i y lt there => ?_⟩
    · rcases Nat.lt_or_eq_of_le le with lt | rfl
      · simp only [if_pos (Nat.le_of_lt_succ lt)]
        exact stand i (Nat.le_of_lt_succ lt)
      · simp only [if_neg (Nat.not_succ_le_self l)]
        exact ⟨stands', awaits'⟩
    · rcases Nat.lt_or_eq_of_le (Nat.le_of_lt_succ lt) with lt | rfl
      · simp only [if_pos (Nat.le_of_lt lt), if_pos (Nat.succ_le_of_lt lt)]
        exact go i y lt there
      · obtain rfl : y = x := Option.some.inj (there.symm.trans due)
        simp only [if_pos (Nat.le_refl i), if_neg (Nat.not_succ_le_self i)]
        exact ⟨Nat.lt_add_of_pos_right (Nat.succ_pos n), r, round, takes⟩

/-- A task that has gone all rounds of its body has ended, and cannot be resumed once
more. -/
theorem Stands.ended {i : Nat} {x : FiberId} (stands : m.Stands schedule rest k i v)
    (mem : x ∈ m.world.thread.tasks schedule)
    (all : (Op.rounds (m.world.thread.bodyOf x)).length ≤ m.world.thread.resumes schedule i x) :
    (v.world.stateOf x).terminal ∧ (v.world.stateOf x).canResume = false := by
  obtain ⟨before, last, rounds, -, ended⟩ := Score.cut_eq
    (Op.scoreAll (m.world.thread.bodyOf x)).exit.finish (Op.scoreAll (m.world.thread.bodyOf x)).beats
  rw [stands.states x mem, Thread.past, List.take_of_length_le all, Op.rounds, Score.rounds, rounds,
    List.getLast?_concat, Option.elim_some, ended]
  cases (Op.scoreAll (m.world.thread.bodyOf x)).exit.finish <;> exact ⟨rfl, rfl⟩

/-- Tasks do not disturb each other. Whatever order the main fiber resumes them in,
the `k`-th resume of a task brings the `k`-th round of its own body: the same
answers, the same report of a fault and the same state, whichever other tasks are
resumed in between, and so also if none is. While it runs, no other task leaves a
mark or changes its state, and in the end every task has left what the rounds that
it went bring. -/
theorem rounds_undisturbed (level : Option Level) (hook : ReportHook) (script : List Op) (n : Nat)
    (schedule : List (Manner × SlotName)) (rest : List Op) (k : List Frame)
    (goes : ((start level hook script).steps n).done = false)
    (schedules : ((start level hook script).steps n).Schedules schedule rest k) :
    let m := (start level hook script).steps n
    ∃ stops : Nat → Nat, stops 0 = 0 ∧
      (∀ i ≤ schedule.length, m.Stands schedule rest k i (m.steps (stops i))) ∧
      ∀ i x, (m.world.thread.tasks schedule)[i]? = some x → stops i < stops (i + 1) ∧
        ∃ r, (Op.rounds (m.world.thread.bodyOf x))[m.world.thread.resumes schedule i x]? = some r ∧
          Goes m.world.setting (m.world.thread.tasks schedule) x r (m.steps (stops i))
            (m.steps (stops (i + 1))) := by
  intro m
  obtain ⟨stops, first, stand, go⟩ :=
    schedules.run (sound_of_goes goes) goes (Nat.le_refl schedule.length)
  refine ⟨stops, first, fun i le => (stand i le).1, fun i x there => go i x ?_ there⟩
  have lt := (List.getElem?_eq_some_iff.mp there).1
  rwa [Thread.tasks, List.length_map] at lt

/-- Two tasks are created and resumed in turn. -/
def takingTurns : List (Manner × SlotName) :=
  [(.checked, .named "f"), (.trusted, .named "g"), (.checked, .named "f"), (.trusted, .named "g")]

def twoTasks : List Op :=
  .create (.named "f") minStackSize .heap [.say .null, .park .ready, .say .null] none [] ::
    .create (.named "g") minStackSize .heap [.park .hold, .panic (.text "g")] none [] ::
      takingTurns.map Op.resumption

/-- When both have been created, the main fiber is about to resume them. -/
theorem twoTasks_schedules : ((start none (.tagged "hook" false) twoTasks).steps 2).done = false ∧
    ((start none (.tagged "hook" false) twoTasks).steps 2).Schedules takingTurns [] [.script] := by
  obtain ⟨trace, first⟩ := first_task_created (.tagged "hook" false) (rfl : twoTasks = _)
  obtain ⟨w, reply, goes, unfinished, frames, created', going, hook, calm, code, f, g, slotf,
    slotg⟩ :
      ∃ w reply, ((start none (.tagged "hook" false) twoTasks).steps 1).done = false ∧
        ((start none (.tagged "hook" false) twoTasks).steps 1).finished = false ∧
        ((start none (.tagged "hook" false) twoTasks).steps 1).world.thread.frames =
          [.ops (twoTasks.drop 1), .script] ∧
        World.create (((start none (.tagged "hook" false) twoTasks).steps 1).world.goOn
          [.ops (twoTasks.drop 2), .script]) (.named "g") minStackSize .heap
            ⟨[.park .hold, .panic (.text "g")], none, []⟩ = (w, .done reply) ∧
        w.process.halted = false ∧ w.process.hook = .tagged "hook" false ∧
        w.process.program = none ∧ w.thread.frames = [.ops (twoTasks.drop 2), .script] ∧
        w.thread.fiber? 1 = some (Fiber.task 1 ⟨⟨0, minStackSize⟩, .heap⟩
          ⟨[.say .null, .park .ready, .say .null], none, []⟩) ∧
        w.thread.fiber? 2 = some (Fiber.task 2 ⟨⟨1, minStackSize⟩, .heap⟩
          ⟨[.park .hold, .panic (.text "g")], none, []⟩) ∧
        w.thread.slot? (.named "f") = some 1 ∧ w.thread.slot? (.named "g") = some 2 := by
    rw [first]
    exact ⟨_, _, rfl, rfl, rfl, World.create_eq 2 rfl rfl, rfl, rfl, rfl, rfl, rfl, rfl, rfl, rfl⟩
  -- the second creation is answered
  have begun : World.step ((start none (.tagged "hook" false) twoTasks).steps 1).world =
      World.settle "new" (w, .done reply) := by
    rw [World.step, frames, ← created']
    rfl
  have second : (start none (.tagged "hook" false) twoTasks).steps 2 =
      { (start none (.tagged "hook" false) twoTasks).steps 1 with
        world := w.emit (.completed "new" reply) } := by
    rw [steps_succ_of_goes goes]
    refine step_of_running ?_
    rw [begun]
    exact World.conclude_of_calm calm "new" reply
  have written := w.emit_same (.completed "new" reply)
  rw [second]
  generalize w.emit (.completed "new" reply) = u at written
  -- what is resumed, and what it has to do
  have tasks : u.thread.tasks takingTurns = [1, 2, 1, 2] := by
    simp [Thread.tasks, takingTurns, written.thread, slotf, slotg]
  have bodies : u.thread.bodyOf 1 = [.say .null, .park .ready, .say .null] ∧
      u.thread.bodyOf 2 = [.park .hold, .panic (.text "g")] := by
    simp [Thread.bodyOf, written.thread, f, g, Fiber.task]
  have held : ∀ r ∈ takingTurns, ∃ f cb, u.thread.slot? r.2 = some f.id ∧
      u.thread.fiber? f.id = some f ∧ f.state = .init ∧ f.pending = some cb ∧
      Op.solitaryAll cb.body := by
    rw [written.thread]
    intro r mem
    have named : r.2 = .named "f" ∨ r.2 = .named "g" := by
      simp only [takingTurns, List.mem_cons, List.not_mem_nil, or_false] at mem
      rcases mem with rfl | rfl | rfl | rfl <;> simp
    rcases named with named | named
    · refine ⟨.task 1 _ _, _, ?_, f, rfl, rfl, rfl⟩
      rw [named]
      exact slotf
    · refine ⟨.task 2 _ _, _, ?_, g, rfl, rfl, rfl⟩
      rw [named]
      exact slotg
  have accepted : ∀ x, (u.thread.tasks takingTurns).count x ≤
      (Op.rounds (u.thread.bodyOf x)).length := by
    intro x
    rw [tasks]
    by_cases one : x = 1
    · rw [one, bodies.1]
      decide
    · by_cases two : x = 2
      · rw [two, bodies.2]
        decide
      · rw [List.count_eq_zero_of_not_mem (by simp [one, two])]
        exact Nat.zero_le _
  have idle : u.thread.task? = none := by
    rw [Thread.task?, written.thread, code]
    rfl
  have returns : u.HookReturns := fun t => by
    rw [written.hook, hook]
    simp
  exact ⟨by simp [done, unfinished, written.halted, going],
    (congrArg Thread.frames written.thread).trans code, idle, written.program.trans calm, returns,
    held, accepted⟩

/-- Both have ended when each has been resumed twice. -/
theorem two_tasks_end : ∃ n, Stands ((start none (.tagged "hook" false) twoTasks).steps 2)
    takingTurns [] [.script] 4 (((start none (.tagged "hook" false) twoTasks).steps 2).steps n) := by
  obtain ⟨goes, schedules⟩ := twoTasks_schedules
  obtain ⟨stops, -, stand, -⟩ := rounds_undisturbed none (.tagged "hook" false) twoTasks 2
    takingTurns [] [.script] goes schedules
  exact ⟨stops 4, stand 4 (by decide)⟩

end Machine

end FiberEngine
