/-
FiberEngine.Proofs.Lifecycle — the lives of all fibers of a process.

`Machine.Lived` says that every fiber of a process is in the phase to which the
acts about it lead: those of the thread that runs, those of the threads that
wait for it, and those that ended threads have left behind. Every step keeps it,
by `Does.lived`, and so it holds at every point of a run.

A step that ends the process may stop in the middle of an operation. What was
done up to there is still the beginning of a life, for every fiber.
-/
import FiberEngine.Proofs.Careers
import FiberEngine.Proofs.Stories

namespace FiberEngine

/-! ## 1. The end of a thread -/

namespace World

variable {w v : World} {others : List FiberId} {elsewhere : List (Option Frame × Fiber)}
variable {story : List Act}

/-- If the main fiber of a thread ends with it, it does so while it runs. -/
theorem parting_cases (sound : Stage.Sound others ⟨w, none, .exec, []⟩) :
    w.parting = [] ∨ ∃ f ∈ w.thread.fibers, f.lease = none ∧ w.parting = [.destroyed f.id .exec] := by
  unfold parting
  split
  · rename_i f same
    obtain ⟨id, isMain, found⟩ := Option.bind_eq_some_iff.mp same
    split
    · obtain ⟨g, found', -, presides⟩ := sound.thread.main_presides isMain
      obtain rfl : f = g := Option.some.inj (found.symm.trans found')
      have state : f.state = .exec := by cases presides with | home _ _ state _ => exact state
      rw [state]
      exact .inr ⟨f, Thread.mem_of_fiber? found, presides.lease, rfl⟩
    · exact .inl rfl
  · exact .inl rfl

/-- The fibers that an ended thread leaves behind stay in their phases, and the
main fiber is gone if it is not among them. -/
theorem retire_lived {gone : List Fiber} {new : List Entry}
    (sound : Stage.Sound (idsOf elsewhere) ⟨w, none, .exec, []⟩)
    (lived : Stage.Lived none elsewhere story ⟨w, none, .exec, []⟩)
    (retires : Retires (idsOf elsewhere) w v gone new) :
    (∀ g ∈ gone, ∃ phase, Life g.id (story ++ w.parting) phase ∧ g.In none phase) ∧
      (∀ id ∈ w.thread.ids, id ∉ gone.map Fiber.id → Life id (story ++ w.parting) .gone) ∧
      ∀ id phase, id ∉ w.thread.ids → Life id story phase → Life id (story ++ w.parting) phase := by
  have leaves := retires.leaves
  rw [Leaves, w.parting_births, List.append_nil] at leaves
  have left : ∀ g ∈ gone, ∃ phase, Life g.id story phase ∧ g.In none phase := by
    intro g mem
    obtain ⟨f, before, same⟩ := retires.kept g mem
    obtain ⟨phase, life, looks⟩ := lived.here f before (by simp)
    have idle := sound.thread.idle before (by simp)
    rw [same]
    exact ⟨phase, life, (looks.rebase idle).handles _⟩
  rcases parting_cases sound with none | ⟨f, mem, noStack, parting⟩
  · rw [none] at leaves ⊢
    rw [List.append_nil]
    exact ⟨left, fun id there away => absurd (leaves.mem_iff.mp there) away,
      fun _ _ _ life => life⟩
  · rw [parting] at leaves ⊢
    have dead : deaths [.destroyed f.id .exec] = [f.id] := rfl
    rw [dead, List.singleton_append] at leaves
    have distinct := leaves.nodup_iff.mp (List.nodup_append.mp sound.distinct).1
    have about : About [f.id] [.destroyed f.id .exec] := .one rfl
    have apart : ∀ id phase, id ≠ f.id → Life id story phase →
        Life id (story ++ [.destroyed f.id .exec]) phase :=
      fun id phase other life => life.beside about (by simpa using other)
    refine ⟨?_, ?_, ?_⟩
    · intro g there
      obtain ⟨phase, life, looks⟩ := left g there
      refine ⟨phase, apart g.id phase ?_ life, looks⟩
      intro same
      exact (List.nodup_cons.mp distinct).1 (same ▸ List.mem_map_of_mem there)
    · intro id there away
      obtain rfl : id = f.id := by
        rcases List.mem_cons.mp (leaves.mem_iff.mp there) with same | there
        · exact same
        · exact absurd there away
      obtain ⟨phase, life, looks⟩ := lived.here f mem (by simp)
      cases looks with
      | main _ => exact life.turn .parted
      | waiting onStack => cases noStack.symm.trans onStack
      | running onStack => cases noStack.symm.trans onStack
      | parked onStack => cases noStack.symm.trans onStack
      | finished onStack => cases noStack.symm.trans onStack
    · intro id phase away life
      refine apart id phase ?_ life
      rintro rfl
      exact away (List.mem_map_of_mem mem)

end World

/-! ## 2. The fibers of a process -/

namespace Machine

variable {m v : Machine} {story acts : List Act}

/-- The fibers that are not of the thread that runs, each with the end of the code
of its thread. -/
def elsewhere (m : Machine) : List (Option Frame × Fiber) :=
  m.spawners.flatMap (fun t => t.fibers.map fun f => (t.frames.getLast?, f)) ++
    m.world.process.leaked.map fun f => (none, f)

/-- All fibers, each with the end of the code of its thread. -/
def places (m : Machine) : List (Option Frame × Fiber) :=
  m.world.thread.fibers.map (fun f => (m.world.thread.frames.getLast?, f)) ++ m.elsewhere

theorem idsOf_elsewhere (m : Machine) : idsOf m.elsewhere = m.others := by
  simp only [elsewhere, others, List.map_append, List.map_flatMap, List.map_map]
  rfl

theorem idsOf_places (m : Machine) : idsOf m.places = m.ids := by
  rw [ids, ← idsOf_elsewhere, places, idsOf, List.map_append, List.map_map]
  rfl

/-- Every fiber is in the phase to which the acts about it lead. -/
structure Lived (m : Machine) (story : List Act) : Prop where
  alive : ∀ p ∈ m.places, ∃ phase, Life p.2.id story phase ∧ p.2.In p.1 phase
  unborn : ∀ id, m.world.process.nextId ≤ id → Life id story .unborn
  gone : ∀ id, 0 < id → id < m.world.process.nextId → id ∉ m.ids → Life id story .gone

theorem Lived.stage (lived : m.Lived story) : m.stage.Lived none m.elsewhere story where
  here f mem _ := lived.alive _ (List.mem_append_left _ (List.mem_map_of_mem mem))
  there p mem := lived.alive p (List.mem_append_right _ mem)
  unborn := lived.unborn
  gone id first next absent notThere := by
    refine lived.gone id first next ?_
    rw [ids, ← idsOf_elsewhere]
    simpa using ⟨absent, by simpa using notThere⟩

theorem Lived.begins (lived : m.Lived story) {id : FiberId} (first : 0 < id) :
    ∃ phase, Life id story phase ∧ phase.lasts :=
  lived.stage.begins first

theorem Lived.of_stage {a : Stage} (world : v.world = a.world)
    (lived : a.Lived none v.elsewhere story) : v.Lived story where
  alive p mem := by
    rcases List.mem_append.mp mem with mem | mem
    · obtain ⟨f, there, rfl⟩ := List.mem_map.mp mem
      rw [world] at there ⊢
      exact lived.here f there (by simp)
    · exact lived.there p mem
  unborn id next := lived.unborn id (world ▸ next)
  gone id first next absent := by
    rw [ids, ← idsOf_elsewhere, List.mem_append, not_or, world] at absent
    exact lived.gone id first (world ▸ next) absent.1 absent.2


/-! ## 3. Steps -/

variable {texts : String → Prop} {ends : FiberState → Prop}

/-- The fibers elsewhere, while the running thread goes on. -/
theorem elsewhere_on {w : World} (done : Bool)
    (leaked : w.process.leaked = m.world.process.leaked) :
    elsewhere ⟨w, m.spawners, done⟩ = m.elsewhere := by
  simp only [elsewhere, leaked]

/-- A path leaves the fibers elsewhere as they are. -/
theorem leaked_of_path {a : Stage} (path : Path texts m.stage acts a)
    (sound : m.stage.Sound m.others) : a.world.process.leaked = m.world.process.leaked := by
  obtain ⟨new, tells⟩ := path.tells sound
  exact tells.leaked

theorem lived_of_path {a : Stage} (path : Path texts m.stage acts a)
    (sound : m.stage.Sound m.others) (lived : m.Lived story) :
    a.Lived none m.elsewhere (story ++ acts) := by
  rw [← idsOf_elsewhere] at sound
  exact path.lived sound lived.stage

/-- The last frame of a thread that waits stays when it is told of the end of the other one. -/
theorem hear_base {t : Thread} (e : Ending) (waits : t.Waits) :
    (hear t e).frames.getLast? = t.frames.getLast? := by
  obtain ⟨r, kind, k, frames, body, -⟩ := waits
  simp only [hear, frames, Thread.goOn]
  rw [body.getLast?_cons, body.getLast?_cons]

theorem hear_fibers (t : Thread) (e : Ending) : (hear t e).fibers = t.fibers := by
  unfold hear
  split <;> rfl

/-- Unless it ends the process, a step leaves every fiber in the phase to which its
acts lead. -/
theorem Does.lived (does : Does texts m acts v) (sound : m.stage.Sound m.others)
    (waits : ∀ t ∈ m.spawners, t.Waits) (lived : m.Lived story)
    (goes : v.world.process.halted = false) : v.Lived (story ++ acts) := by
  cases does with
  | @on w r acts path =>
    have after := lived_of_path path sound lived
    rw [← elsewhere_on m.finished (leaked_of_path path sound)] at after
    exact .of_stage rfl after
  | fallen path halted nextId disposed => cases halted.symm.trans goes
  | @finished w e acts path =>
    have after := lived_of_path path sound lived
    rw [← elsewhere_on true (leaked_of_path path sound)] at after
    exact .of_stage rfl after
  | @returned w e parent rest acts path waiting =>
    rw [← List.append_assoc]
    have ended := path.sound sound
    have after := lived_of_path path sound lived
    have kept : w.releaseSlots.process.leaked = m.world.process.leaked := leaked_of_path path sound
    obtain ⟨gone, new, retires⟩ := World.retire_retires ended (World.releaseSlots_slots w)
    rw [← idsOf_elsewhere] at ended retires
    have leaked : w.releaseSlots.retire.process.leaked = m.world.process.leaked ++ gone := by
      rw [retires.leaked, kept]
    obtain ⟨left, lost, apart⟩ := World.retire_lived ended after retires
    have shape : places { m with
        world := ⟨w.releaseSlots.retire.process, hear parent e⟩, spawners := rest } =
          m.elsewhere ++ gone.map fun f => (none, f) := by
      simp [places, elsewhere, hear_fibers, hear_base e (waits parent (by simp [waiting])),
        waiting, leaked, List.append_assoc]
    have distinct := List.nodup_append.mp ended.distinct
    have fresh : ∀ id, w.releaseSlots.process.nextId ≤ id → id ∉ w.releaseSlots.thread.ids :=
      fun id next there => Nat.not_lt.mpr next (ended.numbered id (List.mem_append_left _ there)).2
    refine ⟨?_, ?_, ?_⟩
    · intro p mem
      rw [shape] at mem
      rcases List.mem_append.mp mem with mem | mem
      · obtain ⟨phase, life, looks⟩ := after.there p mem
        have away : p.2.id ∉ w.releaseSlots.thread.ids := fun there =>
          distinct.2.2 p.2.id there p.2.id (List.mem_map_of_mem mem) rfl
        exact ⟨phase, apart _ phase away life, looks⟩
      · obtain ⟨g, there, rfl⟩ := List.mem_map.mp mem
        exact left g there
    · intro id next
      rw [retires.nextId] at next
      exact apart id _ (fresh id next) (after.unborn id next)
    · intro id first next absent
      rw [retires.nextId] at next
      rw [← idsOf_places, shape, idsOf, List.map_append, List.mem_append, not_or,
        List.map_map] at absent
      by_cases there : id ∈ w.releaseSlots.thread.ids
      · exact lost id there absent.2
      · exact apart id _ there (after.gone id first next there absent.1)
  | @started w r kind ops acts path =>
    have after := lived_of_path path sound lived
    have kept : w.process.leaked = m.world.process.leaked := leaked_of_path path sound
    have none : (World.child kind ops).fibers = [] := by cases kind <;> rfl
    refine ⟨?_, after.unborn, ?_⟩
    · intro p mem
      simp only [places, elsewhere, none, List.map_nil, List.nil_append, List.flatMap_cons,
        List.append_assoc, List.mem_append, kept] at mem
      rcases mem with mem | mem
      · obtain ⟨f, there, rfl⟩ := List.mem_map.mp mem
        exact after.here f there (by simp)
      · exact after.there p (by simpa only [elsewhere, List.mem_append] using mem)
    · intro id first next absent
      rw [ids_started kept, List.mem_append, not_or, ← idsOf_elsewhere] at absent
      exact after.gone id first next absent.1 absent.2

/-- The acts about a fiber are the beginning of a life, also when the process ends
in the middle of a step. -/
theorem Does.begins (does : Does texts m acts v) (sound : m.stage.Sound m.others)
    (waits : ∀ t ∈ m.spawners, t.Waits) (lived : m.Lived story) {id : FiberId} (first : 0 < id) :
    ∃ phase, Life id (story ++ acts) phase ∧ phase.lasts := by
  cases goes : v.world.process.halted with
  | false => exact (does.lived sound waits lived goes).begins first
  | true =>
    cases does with
    | on path => cases (path.sound sound).going.symm.trans goes
    | fallen path halted nextId disposed => exact (lived_of_path path sound lived).begins first
    | finished path => cases (path.sound sound).going.symm.trans goes
    | @returned w e parent rest acts path waiting =>
      have ended := path.sound sound
      obtain ⟨gone, new, retires⟩ := World.retire_retires ended (World.releaseSlots_slots w)
      cases ended.going.symm.trans (retires.halted.symm.trans goes)
    | started path => cases (path.sound sound).going.symm.trans goes

/-! ## 4. Answers -/

/-- A step has come back to the resume of a task. The task has just run. The last
thing that happened to it is that it suspended itself or that it ended, and it is
in the state that this says. It has ended well if its callback returned, and only
then. -/
structure Answers (m v : Machine) (acts : List Act) (id : FiberId) : Prop where
  ran : m.world.thread.task? = some id
  last : ∃ (first : List Act) (act : Act) (rest : List Act), acts = first ++ act :: rest ∧
    (∀ a ∈ rest, a.subject? ≠ some id) ∧
      ((∃ next f q k, act = .yielded id next.state ∧ v.world.stateOf id = next.state ∧
        v.world.thread.fiber? id = some f ∧ f.context = some (.suspended (.waiting q :: k)) ∧
          q.parking? = some next) ∨
        (act = .ended id (v.world.stateOf id) ∧ (v.world.stateOf id).terminal ∧
          (v.world.stateOf id = .term ↔ m.world.Concludes)))
  /-- This state is the answer. -/
  reply : ∀ manner k, v.world.thread.frames = .waiting (.resume manner id) :: k →
    ∃ u, (v.world.goOn k).carryOn (.resume manner id) = (u, .done (.state (v.world.stateOf id)))

/-- A thread that has just started, or that has just heard of the end of another
one, is not in the middle of a resume. -/
theorem not_awaits_of_hear {t : Thread} {e : Ending} {p : Pending} {k : List Frame} {id : FiberId}
    (waits : t.Waits) (frames : (hear t e).frames = .waiting p :: k) : ¬ p.Awaits id := by
  obtain ⟨r, kind, k', same, -⟩ := waits
  simp only [hear, same, Thread.goOn, List.cons.injEq, Frame.waiting.injEq] at frames
  rw [← frames.1]
  exact fun awaits => awaits

/-- The last thing that happened to a task that has given way. -/
theorem answers_last {w : World} {r : Option FiberId} {p : Pending} {k : List Frame} {id : FiberId}
    {others : List FiberId} {ends : FiberState → Prop}
    (here : Stage.Sound others (m.world.stage (some id))) (before : m.Lived story)
    (after : v.Lived (story ++ acts)) (world : v.world = w)
    (sound : Stage.Sound others (w.stage r)) (ready : w.thread.Ready r)
    (frames : w.thread.frames = .waiting p :: k) (awaits : p.Awaits id)
    (entered : w.stateOf id ≠ .init) (ended : (w.stateOf id).terminal → ends (w.stateOf id)) :
    ∃ (first : List Act) (act : Act) (rest : List Act), acts = first ++ act :: rest ∧
      (∀ a ∈ rest, a.subject? ≠ some id) ∧
        ((∃ next f q k, act = .yielded id next.state ∧ w.stateOf id = next.state ∧
          w.thread.fiber? id = some f ∧ f.context = some (.suspended (.waiting q :: k)) ∧
            q.parking? = some next) ∨
          (act = .ended id (w.stateOf id) ∧ (w.stateOf id).terminal ∧ ends (w.stateOf id))) := by
  -- the task has been running
  obtain ⟨f, found, same, runs⟩ := here.thread.runner_runs
  obtain ⟨phase, life, looks⟩ := before.stage.here f (Thread.mem_of_fiber? found) (by simp)
  obtain ⟨lease, cb, rfl, -⟩ := looks.of_runs runs
  -- now it rests
  obtain ⟨rfl, notMain⟩ := (ready.below frames).2 id awaits
  have mem : id ∈ Frame.allHandles w.thread.frames := by
    simp [frames, Frame.handles, awaits.handles]
  obtain ⟨g, found'⟩ := sound.thread.exists_of_held mem
  have same' := Thread.id_of_fiber? found'
  have rests := sound.thread.rests found' notMain (by simp)
  have idle := sound.thread.idle (Thread.mem_of_fiber? found') (by simp)
  have state : w.stateOf id = g.state := by simp only [World.stateOf, found']
  have there : g ∈ v.stage.world.thread.fibers := by
    rw [stage, world]
    exact Thread.mem_of_fiber? found'
  obtain ⟨phase, life', looks'⟩ := after.stage.here g there (by simp)
  rw [same] at life
  rw [same'] at life'
  cases looks' with
  | main noStack => exact absurd noStack rests.lease
  | waiting onStack init => exact absurd (state.trans init) entered
  | running onStack exec => exact absurd exec (idle.resolve_left rests.lease)
  | @parked lease' cb' next q k' onStack aside callback context parks code =>
    obtain ⟨first, act, rest, prev, whole, turns, quiet⟩ := life.since (Phase.orderly id) life' (by simp)
    obtain rfl : act = .yielded id next.state := by
      generalize goal : Phase.parked lease' cb' next = phase at turns
      cases turns <;> cases goal
      rfl
    exact ⟨first, _, rest, whole, quiet, .inl ⟨next, g, q, k', rfl, state.trans aside, found',
      context, parks⟩⟩
  | @finished lease' last onStack isLast terminal callback context =>
    obtain ⟨first, act, rest, prev, whole, turns, quiet⟩ := life.since (Phase.orderly id) life' (by simp)
    obtain rfl : act = .ended id last := by
      generalize goal : Phase.finished lease' last = phase at turns
      cases turns <;> cases goal
      rfl
    have final : w.stateOf id = last := state.trans isLast
    rw [final] at ended ⊢
    exact ⟨first, _, rest, whole, quiet, .inr ⟨rfl, terminal, ended terminal⟩⟩

/-- Control comes back to a resume only from the task that was resumed. -/
theorem Sound.answers (sound : m.Sound) (goes : m.done = false) (going : m.step.done = false)
    (before : m.Lived story) (after : m.step.Lived (story ++ acts)) {p : Pending} {k : List Frame}
    {id : FiberId} (frames : m.step.world.thread.frames = .waiting p :: k) (awaits : p.Awaits id) :
    m.Answers m.step acts id := by
  obtain ⟨r, here, advances⟩ := sound.advances goes
  have sound' := (advances.sound sound here).resolve_right (by simp [halted_of_goes going])
  obtain ⟨r', here', ready⟩ := sound'.running
  generalize m.step = v at advances going after frames sound' here' ready
  cases advances with
  | fallen falls =>
    cases (halted_of_goes going).symm.trans falls.halted
  | finished leads body alone => cases finished_of_goes going
  | @returned w e parent rest leads body waiting =>
    exact absurd awaits (not_awaits_of_hear (sound.waiting parent (by simp [waiting])) frames)
  | @started w r' kind ops k' leads body frames' =>
    cases kind <;> cases frames
  | @on w r'' leads ready'' continues =>
    cases continues with
    | ahead waits same => exact absurd awaits (waits p k id frames)
    | @back id' p' k' was frames' awaits' entered ended =>
      obtain rfl : p = p' := Frame.waiting.inj (List.cons.inj (frames.symm.trans frames')).1
      obtain rfl := awaits.eq awaits'
      subst was
      refine ⟨here.thread.task, answers_last here before after rfl (leads.sound here) ready''
        frames awaits entered ended, fun manner k' resumes => ?_⟩
      have mem : id ∈ Frame.allHandles w.thread.frames := by
        simp [frames', Frame.handles, awaits.handles]
      obtain ⟨g, found⟩ := (leads.sound here).thread.exists_of_held mem
      have found : w.thread.fiber? id = some g := found
      have found' : (w.goOn k').thread.fiber? id = some g := found
      have state : w.stateOf id = g.state := by simp only [World.stateOf, found]
      refine ⟨(w.goOn k').release [id], ?_⟩
      change (w.goOn k').onHeld id _ = (_, .done (.state (w.stateOf id)))
      simp only [World.onHeld, found', state]
      rfl

/-- A task that gives way while its thread goes on gives way to the code that has
resumed it. -/
theorem Sound.gives_way (sound : m.Sound) (goes : m.done = false) (going : m.step.done = false)
    (stays : m.step.spawners = m.spawners) {id : FiberId} (ran : m.world.thread.task? = some id)
    (away : m.step.world.thread.task? ≠ some id) :
    ∃ p k, m.step.world.thread.frames = .waiting p :: k ∧ p.Awaits id := by
  obtain ⟨r, here, advances⟩ := sound.advances goes
  obtain rfl : r = some id := here.thread.task.symm.trans ran
  generalize m.step = v at advances going stays away
  cases advances with
  | fallen falls =>
    cases (halted_of_goes going).symm.trans falls.halted
  | finished leads body alone => cases finished_of_goes going
  | @returned w e parent rest leads body waiting =>
    rw [waiting] at stays
    exact absurd stays.symm (List.cons_ne_self parent rest)
  | @started w r' kind ops k leads body frames =>
    exact absurd stays (List.cons_ne_self w.thread m.spawners)
  | @on w r' leads ready continues =>
    cases continues with
    | ahead waits same => exact absurd (same.resolve_left (by simp)) away
    | @back id' p k was frames awaits entered ended =>
      obtain rfl : id = id' := Option.some.inj was
      exact ⟨p, k, frames, awaits⟩

/-! ## 5. Runs -/

section

variable {level : Option Level} {hook : ReportHook} {script : List Op} {n : Nat}

/-- Before the first step there are no fibers and no acts. -/
theorem start_lived (level : Option Level) (hook : ReportHook) (script : List Op) :
    (start level hook script).Lived [] where
  alive p mem := by
    have none : (start level hook script).places = [] := rfl
    rw [none] at mem
    cases mem
  unborn id _ := .start
  gone id first next := absurd next (Nat.not_lt.mpr first)

/-- At every point of a run, every fiber is in the phase to which its acts lead. -/
theorem Story.lived (story : Story (start level hook script) n acts)
    (goes : ((start level hook script).steps n).world.process.halted = false) :
    ((start level hook script).steps n).Lived acts := by
  induction story with
  | begin => exact start_lived level hook script
  | next story before does ih =>
    exact does.lived (stage_sound before) (sound_of_goes before).waiting
      (ih (halted_of_goes before)) goes
  | still story done ih =>
    rw [steps_succ_of_done done] at goes ⊢
    exact ih goes

/-- At every point of a run, and when it has ended, the acts about a fiber are the
beginning of a life. -/
theorem Story.begins (story : Story (start level hook script) n acts) {id : FiberId}
    (first : 0 < id) : ∃ phase, Life id acts phase ∧ phase.lasts := by
  induction story with
  | begin => exact ⟨_, .start, rfl⟩
  | next story before does ih =>
    exact does.begins (stage_sound before) (sound_of_goes before).waiting
      (story.lived (halted_of_goes before)) first
  | still story done ih => exact ih

/-- The acts about a fiber are the beginning of a life, and every fiber is in the
phase to which they lead. A resume is answered right after the task that it
resumed has suspended itself or ended, and a task that gives way gives way to
the resume. -/
theorem lives_in_rounds (level : Option Level) (hook : ReportHook) (script : List Op) (n : Nat) :
    let m := (start level hook script).steps n
    let v := (start level hook script).steps (n + 1)
    (∃ acts, Story (start level hook script) n acts) ∧
      ∀ acts, Story (start level hook script) n acts →
        (∀ id, 0 < id → ∃ phase, Life id acts phase ∧ phase.lasts) ∧
        (m.world.process.halted = false → m.Lived acts) ∧
        ∀ more, Does m.world.MayReport m more v → m.done = false → v.done = false →
          (∀ p k id, v.world.thread.frames = .waiting p :: k → p.Awaits id →
            Answers m v more id) ∧
          ∀ id, v.spawners = m.spawners → m.world.thread.task? = some id →
            v.world.thread.task? ≠ some id →
              ∃ p k, v.world.thread.frames = .waiting p :: k ∧ p.Awaits id := by
  intro m v
  refine ⟨steps_story level hook script n, fun acts story => ⟨fun id first => story.begins first,
    story.lived, fun more does goes going => ?_⟩⟩
  have sound := sound_of_goes goes
  have next : v = m.step := steps_succ_of_goes goes
  have after := (story.next goes does).lived (halted_of_goes going)
  change v.Lived (acts ++ more) at after
  rw [next] at after going ⊢
  refine ⟨fun p k id frames awaits => ?_, fun id stays ran away => ?_⟩
  · exact sound.answers goes going (story.lived (halted_of_goes goes)) after frames awaits
  · exact sound.gives_way goes going stays ran away

end

end Machine

end FiberEngine
