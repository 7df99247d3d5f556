/-
FiberEngine.Proofs.Companions — two codes of one task, side by side.

The same task runs in two machines, with codes that have the same atoms, while all
else is the same: the two are beside each other. Where their codes meet, both make
the same step (`Beside.paces`). Where the next step of one of them only begins or
ends a loop, a block or a suspension, this one goes on alone until it is beside the
other one again (`On.idle`, `Beside.drift`).

A suspension takes two steps, in which the main fiber resumes the task once more. That
there is always room for one more resume is kept by counting it against the weight
of what is still to run.
-/
import FiberEngine.Proofs.Suspension
import FiberEngine.Proofs.Acceptance

namespace FiberEngine

open FiberEngine.Frame (allAtoms Meets)

/-- Whatever a request comes to, the thread keeps its main fiber. -/
theorem Lands.keepsMain {texts fatal : String → Prop} {others h : List FiberId} {a : Stage}
    {x : World × Outcome} (lands : Lands texts fatal a h x) (sound : a.Sound others)
    (lasts : x.2 ≠ .aborted) : a.world.thread.KeepsMain x.1.thread := by
  have kept : ∀ {b : Stage}, Leads texts a b → a.world.thread.KeepsMain b.world.thread := by
    intro b leads
    obtain ⟨new, tells⟩ := leads.tells sound
    exact tells.main
  cases lands with
  | done stays _ | panicked stays => exact kept stays.leads
  | next leads _ _ | started leads _ => exact kept leads
  | aborted _ => exact absurd rfl lasts

namespace Drive

variable {D : Drive} {d d' d₂ : Nat} {m m' : Machine} {k k' : List Frame} {u w w' : World}

/-! ## 1. Two runs side by side -/

/-- The task of a drive runs, after so many resumes. There is room for one more resume
for whatever is still to run. -/
structure On (D : Drive) (d : Nat) (m : Machine) : Prop where
  sound : m.Sound
  goes : m.done = false
  runs : D.Runs m.world.thread
  parked : m.world.mainFrames = .ok (D.code d)
  quiet : Level.admits m.world.process.level .trace = false
  room : d + m.weight ≤ D.max

/-- In both machines the task runs, with codes that have the same atoms, and all else
is the same. -/
structure Beside (D : Drive) (d d' : Nat) (m m' : Machine) : Prop where
  left : D.On d m
  right : D.On d' m'
  twins : Twins D.task (D.guise m'.world.thread.frames d') m.world m'.world
  spawners : m'.spawners = m.spawners
  same : allAtoms m.world.thread.frames = allAtoms m'.world.thread.frames

theorem On.stage (on : D.On d m) : Stage.Sound m.others (m.world.stage (some D.task)) ∧
    m.world.thread.Ready (some D.task) := by
  obtain ⟨r, here, ready⟩ := on.sound.running
  obtain rfl := on.runs.runner here.thread
  exact ⟨here, ready (Machine.finished_of_goes on.goes)⟩

theorem On.owner (on : D.On d m) : m.world.thread.frames.getLast?.bind Frame.owner? = some D.task :=
  on.stage.1.thread.task

theorem On.frames_cons (on : D.On d m) : ∃ fr k, m.world.thread.frames = fr :: k := by
  have owner := on.owner
  cases frames : m.world.thread.frames with
  | nil =>
    rw [frames] at owner
    cases owner
  | cons fr k => exact ⟨fr, k, rfl⟩

/-- The code below a frame that waits for nothing. -/
theorem On.body_of_inner (on : D.On d m) {fr : Frame} (frames : m.world.thread.frames = fr :: k)
    (inner : fr.isInner) : Body (some D.task) k := by
  refine ((on.stage.2.code frames ?_).of_inner inner).1
  rintro p rfl
  cases inner

/-- The task still runs, some steps later. -/
theorem On.later (on : D.On d m) {n : Nat} (goes : (m.steps n).done = false)
    (twins : Twins D.task (D.guise k d₂) u (m.steps n).world)
    (current : (m.steps n).world.thread.current = some D.task)
    (isMain : (m.steps n).world.thread.main = some D.main) (room : d₂ ≤ d + n) :
    D.On d₂ (m.steps n) := by
  have sound := (on.sound.steps n).resolve_right (by simp [Machine.halted_of_goes goes])
  have lighter := (on.sound.steps_lighter n).resolve_left (by simp [goes])
  have runs : D.Runs (m.steps n).world.thread := ⟨current, isMain, on.runs.ne⟩
  obtain ⟨r, here, -⟩ := sound.running
  obtain rfl := runs.runner here.thread
  refine ⟨sound, goes, runs, ?_, ?_, ?_⟩
  · obtain ⟨main, p, j, isMain', -, parked, -⟩ := World.mainFrames_of_runner here.thread
    have dressed := mainFrames twins (twins.main.symm.trans isMain)
    rw [parked] at dressed ⊢
    cases eq : u.mainFrames with
    | error e =>
      rw [eq] at dressed
      cases dressed
    | ok j' =>
      rw [eq] at dressed
      exact dressed
  · rw [on.sound.steps_level n]
    exact on.quiet
  · have := on.room
    omega

/-- A world in its own guise. -/
theorem twins_self {w : World} {x : FiberId} (distinct : w.thread.Distinct)
    (isMain : w.thread.main = some D.main) (parked : w.mainFrames = .ok (D.code d)) :
    Twins x (D.guise w.thread.frames d) w w := by
  obtain ⟨g, found, context⟩ := World.mainFrames_eq_ok isMain parked
  have fibers : w.thread.fibers.map (D.guise w.thread.frames d).fiber = w.thread.fibers := by
    refine (List.map_congr_left fun f mem => ?_).trans (List.map_id _)
    by_cases mine : f.id = D.main
    · have there := Thread.fiber?_of_mem distinct mem
      rw [mine] at there
      obtain rfl : f = g := Option.some.inj (there.symm.trans found)
      have dressed : ∀ cb, (D.guise w.thread.frames d).callback f.id cb = cb := fun _ => rfl
      have same : (D.guise w.thread.frames d).context f.id (.suspended (D.code d)) =
          .suspended (D.code d) := by simp [Guise.context, guise]
      simp only [Guise.fiber, context, Option.map_some, same, funext dressed, Option.map_id', id]
      rw [← context]
    · exact guise_fiber_of_ne mine
  refine ⟨?_, rfl, rfl⟩
  simp only [Guise.thread, fibers]
  rfl

/-- Of two worlds that are a third one in a guise, one is the other one in its guise. -/
theorem across (first : Twins D.task (D.guise k d) u w)
    (second : Twins D.task (D.guise k' d') u w') : Twins D.task (D.guise k' d') w w' where
  thread := by rw [second.thread, first.thread, guise_thread]
  process := second.process.trans first.process.symm
  trace := second.trace.trans first.trace.symm

theorem On.twins_self (on : D.On d m) :
    Twins D.task (D.guise m.world.thread.frames d) m.world m.world :=
  Drive.twins_self on.stage.1.thread.distinct on.runs.main on.parked

theorem Beside.symm (b : D.Beside d d' m m') : D.Beside d' d m' m where
  left := b.right
  right := b.left
  twins := across b.twins b.left.twins_self
  spawners := b.spawners.symm
  same := b.same.symm

theorem Beside.abreast (b : D.Beside d d' m m') :
    D.Abreast d d' m.world m.world m'.world m.world.thread.frames m'.world.thread.frames :=
  ⟨b.left.twins_self, b.twins, b.same, b.left.owner⟩

/-- The left one of two worlds may be the third one. -/
theorem Abreast.rebase (a : D.Abreast d d' u w w' k k') : D.Abreast d d' w w w' k k' :=
  ⟨across a.left a.left, across a.left a.right, a.same, a.base⟩

/-! ## 2. A step where both codes do the same -/

section

variable {others : List FiberId} {w w' : World} {op : Op} {rest rest' : List Op}

/-- The task performs an operation that comes to the same in both worlds. -/
theorem perform_paces (a : D.Abreast d d' w w w' (.ops rest :: k) (.ops rest' :: k'))
    (sound : Stage.Sound others (w.stage (some D.task))) (runs : D.Runs w.thread)
    (body : Body (some D.task) k) (stays : ∀ v, op ≠ .leave v)
    (left : Agree D.task (D.guise (.ops rest :: k) d) (w.perform op) (w.perform op))
    (right : Agree D.task (D.guise (.ops rest' :: k') d') (w.perform op) (w'.perform op)) :
    D.Paces d d' (World.settle op.name (w.perform op)) (World.settle op.name (w'.perform op)) := by
  have frames : w.thread.frames = .ops rest :: k := a.frames.1
  have body : Body (some D.task) (.ops rest :: k) := .ops rest body
  have permits : w.Permits op (fun _ => True) (fun _ => True) :=
    ⟨fun _ => trivial, fun _ _ => trivial, fun _ _ => ⟨trivial, trivial⟩⟩
  have lands := World.perform_lands sound (frames ▸ body) stays permits
  have kept := lands.keepsMain sound
  have answer := right.answer
  generalize w.perform op = x at left right lands kept answer ⊢
  generalize w'.perform op = x' at right answer ⊢
  obtain ⟨v, o⟩ := x
  obtain ⟨v', o'⟩ := x'
  obtain rfl : o' = o := answer
  refine settle_paces op.name left right a.same (fun lasts => kept lasts _ runs.main) runs.ne body
    fun child same => ?_
  subst same
  cases lands with
  | started leads waits =>
    have still : v.thread.frames = .ops rest :: k := congrArg Thread.frames left.twins.thread
    rw [still] at waits
    cases waits

/-- The task makes a request in both worlds. -/
theorem request_paces (a : D.Abreast d d' w w w' (.ops rest :: k) (.ops rest' :: k'))
    (sound : Stage.Sound others (w.stage (some D.task))) (runs : D.Runs w.thread)
    (body : Body (some D.task) k) (request : op.isControl = false) :
    D.Paces d d' (World.settle op.name (w.perform op)) (World.settle op.name (w'.perform op)) := by
  by_cases early : ∃ v, op = .leave v
  · obtain ⟨v, rfl⟩ := early
    exact leave_paces a runs.main runs.ne (.ops rest body) v
  · have away := runs.away
    exact perform_paces a sound runs body (fun v same => early ⟨v, same⟩)
      (World.perform_agree a.left keepsBodies (.inr away) request)
      (World.perform_agree a.right keepsBodies (.inr away) request)

/-- The task asks another fiber to suspend itself, which is refused in both worlds. -/
theorem pause_paces {manner : Manner} {ref : FiberRef}
    (a : D.Abreast d d' w w w' (.ops rest :: k) (.ops rest' :: k'))
    (sound : Stage.Sound others (w.stage (some D.task))) (runs : D.Runs w.thread)
    (body : Body (some D.task) k) (other : (w.fetch ref).2 ≠ some D.task) :
    D.Paces d d' (World.settle (Op.pause manner ref).name (w.perform (.pause manner ref)))
      (World.settle (Op.pause manner ref).name (w'.perform (.pause manner ref))) := by
  have refused : ∀ {id f}, (w.fetch ref).2 = some id →
      ((w.fetch ref).1.hold id).thread.fiber? id = some f →
      ∃ e, f.yieldRefusal? ((w.fetch ref).1.hold id).thread.currentId = some e := by
    intro id f fetched found
    obtain ⟨f₀, found₀⟩ := World.exists_of_fetch sound fetched
    rw [runs.away.fetch ref] at found found₀ ⊢
    have held : Stays (fun _ => True) (w.stage (some D.task)) _ := World.hold_stays found₀
    have mine := Thread.id_of_fiber? found
    have ne : some D.task ≠ some f.id := by
      rw [mine]
      exact fun same => other (fetched.trans same.symm)
    rw [World.yieldRefusal_eq (held.sound sound) (mine.symm ▸ found), if_neg ne]
    split
    · exact ⟨_, rfl⟩
    · split <;> exact ⟨_, rfl⟩
  have agree : ∀ {g : Guise} {v : World}, Twins D.task g w v →
      Agree D.task g (w.perform (.pause manner ref)) (v.perform (.pause manner ref)) := by
    intro g v twins
    rw [World.perform, World.perform]
    refine World.onFiber_agree_of_held twins ref fun fetched found held => ?_
    obtain ⟨e, why⟩ := refused fetched found
    exact World.suspend_agree_of_refused held why
  exact perform_paces a sound runs body (by simp) (agree a.left) (agree a.right)

/-- The task starts a thread in both worlds. -/
theorem spawn_paces {kind : ThreadKind} {ops : List Op}
    (a : D.Abreast d d' w w w' (.ops rest :: k) (.ops rest' :: k')) (runs : D.Runs w.thread)
    (body : Body (some D.task) k) :
    D.Paces d d' (World.settle (Op.thread kind ops).name (w.spawn kind ops))
      (World.settle (Op.thread kind ops).name (w'.spawn kind ops)) := by
  have body : Body (some D.task) (.ops rest :: k) := .ops rest body
  unfold World.spawn
  split
  · exact unwind_paces a runs.main runs.ne body _
  · -- what is logged is the same, and the code is parked behind the end of the thread
    have pushed : ∀ {u v v' : World},
        D.Abreast d d' u v v' (.ops rest :: k) (.ops rest' :: k') →
        D.Abreast d d' u (v.onThread fun t => t.push (.waiting (.join kind none)))
          (v'.onThread fun t => t.push (.waiting (.join kind none)))
          (.waiting (.join kind none) :: .ops rest :: k)
          (.waiting (.join kind none) :: .ops rest' :: k') := by
      intro u v v' here
      have pushed : ∀ {v : World} {j : List Frame}, v.thread.frames = j →
          v.onThread (fun t => t.push (.waiting (.join kind none))) =
            v.goOn (.waiting (.join kind none) :: j) := by
        rintro v j rfl
        rfl
      rw [pushed here.frames.1, pushed here.frames.2]
      exact here.goOn (Frame.allAtoms_congr _ here.same) (List.getLast?_cons_of_ne_nil (by simp))
    cases kind with
    | engine name =>
      exact .started _ (pushed (a.map (c := fun w => w.log (.threadSpawned name)) fun twins =>
        World.log_twins twins _))
    | plain name => exact .started _ (pushed a)

/-- The task starts a demonstration in both worlds. -/
theorem startDemo_paces {demo : Demo}
    (a : D.Abreast d d' w w w' (.ops rest :: k) (.ops rest' :: k')) :
    D.Paces d d' (World.settle (Op.demo demo).name (w.startDemo demo))
      (World.settle (Op.demo demo).name (w'.startDemo demo)) := by
  have started := a.map (v := { w with process :=
      { w.process with program := some ⟨⟨"", ""⟩, 0, none⟩ } }) (c := fun w => { w with process :=
      { w.process with program := some ⟨⟨"", ""⟩, 0, none⟩ } }) fun twins =>
    twins.withProcess fun p => { p with program := some ⟨⟨"", ""⟩, 0, none⟩ }
  have pushed : ∀ {v : World} {j : List Frame}, v.thread.frames = j →
      v.startDemo demo = (World.goOn { v with process :=
        { v.process with program := some ⟨⟨"", ""⟩, 0, none⟩ } }
          (.ops demo.script :: .program demo :: j), .next) := by
    rintro v j rfl
    rfl
  rw [pushed a.frames.1, pushed a.frames.2]
  refine .on (started.goOn (Frame.allAtoms_congr _ (Frame.allAtoms_congr _ a.same)) ?_)
  rw [List.getLast?_cons_of_ne_nil (by simp), List.getLast?_cons_of_ne_nil (by simp)]

/-- An operation that has waited goes on in both worlds. -/
theorem carryOn_paces {p : Pending} (a : D.Abreast d d' w w w' k k')
    (sound : Stage.Sound others ⟨w, some D.task, .exec, p.handles ++ Frame.allHandles k⟩)
    (runs : D.Runs w.thread) (body : Body (some D.task) k) (own : ∀ id, ¬ p.Awaits id) :
    D.Paces d d' (World.settle p.name (w.carryOn p)) (World.settle p.name (w'.carryOn p)) := by
  have left := World.carryOn_agree a.left (.inr runs.away) p
  have right := World.carryOn_agree a.right (.inr runs.away) p
  have lands : Lands (fun _ => True) (fun _ => True) _ _ (w.carryOn p) :=
    World.carryOn_lands (a.frames.1 ▸ sound) (a.frames.1 ▸ body)
      fun id awaits => absurd awaits (own id)
  have kept := lands.keepsMain (a.frames.1 ▸ sound)
  have answer := right.answer
  generalize w.carryOn p = x at left right lands kept answer ⊢
  generalize w'.carryOn p = x' at right answer ⊢
  obtain ⟨v, o⟩ := x
  obtain ⟨v', o'⟩ := x'
  obtain rfl : o' = o := answer
  refine settle_paces p.name left right a.same (fun lasts => kept lasts _ runs.main) runs.ne body
    fun child same => ?_
  subst same
  cases lands with
  | started leads waits =>
    have still : v.thread.frames = k := congrArg Thread.frames left.twins.thread
    rw [still, a.frames.1] at waits
    exact absurd waits.symm (by simp)

end

/-- Both codes take up what follows an operation. -/
theorem Beside.begins {op : Op} {rest rest' : List Op} (b : D.Beside d d' m m')
    (frames : m.world.thread.frames = .ops (op :: rest) :: k)
    (same : allAtoms (.ops rest :: k) = allAtoms (.ops rest' :: k')) :
    Body (some D.task) k ∧ D.Runs (m.world.goOn (.ops rest :: k)).thread ∧
      Stage.Sound m.others ((m.world.goOn (.ops rest :: k)).stage (some D.task)) ∧
      D.Abreast d d' (m.world.goOn (.ops rest :: k)) (m.world.goOn (.ops rest :: k))
        (m'.world.goOn (.ops rest' :: k')) (.ops rest :: k) (.ops rest' :: k') := by
  have a := b.abreast
  have body : Body (some D.task) k := b.left.body_of_inner frames rfl
  have base : (Frame.ops rest :: k).getLast? = m.world.thread.frames.getLast? := by
    rw [frames, body.getLast?_cons, body.getLast?_cons]
  have handles : Frame.allHandles m.world.thread.frames = Frame.allHandles (.ops rest :: k) := by
    rw [frames]
    rfl
  have here := World.sound_goOn b.left.stage.1 base
  rw [handles] at here
  exact ⟨body, ⟨b.left.runs.current, b.left.runs.main, b.left.runs.ne⟩, here,
    (a.goOn same base).rebase⟩

/-- Both codes enter a block whose errors are caught. -/
theorem Beside.attempts {ops ops' rest rest' : List Op} (b : D.Beside d d' m m')
    (frames : m.world.thread.frames = .ops (.attempt ops :: rest) :: k)
    (frames' : m'.world.thread.frames = .ops (.attempt ops' :: rest') :: k')
    (inside : Op.allAtoms ops = Op.allAtoms ops')
    (same : allAtoms (.ops rest :: k) = allAtoms (.ops rest' :: k')) :
    D.Paces d d' m.world.step m'.world.step := by
  have body : Body (some D.task) k := b.left.body_of_inner frames rfl
  have pushed : ∀ {w : World} {ops rest : List Op} {k : List Frame},
      w.thread.frames = .ops (.attempt ops :: rest) :: k →
      w.step = (w.goOn (.ops ops :: .catching :: .ops rest :: k), .running) := by
    intro w ops rest k frames
    rw [World.step, frames]
    rfl
  have within : (Frame.ops ops).atoms = (Frame.ops ops').atoms :=
    congrArg (List.map fun op => Frame.ops [op]) inside
  rw [pushed frames, pushed frames']
  refine .on (b.abreast.goOn ?_ ?_)
  · rw [Frame.allAtoms_cons, Frame.allAtoms_cons (.ops ops'), within,
      Frame.allAtoms_congr .catching same]
  · rw [frames, body.getLast?_cons, (body.ops rest).catching.getLast?_cons,
      (body.ops rest).getLast?_cons, body.getLast?_cons]

/-- The operation for which both codes wait has its answer. -/
theorem Beside.resolves {p : Pending} (b : D.Beside d d' m m')
    (frames : m.world.thread.frames = .waiting p :: k)
    (frames' : m'.world.thread.frames = .waiting p :: k') (same : allAtoms k = allAtoms k') :
    D.Paces d d' m.world.step m'.world.step := by
  obtain ⟨here, ready⟩ := b.left.stage
  obtain ⟨body, home⟩ := ready.below frames
  -- only the code of the main fiber waits for a fiber
  have own : ∀ id, ¬ p.Awaits id := fun id awaits =>
    absurd (home id awaits).1 (Option.some_ne_none _)
  have base : k.getLast? = m.world.thread.frames.getLast? := by
    rw [frames, body.getLast?_cons]
  have here : Stage.Sound m.others
      ⟨m.world.goOn k, some D.task, .exec, p.handles ++ Frame.allHandles k⟩ := by
    have here := World.sound_goOn here base
    rwa [frames] at here
  have runs := b.left.runs
  rw [World.step, World.step, frames, frames']
  exact carryOn_paces (b.abreast.goOn same base).rebase here
    ⟨runs.current, runs.main, runs.ne⟩ body own

/-- The task's own frame, on top, ends both codes. -/
theorem Beside.finishes {f : FiberId} {tag : Option String} {keep : List FiberId}
    (b : D.Beside d d' m m')
    (frames : m.world.thread.frames = .task f tag keep :: k)
    (frames' : m'.world.thread.frames = .task f tag keep :: k') :
    D.Paces d d' m.world.step m'.world.step := by
  obtain rfl : f = D.task := by
    cases b.left.stage.2.code frames (by simp) with
    | task => rfl
    | inner isInner => cases isInner
  have a := b.abreast
  rw [frames, frames'] at a
  rw [World.step, World.step, frames, frames']
  exact finish_paces a b.left.runs.main b.left.runs.ne tag keep _

/-- The task takes up an operation with which both codes begin. -/
theorem Beside.performs {op : Op} {rest rest' : List Op} (b : D.Beside d d' m m')
    (frames : m.world.thread.frames = .ops (op :: rest) :: k)
    (frames' : m'.world.thread.frames = .ops (op :: rest') :: k')
    (busy : (Frame.ops (op :: rest)).isIdle = false) (simple : ∀ ops, op ≠ .attempt ops)
    (goes : ∀ manner ref, op ≠ .pause manner ref)
    (same : allAtoms (.ops rest :: k) = allAtoms (.ops rest' :: k')) :
    D.Paces d d' m.world.step m'.world.step := by
  obtain ⟨body, runs, here, went⟩ := b.begins frames same
  rw [World.step, World.step, frames, frames']
  cases request : op.isControl with
  | false => exact request_paces went here runs body request
  | true =>
    cases op with
    | loop times ops | park p => cases busy
    | attempt ops => exact absurd rfl (simple ops)
    | pause manner ref => exact absurd rfl (goes manner ref)
    | thread kind ops => exact spawn_paces went runs body
    | demo demo => exact startDemo_paces went
    | _ => cases request

/-- A step of both where their codes meet, unless the task suspends itself. -/
theorem Beside.paces (b : D.Beside d d' m m') {fr : Frame}
    (frames : m.world.thread.frames = fr :: k)
    (busy : fr.isIdle = false) (meets : Meets m.world.thread.frames m'.world.thread.frames)
    (goes : ∀ manner ref rest, fr ≠ .ops (.pause manner ref :: rest)) :
    D.Paces d d' m.world.step m'.world.step := by
  have runs := b.left.runs
  have inner : fr.isInner → Body (some D.task) k := b.left.body_of_inner frames
  have a := b.abreast
  rw [frames] at meets a
  generalize frames' : m'.world.thread.frames = j' at meets
  cases meets with
  | @request op rest rest' _ k' simple same =>
    refine b.performs frames frames' busy simple (fun manner ref eq => ?_) same
    exact goes manner ref rest (eq ▸ rfl)
  | attempt inside same => exact b.attempts frames frames' inside same
  | @frame _ _ k' ends same =>
    cases fr with
    | ops rest => exact absurd rfl (ends rest)
    | loop times ops => cases busy
    | catching =>
      have body := inner rfl
      rw [World.step, World.step, frames, frames']
      exact conclude_paces (a.goOn same (body.getLast?_cons _).symm)
        runs.main runs.ne body _ _
    | program demo =>
      have went := a.goOn same ((inner rfl).getLast?_cons _).symm
      rw [World.step, World.step, frames, frames']
      exact .on (went.map (c := fun w => w.endDemo demo none)
        fun twins => World.endDemo_twins twins demo none)
    | waiting p => exact b.resolves frames frames' same
    | task f tag keep => exact b.finishes frames frames'
    | script =>
      cases b.left.stage.2.code frames (by simp) with
      | inner isInner => cases isInner

/-! ## 3. Steps of one code alone -/

/-- The task has gone on by itself, to code with the same atoms. -/
structure Drifts (D : Drive) (d₂ : Nat) (m m₂ : Machine) : Prop where
  on : D.On d₂ m₂
  twins : Twins D.task (D.guise m₂.world.thread.frames d₂) m.world m₂.world
  spawners : m₂.spawners = m.spawners
  same : allAtoms m.world.thread.frames = allAtoms m₂.world.thread.frames

theorem Beside.drift {m₂ : Machine} (b : D.Beside d d' m m') (drifts : D.Drifts d₂ m m₂) :
    D.Beside d₂ d' m₂ m' where
  left := drifts.on
  right := b.right
  twins := across drifts.twins b.twins
  spawners := b.spawners.trans drifts.spawners.symm
  same := drifts.same.symm.trans b.same

theorem On.drift (on : D.On d m) {n : Nat}
    (twins : Twins D.task (D.guise k d₂) m.world (m.steps n).world)
    (finished : (m.steps n).finished = m.finished) (spawners : (m.steps n).spawners = m.spawners)
    (same : allAtoms m.world.thread.frames = allAtoms k) (room : d₂ ≤ d + n) :
    D.Drifts d₂ m (m.steps n) := by
  have frames : (m.steps n).world.thread.frames = k := congrArg Thread.frames twins.thread
  have goes : (m.steps n).done = false := by
    rw [Machine.done, finished, twins.halted]
    exact on.goes
  have later := on.later goes twins (twins.current.trans on.runs.current)
    (twins.main.trans on.runs.main) room
  exact ⟨later, frames.symm ▸ twins, spawners, frames.symm ▸ same⟩

/-- One step that only the code sees. -/
theorem On.move (on : D.On d m) {v : World} (step : m.world.step = (v, .running))
    (twins : Twins D.task (D.guise k d) m.world v)
    (same : allAtoms m.world.thread.frames = allAtoms k) : D.Drifts d m (m.steps 1) := by
  have one : m.steps 1 = { m with world := v } := by
    rw [Machine.steps_of_step on.goes, Machine.step_of_running step]
    rfl
  refine on.drift (n := 1) ?_ ?_ ?_ same (Nat.le_succ d) <;> rw [one]
  exact twins

/-- A task that suspends itself is resumed at once. -/
theorem On.rounds {others h : List FiberId} {f : Fiber} (on : D.On d m) (manner : Manner)
    (p : Parking) (q : Pending) (sound : Stage.Sound others ⟨w, some D.task, .exec, h⟩)
    (found : w.thread.fiber? D.task = some f) (runs : D.Runs w.thread)
    (parked : w.mainFrames = .ok (D.code d)) (process : w.process = m.world.process)
    (step : ∀ v, w.suspend manner f p q = (v, .next) → m.world.step = (v, .running)) :
    m.steps 2 = { m with world :=
      ⟨m.world.process, (D.guise (.waiting q :: w.thread.frames) (d + 1)).thread w.thread⟩ } := by
  have mine := Thread.id_of_fiber? found
  have found' : w.thread.fiber? f.id = some f := mine.symm ▸ found
  have accepted : f.yieldRefusal? w.thread.currentId = none := by
    rw [World.yieldRefusal_eq sound found', if_pos (congrArg some mine.symm)]
  have room : d < D.max := by
    have := on.room
    have : 0 < m.world.thread.weight := Machine.thread_weight_pos _
    rw [Machine.weight] at *
    omega
  have quiet : Level.admits w.process.level .trace = false := process.symm ▸ on.quiet
  obtain ⟨v, suspended, same, back⟩ : ∃ v, w.suspend manner f p q = (v, .next) ∧ _ :=
    round sound runs found' accepted parked room quiet
  rw [process] at same back
  have going : Machine.done { m with world := v } = false := by
    refine Machine.goes_of_going on.goes ?_
    rw [same]
    exact Machine.halted_of_goes on.goes
  rw [Machine.steps_of_step on.goes, Machine.step_of_running (step v suspended),
    Machine.steps_of_step going, Machine.step_of_running back]
  rfl

/-- The task suspends itself for later. -/
theorem On.parks {p : Parking} {rest : List Op} (on : D.On d m)
    (frames : m.world.thread.frames = .ops (.park p :: rest) :: k) :
    D.Drifts (d + 1) m (m.steps 2) := by
  have body : Body (some D.task) k := on.body_of_inner frames rfl
  have base : (Frame.ops rest :: k).getLast? = m.world.thread.frames.getLast? := by
    rw [frames, body.getLast?_cons, body.getLast?_cons]
  obtain ⟨f, found, -, -⟩ := on.stage.1.thread.runner_runs
  have asked : (m.world.goOn (.ops rest :: k)).currentFiber =
      (m.world.goOn (.ops rest :: k), D.task) := by
    have current := on.runs.current
    simp [World.currentFiber, World.goOn, World.onThread, Thread.goOn, current]
  have two := on.rounds .trusted p (.park p) (World.sound_goOn on.stage.1 base) found
    ⟨on.runs.current, on.runs.main, on.runs.ne⟩ on.parked rfl fun v suspended => by
      have found : (m.world.goOn (.ops rest :: k)).thread.fiber? D.task = some f := found
      simp only [World.step, frames, World.perform, asked, found, suspended, World.settle]
  refine on.drift (n := 2) (k := .waiting (.park p) :: .ops rest :: k) ?_ ?_ ?_ ?_ (by omega)
  · rw [two]
    exact ⟨rfl, rfl, rfl⟩
  · rw [two]
  · rw [two]
  · rw [frames]
    rfl

/-- The task suspends itself by a reference to it. -/
theorem On.pauses {manner : Manner} {ref : FiberRef} {rest : List Op} (on : D.On d m)
    (frames : m.world.thread.frames = .ops (.pause manner ref :: rest) :: k)
    (fetched : ((m.world.goOn (.ops rest :: k)).fetch ref).2 = some D.task) :
    m.steps 2 = { m with world := ⟨m.world.process,
      (D.guise (.waiting (.pause manner D.task) :: .ops rest :: k) (d + 1)).thread
        (m.world.hold D.task).thread⟩ } := by
  have body : Body (some D.task) k := on.body_of_inner frames rfl
  have base : (Frame.ops rest :: k).getLast? = m.world.thread.frames.getLast? := by
    rw [frames, body.getLast?_cons, body.getLast?_cons]
  have runs : D.Runs (m.world.goOn (.ops rest :: k)).thread :=
    ⟨on.runs.current, on.runs.main, on.runs.ne⟩
  have asked : (m.world.goOn (.ops rest :: k)).fetch ref =
      (m.world.goOn (.ops rest :: k), some D.task) :=
    Prod.ext (runs.away.fetch ref) fetched
  have sound := World.sound_goOn on.stage.1 base
  obtain ⟨f₀, found₀, -, -⟩ := sound.thread.runner_runs
  have sound : Stage.Sound m.others ⟨(m.world.goOn (.ops rest :: k)).hold D.task, some D.task,
      .exec, D.task :: Frame.allHandles m.world.thread.frames⟩ :=
    (World.hold_stays found₀ : Stays (fun _ => True) _ _).sound sound
  obtain ⟨f, found, mine, -⟩ := sound.thread.runner_runs
  refine on.rounds (w := (m.world.goOn (.ops rest :: k)).hold D.task) manner .ready
    (.pause manner D.task) sound found ⟨runs.current, runs.main, runs.ne⟩ ?_ rfl
    fun v suspended => ?_
  · have kept := World.mainFrames_update (m.world.goOn (.ops rest :: k)) D.task
      (fun f => { f with handles := f.handles + 1 }) (fun _ => rfl) fun _ => rfl
    exact kept.trans on.parked
  · have suspended : ((m.world.goOn (.ops rest :: k)).hold D.task).suspend manner f .ready
        (.pause manner f.id) = (v, .next) := by
      rw [mine]
      exact suspended
    have found : ((m.world.goOn (.ops rest :: k)).hold D.task).thread.fiber? D.task = some f :=
      found
    simp only [World.step, frames, World.perform, World.onFiber, asked, found, suspended,
      World.letGo, World.settle]

/-- One step to other frames with the same atoms. -/
theorem On.slips {j : List Frame} (on : D.On d m)
    (step : m.world.step = (m.world.goOn j, .running))
    (same : allAtoms m.world.thread.frames = allAtoms j) : D.Drifts d m (m.steps 1) :=
  on.move step (Drive.goOn on.twins_self j) same

/-- A loop goes round for the first time, unless it has nothing to repeat. -/
theorem On.loops {times : Nat} {ops rest : List Op} (on : D.On d m)
    (frames : m.world.thread.frames = .ops (.loop times ops :: rest) :: k) :
    D.Drifts d m (m.steps 1) := by
  have performed : (m.world.goOn (.ops rest :: k)).perform (.loop times ops) =
      (m.world.goOn (if ops.isEmpty then .ops rest :: k
        else .loop times ops :: .ops rest :: k), .next) := by
    cases ops <;> rfl
  refine on.slips (j := if ops.isEmpty then .ops rest :: k else .loop times ops :: .ops rest :: k)
    (by simp only [World.step, frames, performed, World.settle]) ?_
  rw [frames]
  split
  · obtain rfl : ops = [] := by simpa using ‹ops.isEmpty = true›
    simp [Frame.atoms, Op.allAtoms, Op.atoms]
  · simp [Frame.atoms, Op.allAtoms, Op.atoms]

/-- The task comes back from a suspension for later: the entry that says so is not shown. -/
theorem On.unparks {p : Parking} (on : D.On d m)
    (frames : m.world.thread.frames = .waiting (.park p) :: k) : D.Drifts d m (m.steps 1) := by
  have step : m.world.step = (m.world.goOn k).conclude (Pending.park p).name .nothing := by
    simp only [World.step, frames, World.carryOn, World.answer, World.settle]
  have went : Twins D.task (D.guise k d) m.world (m.world.goOn k) := Drive.goOn on.twins_self k
  have same : allAtoms m.world.thread.frames = allAtoms k := by
    rw [frames]
    rfl
  have going : (m.world.goOn k).process.halted = false := Machine.halted_of_goes on.goes
  unfold World.conclude at step
  split at step
  · refine on.move step ⟨?_, ?_, ?_⟩ same
    · rw [World.emit_thread]
      exact went.thread
    · rw [World.emit_of_going going]
      rfl
    · have hidden : (Event.completed (Pending.park p).name .nothing).parks = true := by
        cases p <;> decide
      rw [World.emit_of_going going]
      exact shownBut_hidden _ (congrArg (Option.getD · 0) on.runs.current) hidden
  · exact on.slips step same

/-- Where the next step only begins or ends a loop, a block or a suspension, the
task goes on by itself. -/
theorem On.idle (on : D.On d m) {fr : Frame} (frames : m.world.thread.frames = fr :: k)
    (idle : fr.isIdle = true) : ∃ n d₂, D.Drifts d₂ m (m.steps (n + 1)) := by
  cases fr with
  | ops rest =>
    cases rest with
    | nil =>
      refine ⟨0, d, on.slips (j := k) (by simp only [World.step, frames]) ?_⟩
      rw [frames]
      rfl
    | cons op rest =>
      cases op with
      | park p => exact ⟨1, d + 1, on.parks frames⟩
      | loop times ops => exact ⟨0, d, on.loops frames⟩
      | _ => cases idle
  | loop times ops =>
    cases times with
    | zero =>
      refine ⟨0, d, on.slips (j := k) (by simp only [World.step, frames]) ?_⟩
      rw [frames]
      rfl
    | succ n =>
      refine ⟨0, d, on.slips (j := .ops ops :: .loop n ops :: k)
        (by simp only [World.step, frames]) ?_⟩
      rw [frames]
      simp [Frame.atoms, List.replicate_succ]
  | waiting p =>
    cases p with
    | park p => exact ⟨0, d, on.unparks frames⟩
    | _ => cases idle
  | _ => cases idle

end Drive

end FiberEngine
