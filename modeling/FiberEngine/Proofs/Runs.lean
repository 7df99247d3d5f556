/-
FiberEngine.Proofs.Runs — every state that a script can reach.

A machine is sound if the thread that runs is, with code that is ready to go on,
if the threads that wait for it are, and if the fibers that ended threads have
left behind only have handles to each other. `Machine.Advances` lists what a
step of a machine comes to, and `Advances.sound` says that the machine stays
sound unless the process ends. `Machine.steps_sound` says so of a whole run.

Scripts often begin with a task that is created and resumed: `first_task_enters`
says in which state the body of the task is entered.
-/
import FiberEngine.Proofs.Threads

namespace FiberEngine

/-! ## 1. Sound machines -/

namespace Machine

/-- The ids of all fibers that are not of the thread that runs. -/
def others (m : Machine) : List FiberId :=
  m.spawners.flatMap Thread.ids ++ m.world.process.leaked.map Fiber.id

/-- The ids of all fibers. -/
def ids (m : Machine) : List FiberId :=
  m.world.thread.ids ++ m.others

/-- A machine in which every thread is sound. -/
structure Sound (m : Machine) : Prop where
  running : ∃ r, Stage.Sound m.others (m.world.stage r) ∧
    (m.finished = false → m.world.thread.Ready r)
  waiting : ∀ t ∈ m.spawners, t.Waits
  forgotten : Forgotten m.world.process.leaked

/-- A process at its start is sound. -/
theorem start_sound (level : Option Level) (hook : ReportHook) (script : List Op) :
    (start level hook script).Sound where
  running := by
    exact ⟨none, .of_thread (Thread.start_sound ..) (List.Perm.refl ([] : List FiberId))
      List.nodup_nil (by simp) rfl Nat.zero_lt_one rfl, fun _ => .body (.ops script .script)⟩
  waiting := by simp [start]
  forgotten := .nil

end Machine

/-! ## 2. What a step of a machine comes to -/

namespace Machine

/-- What a step of the running thread makes of the machine. -/
def take (m : Machine) : World × World.Signal → Machine
  | (w, .running) => { m with world := w }
  | (w, .ended e) => { m with world := w }.finishThread e
  | (w, .started child) =>
    { m with world := ⟨w.process, child⟩, spawners := w.thread :: m.spawners }

theorem step_eq (m : Machine) : m.step = m.take m.world.step := by
  unfold step take
  rcases m.world.step with ⟨w, _ | _ | _⟩ <;> rfl

/-- What a step of a machine comes to, while the code of `r` runs. -/
inductive Advances (texts fatal : String → Prop) (ends : FiberState → Prop) (m : Machine)
    (r : Option FiberId) : Machine → Prop
  | on {w : World} {r' : Option FiberId} (leads : Leads texts (m.world.stage r) (w.stage r'))
    (ready : w.thread.Ready r') (continues : w.Continues ends r) :
    Advances texts fatal ends m r { m with world := w }
  | fallen {w : World} (falls : Falls texts fatal (m.world.stage r) w) :
    Advances texts fatal ends m r { m with world := w }
  /-- The script of the first thread has ended. -/
  | finished {w : World} {e : Ending} (leads : Leads texts (m.world.stage r) (w.stage none))
    (body : Body none w.thread.frames) (alone : m.spawners = []) :
    Advances texts fatal ends m r ({ m with world := w }.finishFirst e)
  /-- The thread has ended, and the one that started it goes on. -/
  | returned {w : World} {e : Ending} {parent : Thread} {rest : List Thread}
    (leads : Leads texts (m.world.stage r) (w.stage none))
    (body : Body none w.thread.frames) (waiting : m.spawners = parent :: rest) :
    Advances texts fatal ends m r
      { m with world := ⟨w.releaseSlots.retire.process, hear parent e⟩, spawners := rest }
  | started {w : World} {r' : Option FiberId} {kind : ThreadKind} {ops : List Op} {k : List Frame}
    (leads : Leads texts (m.world.stage r) (w.stage r')) (body : Body r' k)
    (frames : w.thread.frames = .waiting (.join kind none) :: k) :
    Advances texts fatal ends m r
      { m with world := ⟨w.process, World.child kind ops⟩, spawners := w.thread :: m.spawners }

variable {m v : Machine} {r : Option FiberId} {texts fatal : String → Prop}
variable {ends : FiberState → Prop}

theorem take_advances {x : World × World.Signal}
    (steps : World.Steps texts fatal ends (m.world.stage r) x) :
    m.Advances texts fatal ends r (m.take x) := by
  cases steps with
  | running comes =>
    cases comes with
    | on leads ready continues => exact .on leads ready continues
    | fallen falls => exact .fallen falls
  | ended leads body =>
    simp only [take, finishThread]
    split <;> rename_i waiting
    · exact .finished leads body waiting
    · exact .returned leads body waiting
  | started leads body frames => exact .started leads body frames

theorem step_advances (sound : Stage.Sound m.others (m.world.stage r))
    (ready : m.world.thread.Ready r) :
    m.Advances m.world.MayReport m.world.MayFail m.world.MayEnd r m.step := by
  rw [step_eq]
  exact take_advances (World.step_steps sound ready)

/-- The stage at which the slots of a thread that has ended are released. -/
theorem ended_stays {w : World} (body : Body none w.thread.frames) (texts : String → Prop) :
    Stays texts (w.stage none) ⟨w.releaseSlots, none, .exec, []⟩ := by
  rw [World.stage, body.script_handles]
  exact World.releaseSlots_stays

/-- At the end of the script of the first thread, its slots are released. -/
theorem finishFirst_stays (m : Machine) {w : World} (e : Ending)
    (body : Body none w.thread.frames) (texts : String → Prop) :
    Stays texts (w.stage none) ⟨({ m with world := w }.finishFirst e).world, none, .exec, []⟩ := by
  unfold finishFirst
  cases e with
  | completed =>
    exact (ended_stays body texts).trans (.emit _ trivial rfl)
  | panicked p =>
    have told : Stays texts (w.stage none) ((w.emit (.panicked p.text?)).stage none) := by
      have same := (w.emit_same (.panicked p.text?)).thread
      rw [World.stage, World.stage, same]
      exact .emit _ trivial rfl
    rw [← (w.emit_same (.panicked p.text?)).thread] at body
    exact (told.trans (ended_stays body texts)).trans (.emit _ trivial rfl)

/-! ## 3. Soundness -/

theorem hear_eq {t : Thread} {kind : ThreadKind} {o : Option Ending} {k : List Frame} (e : Ending)
    (frames : t.frames = .waiting (.join kind o) :: k) :
    hear t e = t.goOn (.waiting (.join kind (some e)) :: k) := by
  unfold hear
  rw [frames]

/-- A thread that waits is told how the other one ended, and goes on. -/
theorem hear_ready {t : Thread} (e : Ending) (waits : t.Waits) :
    ∃ r, (hear t e).Sound r .exec (Frame.allHandles (hear t e).frames) ∧ (hear t e).Ready r := by
  obtain ⟨r, kind, k, frames, body, sound⟩ := waits
  have heard := hear_eq e frames
  rw [frames] at sound
  rw [heard]
  exact ⟨r, sound.goOn (body.owner_cons _), .behind rfl body fun _ awaits => awaits.elim⟩

theorem hear_ids {t : Thread} (e : Ending) : (hear t e).ids = t.ids := by
  unfold hear
  split <;> rfl

/-- The fibers when the running thread goes on. -/
theorem ids_on {w : World} {done : Bool} (leaked : w.process.leaked = m.world.process.leaked) :
    ids ⟨w, m.spawners, done⟩ = w.thread.ids ++ m.others := by
  simp only [ids, others, leaked]

/-- The fibers when a thread has ended and left some of its own behind. -/
theorem ids_returned {p : Process} {e : Ending} {parent : Thread} {rest : List Thread}
    {gone : List Fiber} {done : Bool} (waiting : m.spawners = parent :: rest)
    (leaked : p.leaked = m.world.process.leaked ++ gone) :
    (ids ⟨⟨p, hear parent e⟩, rest, done⟩).Perm (gone.map Fiber.id ++ m.others) := by
  have shape : ids ⟨⟨p, hear parent e⟩, rest, done⟩ = m.others ++ gone.map Fiber.id := by
    simp [hear_ids, ids, others, leaked, waiting, List.append_assoc]
  exact shape ▸ List.perm_append_comm

/-- The fibers when a thread has been started. -/
theorem ids_started {w : World} {kind : ThreadKind} {ops : List Op} {done : Bool}
    (leaked : w.process.leaked = m.world.process.leaked) :
    ids ⟨⟨w.process, World.child kind ops⟩, w.thread :: m.spawners, done⟩ =
      w.thread.ids ++ m.others := by
  have none : (World.child kind ops).ids = [] := by cases kind <;> rfl
  simp [ids, others, leaked, none, List.append_assoc]

/-- Whatever a step comes to, the machine stays sound, or the process has ended. -/
theorem Advances.sound (advances : m.Advances texts fatal ends r v) (h : m.Sound)
    (sound : Stage.Sound m.others (m.world.stage r)) :
    v.Sound ∨ v.world.process.halted = true := by
  have leaked : ∀ {a : Stage}, Leads texts (m.world.stage r) a →
      a.world.process.leaked = m.world.process.leaked := fun leads => by
    obtain ⟨new, tells⟩ := leads.tells sound
    exact tells.leaked
  cases advances with
  | @on w r' leads ready continues =>
    have kept : w.process.leaked = _ := leaked leads
    refine .inl ⟨⟨r', ?_, fun _ => ready⟩, h.waiting, by rw [kept]; exact h.forgotten⟩
    simp only [others, kept]
    exact leads.sound sound
  | fallen falls =>
    cases falls with
    | contract leads cause => exact .inr rfl
    | fault leads ok panics past => exact .inr past.1
  | @finished w e leads body alone =>
    have stays : Stays texts _ _ := finishFirst_stays m e body _
    have whole := leads.trans stays.leads
    have kept : ({ m with world := w }.finishFirst e).world.process.leaked = _ := leaked whole
    refine .inl ⟨⟨none, ?_, fun unfinished => absurd unfinished Bool.noConfusion⟩, h.waiting,
      by rw [kept]; exact h.forgotten⟩
    have frames : ({ m with world := w }.finishFirst e).world.thread.frames = w.thread.frames :=
      stays.frames
    have handles : Frame.allHandles ({ m with world := w }.finishFirst e).world.thread.frames =
        [] := by rw [frames, body.script_handles]
    have here : ({ m with world := w }.finishFirst e).others = m.others := by
      simp only [others, kept]
      rfl
    rw [here, World.stage, handles]
    exact whole.sound sound
  | @returned w e parent rest leads body waiting =>
    have stays : Stays texts _ _ := ended_stays body _
    have whole := leads.trans stays.leads
    have ended := whole.sound sound
    have kept : w.releaseSlots.process.leaked = m.world.process.leaked := leaked whole
    obtain ⟨gone, new, retires⟩ := World.retire_retires ended (World.releaseSlots_slots w)
    obtain ⟨r', heard, ready⟩ := hear_ready e (h.waiting parent (by simp [waiting]))
    have leaked : w.releaseSlots.retire.process.leaked = m.world.process.leaked ++ gone := by
      rw [retires.leaked, kept]
    have fewer := (retires.leaves.append_right m.others).rest w.releaseSlots.parting_births
    refine .inl ⟨⟨r', .of_thread heard (ids_returned waiting leaked) (fewer.1 ended.distinct)
      ?_ retires.live ?_ ?_, fun _ => ready⟩,
      fun t mem => h.waiting t (by simp [waiting, mem]), ?_⟩
    · intro id mem
      rw [retires.nextId]
      exact ended.numbered id (fewer.2 mem)
    · rw [retires.nextId]
      exact ended.first
    · rw [retires.halted]
      exact ended.going
    · rw [leaked]
      exact h.forgotten.append retires.forgotten
  | @started w r' kind ops k leads body frames =>
    have kept : w.process.leaked = m.world.process.leaked := leaked leads
    have after := leads.sound sound
    have child : (World.child kind ops).Sound none .exec [] ∧
        (World.child kind ops).frames = [.ops ops, .script] := by
      cases kind <;> exact ⟨Thread.start_sound .., rfl⟩
    refine .inl ⟨⟨none, ?_, fun _ => .body ?_⟩, ?_, by rw [kept]; exact h.forgotten⟩
    · have handles : Frame.allHandles (World.child kind ops).frames = [] := by
        rw [child.2]
        rfl
      rw [World.stage, handles]
      exact .of_thread child.1 (.of_eq (ids_started kept)) after.distinct after.numbered
        after.live after.first after.going
    · rw [child.2]
      exact .ops ops .script
    · intro t mem
      rcases List.mem_cons.mp mem with rfl | mem
      · exact ⟨r', kind, k, frames, body, after.thread⟩
      · exact h.waiting t mem

/-- A step ends the process only where it falls. -/
theorem Advances.falls (advances : m.Advances texts fatal ends r v)
    (sound : Stage.Sound m.others (m.world.stage r)) (halted : v.world.process.halted = true) :
    Falls texts fatal (m.world.stage r) v.world := by
  have going : ∀ {a : Stage}, Leads texts (m.world.stage r) a → a.world.process.halted = false :=
    fun leads => (leads.sound sound).going
  cases advances with
  | on leads ready continues => cases (going leads).symm.trans halted
  | fallen falls => exact falls
  | @finished w e leads body alone =>
    have stays : Stays texts _ _ := finishFirst_stays m e body _
    cases (going (leads.trans stays.leads)).symm.trans halted
  | @returned w e parent rest leads body waiting =>
    have stays : Stays texts _ _ := ended_stays body _
    have whole := leads.trans stays.leads
    obtain ⟨gone, new, retires⟩ :=
      World.retire_retires (whole.sound sound) (World.releaseSlots_slots w)
    cases (retires.halted.trans (going whole)).symm.trans halted
  | started leads body frames => cases (going leads).symm.trans halted

end Machine

/-! ## 4. Whole runs -/

namespace Machine

variable {m : Machine}

/-- One more step, at the end. -/
theorem steps_succ (n : Nat) (m : Machine) :
    steps (n + 1) m = if (steps n m).done then steps n m else (steps n m).step := by
  induction n generalizing m with
  | zero => rfl
  | succ n ih =>
    rw [steps]
    split
    · rename_i done
      rw [steps, if_pos done, if_pos done]
    · rename_i goes
      rw [ih, steps, if_neg goes]

theorem steps_succ_of_done {n : Nat} (done : (m.steps n).done = true) :
    m.steps (n + 1) = m.steps n := by
  rw [steps_succ, if_pos done]

theorem steps_succ_of_goes {n : Nat} (goes : (m.steps n).done = false) :
    m.steps (n + 1) = (m.steps n).step := by
  rw [steps_succ, goes]
  rfl

theorem step_of_running {w : World} (step : m.world.step = (w, .running)) :
    m.step = { m with world := w } := by
  simp only [Machine.step, step]

/-- The first thread makes a step while no other one has been started. -/
theorem steps_of_running {w x : World} {n : Nat} (here : m.steps n = ⟨w, [], false⟩)
    (going : w.process.halted = false) (step : w.step = (x, .running)) :
    m.steps (n + 1) = ⟨x, [], false⟩ := by
  rw [steps_succ_of_goes (by rw [here, done, going]; rfl), here]
  exact step_of_running step

/-- So many steps and then some more. -/
theorem steps_add (n k : Nat) (m : Machine) : m.steps (n + k) = (m.steps n).steps k := by
  induction k with
  | zero => rfl
  | succ k ih => rw [← Nat.add_assoc, steps_succ, steps_succ, ih]

theorem finished_of_goes (goes : m.done = false) : m.finished = false :=
  (Bool.or_eq_false_iff.mp goes).1

theorem halted_of_goes (goes : m.done = false) : m.world.process.halted = false :=
  (Bool.or_eq_false_iff.mp goes).2

/-- Which task runs can be read off the code of the running thread. -/
theorem Sound.stage_of_task {r : Option FiberId} (sound : m.Sound)
    (task : m.world.thread.task? = r) :
    Stage.Sound m.others (m.world.stage r) ∧ (m.finished = false → m.world.thread.Ready r) := by
  obtain ⟨r', here, ready⟩ := sound.running
  obtain rfl : r' = r := here.thread.task.symm.trans task
  exact ⟨here, ready⟩

/-- A machine that is not done makes its next step from a sound state. -/
theorem Sound.advances (sound : m.Sound) (goes : m.done = false) :
    ∃ r, Stage.Sound m.others (m.world.stage r) ∧
      m.Advances m.world.MayReport m.world.MayFail m.world.MayEnd r m.step := by
  obtain ⟨r, here, ready⟩ := sound.running
  exact ⟨r, here, step_advances here (ready (finished_of_goes goes))⟩

/-- A step that does not end the process keeps a machine sound. -/
theorem Sound.step (sound : m.Sound) (goes : m.done = false)
    (on : m.step.world.process.halted = false) : m.step.Sound := by
  obtain ⟨r, here, advances⟩ := sound.advances goes
  exact (advances.sound sound here).resolve_right (by simp [on])

theorem goes_of_going {w : World} (goes : m.done = false) (going : w.process.halted = false) :
    done { m with world := w } = false := by
  simp only [done, finished_of_goes goes, going, Bool.or_self]

/-- A step of the running thread that does not end the process. -/
theorem Sound.on {w : World} (sound : m.Sound) (goes : m.done = false)
    (step : m.world.step = (w, .running)) (going : w.process.halted = false) :
    Sound { m with world := w } := by
  have same := step_of_running step
  exact same ▸ sound.step goes (by rw [same]; exact going)

theorem steps_of_step (goes : m.done = false) (n : Nat) : m.steps (n + 1) = m.step.steps n := by
  rw [steps, if_neg (by simp [goes])]

/-- A sound machine stays sound, until the process ends. -/
theorem Sound.steps (sound : m.Sound) (n : Nat) :
    (m.steps n).Sound ∨ (m.steps n).world.process.halted = true := by
  induction n with
  | zero => exact .inl sound
  | succ n ih =>
    cases goes : (m.steps n).done with
    | true =>
      rw [steps_succ_of_done goes]
      exact ih
    | false =>
      have before := ih.resolve_right (by simp [halted_of_goes goes])
      obtain ⟨r, here, advances⟩ := before.advances goes
      rw [steps_succ_of_goes goes]
      exact advances.sound before here

/-- Every state of a run is sound, until the process ends. -/
theorem steps_sound (level : Option Level) (hook : ReportHook) (script : List Op) (n : Nat) :
    ((start level hook script).steps n).Sound ∨
      ((start level hook script).steps n).world.process.halted = true :=
  (start_sound level hook script).steps n

section

variable {level : Option Level} {hook : ReportHook} {script : List Op} {n : Nat}

/-- As long as the process lasts, a run is in a sound state. -/
theorem sound_of_lasts (lasts : ((start level hook script).steps n).world.process.halted = false) :
    ((start level hook script).steps n).Sound :=
  (steps_sound level hook script n).resolve_right (by simp [lasts])

/-- A run that goes on is in a sound state. -/
theorem sound_of_goes (goes : ((start level hook script).steps n).done = false) :
    ((start level hook script).steps n).Sound :=
  sound_of_lasts (halted_of_goes goes)

end

end Machine

/-! ## 5. The first task of a script -/

/-- The script of the first thread has created a task. -/
def World.firstCreated (hook : ReportHook) (body rest : List Op) (trace : Array Entry) : World where
  process := { Process.start none hook with nextId := 2, live := 1, trace }
  thread := { Thread.start none (some Machine.firstThread) none rest with
    slots := [(.named "f", 1)]
    fibers := [.task 1 ⟨⟨0, minStackSize⟩, .heap⟩ ⟨body, none, []⟩]
    nextBase := 1 }

/-- The main fiber, which is the second fiber of the process, has resumed the task, and this
enters its body. -/
def World.firstEntered (hook : ReportHook) (body rest : List Op) (trace : Array Entry) : World where
  process := { Process.start none hook with nextId := 3, live := 2, trace }
  thread := { Thread.start none (some Machine.firstThread) none [] with
    slots := [(.named "f", 1)]
    current := some 1
    main := some 2
    fibers := [⟨1, some ⟨⟨0, minStackSize⟩, .heap⟩, .exec, none, none, 3⟩,
      ⟨2, none, .hold, some (.suspended [.waiting (.resume .trusted 1), .ops rest, .script]), none,
        1⟩]
    nextBase := 1
    frames := [.ops body, .task 1 none []] }

namespace Machine

/-- So it is behind the first step of a script that begins with the creation of a task. -/
theorem first_task_created {script body rest : List Op} (hook : ReportHook)
    (begins : script = .create (.named "f") minStackSize .heap body none [] :: rest) :
    ∃ trace, (start none hook script).steps 1 = ⟨.firstCreated hook body rest trace, [], false⟩ := by
  have created : World.create ((start none hook script).world.goOn [.ops rest, .script]) (.named "f")
      minStackSize .heap ⟨body, none, []⟩ = _ := World.create_eq 1 rfl rfl
  have first : (start none hook script).steps 1 = take (start none hook script)
      (World.settle "new" (World.create ((start none hook script).world.goOn [.ops rest, .script])
        (.named "f") minStackSize .heap ⟨body, none, []⟩)) := by
    subst begins
    rfl
  rw [created] at first
  exact ⟨_, first.trans rfl⟩

/-- If the script goes on with a resume, the task enters its body with the second step. -/
theorem first_task_enters {script body rest : List Op} (hook : ReportHook)
    (begins : script = .create (.named "f") minStackSize .heap body none [] ::
      .resume .trusted (.slot (.named "f")) :: rest) :
    ∃ trace, (start none hook script).steps 2 = ⟨.firstEntered hook body rest trace, [], false⟩ := by
  obtain ⟨trace, first⟩ := first_task_created hook begins
  have second : (start none hook script).steps 2 = _ := steps_succ_of_goes (by rw [first]; rfl)
  rw [first] at second
  exact ⟨_, second.trans rfl⟩

end Machine

end FiberEngine
