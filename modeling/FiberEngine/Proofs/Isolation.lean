/-
FiberEngine.Proofs.Isolation — a thread depends on nothing of the one that starts it.

In two runs a thread with the same script is started, by threads that may differ in
all they have: in their fibers and slots, in their names, in what is current, in the
threads that wait for them in turn. The processes agree but for what has been written
and what ended threads have left behind. Then the two runs make the same steps until
the thread has ended.

They are the steps that the thread makes `alone`, with nothing around it. `within` puts
the threads that wait around a machine and the past before it, and `steps_within` says
that this makes no difference up to the step in which the thread ends.

The main statement is `threads_isolated`.
-/
import FiberEngine.Proofs.Acceptance
import FiberEngine.Proofs.Hindsight
import FiberEngine.Proofs.Offspring

namespace FiberEngine

/-! ## 1. What all threads share -/

/-- The process without what has been written, and without what ended threads have left
behind. -/
def Process.shared (p : Process) : Process :=
  { p with trace := #[], leaked := [] }

/-- What `shared` leaves out. -/
def Process.past (p : Process) : Past :=
  ⟨p.trace, p.leaked⟩

theorem Process.before_shared (p : Process) (t : Thread) : p.past.before ⟨p.shared, t⟩ = ⟨p, t⟩ := by
  simp [Past.before, past, shared]

namespace World

variable (past : Past) (p : Process) (t t' : Thread) (kind : ThreadKind) (e : Ending)

theorem joined_past : joined (past.before ⟨p, t⟩).process t kind e =
    past.before (joined p t kind e) := by
  have noted : noteWorker ⟨(past.before ⟨p, t⟩).process, t⟩ kind e =
      past.before (noteWorker ⟨p, t⟩ kind e) := noteWorker_past past ⟨p, t⟩ kind e
  unfold joined
  rw [noted, past.program, past.live]
  split
  · rfl
  · exact emit_past ..

/-- What is shared does not depend on who has waited. -/
theorem joined_shared : (joined p t kind e).process.shared = (joined p t' kind e).process.shared := by
  rw [joined_process, joined_process p t']
  cases e <;> rfl

end World

namespace Machine

variable {m a : Machine} {t : Thread} {rest outer : List Thread} {past : Past}

/-! ## 2. Threads within threads -/

/-- The threads of a machine, with further ones that wait for them, behind a past. -/
def within (m : Machine) (past : Past) (outer : List Thread) : Machine :=
  ⟨past.before m.world, m.spawners ++ outer, m.finished⟩

/-- With the next step, the script of the outermost thread ends. -/
def Closes (m : Machine) (u : World) (e : Ending) : Prop :=
  m.spawners = [] ∧ m.world.step = (u, .ended e)

theorem done_within : (m.within past outer).done = m.done := rfl

theorem step_within (opens : ∀ u e, ¬ m.Closes u e) :
    (m.within past outer).step = m.step.within past outer := by
  have stepped : (m.within past outer).world.step = past.under m.world.step :=
    World.step_past past m.world
  rw [step_eq, step_eq, stepped]
  rcases same : m.world.step with ⟨u, _ | e | child⟩
  · rfl
  · cases waiting : m.spawners with
    | nil => exact absurd ⟨waiting, same⟩ (opens u e)
    | cons parent inner =>
      simp only [take, Past.under_mk, finishThread, within, waiting, List.cons_append,
        World.releaseSlots_past, World.retire_past]
      rfl
  · rfl

/-- The outermost thread has ended, and the one that waits for it is told. -/
theorem Closes.step_within {u : World} {e : Ending} (closes : m.Closes u e) :
    (m.within past (t :: rest)).step =
      ⟨⟨(past.before u.releaseSlots.retire).process, hear t e⟩, rest, m.finished⟩ := by
  obtain ⟨waiting, ended⟩ := closes
  have stepped : (m.within past (t :: rest)).world.step = past.under m.world.step :=
    World.step_past past m.world
  rw [step_eq, stepped, ended]
  simp only [take, Past.under_mk, finishThread, within, waiting, List.nil_append,
    World.releaseSlots_past, World.retire_past]

theorem steps_within {k : Nat} (opens : ∀ j < k, ∀ u e, ¬ (m.steps j).Closes u e) :
    (m.within past outer).steps k = (m.steps k).within past outer := by
  induction k with
  | zero => rfl
  | succ k ih =>
    have ih := ih fun j less => opens j (Nat.lt_succ_of_lt less)
    cases goes : (m.steps k).done with
    | true =>
      rw [steps_succ_of_done goes, steps_succ_of_done (by rw [ih]; exact goes), ih]
    | false =>
      rw [steps_succ_of_goes goes, steps_succ_of_goes (by rw [ih]; exact goes), ih]
      exact step_within (opens k (Nat.lt_succ_self k))

/-- Up to there, it is not the script of the whole machine that has ended. -/
theorem steps_unfinished {k : Nat} (unfinished : m.finished = false)
    (opens : ∀ j < k, ∀ u e, ¬ (m.steps j).Closes u e) : (m.steps k).finished = false := by
  induction k with
  | zero => exact unfinished
  | succ k ih =>
    have ih := ih fun j less => opens j (Nat.lt_succ_of_lt less)
    cases goes : (m.steps k).done with
    | true => rwa [steps_succ_of_done goes]
    | false =>
      rw [steps_succ_of_goes goes, step_eq]
      rcases same : (m.steps k).world.step with ⟨u, _ | e | child⟩
      · exact ih
      · cases waiting : (m.steps k).spawners with
        | nil => exact absurd ⟨waiting, same⟩ (opens k (Nat.lt_succ_self k) u e)
        | cons parent inner =>
          simp only [take, finishThread, waiting]
          exact ih
      · exact ih

/-- What ends within another thread ends. -/
theorem Ended.closes {p : Process} {u : World} {e : Ending} {nested own : List Fiber}
    (ended : Ended t rest p (m.within past (t :: rest)) e u nested own) :
    ∃ u, m.Closes u e := by
  have waiting : m.spawners = [] := List.append_left_eq_self.mp ended.waiting
  have last : past.under m.world.step = (u, .ended e) :=
    (World.step_past past m.world).symm.trans ended.last
  exact ⟨m.world.step.1, waiting, congrArg (Prod.mk m.world.step.1) (congrArg Prod.snd last)⟩

/-- Within so many steps a script does not end, or there is a first time that it does. -/
theorem opens_or_closes (a : Machine) (n : Nat) :
    (∀ j < n, ∀ u e, ¬ (a.steps j).Closes u e) ∨
      ∃ k < n, (∀ j < k, ∀ u e, ¬ (a.steps j).Closes u e) ∧ ∃ u e, (a.steps k).Closes u e := by
  induction n with
  | zero => exact .inl fun j less => absurd less (Nat.not_lt_zero j)
  | succ n ih =>
    rcases ih with opens | ⟨k, less, first⟩
    · by_cases closes : ∃ u e, (a.steps n).Closes u e
      · exact .inr ⟨n, Nat.lt_succ_self n, opens, closes⟩
      · refine .inl fun j less u e now => ?_
        rcases Nat.lt_succ_iff_lt_or_eq.mp less with before | rfl
        · exact opens j before u e now
        · exact closes ⟨u, e, now⟩
    · exact .inr ⟨k, Nat.lt_succ_of_lt less, first⟩

/-- A thread that runs on behalf of another one comes to its end, or the process does. -/
theorem Below.closes {p : Process} (below : Below t rest p (a.within past (t :: rest)))
    (sound : (a.within past (t :: rest)).Sound) :
    ∃ k, (∀ j < k, ∀ u e, ¬ (a.steps j).Closes u e) ∧
      ((a.steps k).world.process.halted = true ∨
        (a.steps k).done = false ∧ ∃ u e, (a.steps k).Closes u e) := by
  suffices first : ∃ k, (∀ j < k, ∀ u e, ¬ (a.steps j).Closes u e) ∧
      ((a.steps k).world.process.halted = true ∨ ∃ u e, (a.steps k).Closes u e) by
    obtain ⟨k, opens, ends⟩ := first
    cases halted : (a.steps k).world.process.halted with
    | true => exact ⟨k, opens, .inl halted⟩
    | false =>
      have unfinished : a.finished = false := below.unfinished
      exact ⟨k, opens, .inr ⟨by rw [done, steps_unfinished unfinished opens, halted, Bool.or_self],
        ends.resolve_left (by simp [halted])⟩⟩
  -- within the other threads it comes to an end, and up to there it makes the same steps
  obtain ⟨n, comes⟩ := below.returns sound
  rcases opens_or_closes a n with opens | ⟨k, -, opens, closes⟩
  · rw [steps_within opens] at comes
    rcases comes with ⟨halted, -⟩ | ⟨_, e, _, _, _, ended, -⟩
    · exact ⟨n, opens, .inl halted⟩
    · obtain ⟨u, closes⟩ := ended.closes
      exact ⟨n, opens, .inr ⟨u, e, closes⟩⟩
  · exact ⟨k, opens, .inr closes⟩

/-- The end of a thread does not end the process. -/
theorem Sound.retires {u : World} {e : Ending} (sound : m.Sound) (goes : m.done = false)
    (ended : m.world.step = (u, .ended e)) : u.releaseSlots.retire.process.halted = false := by
  obtain ⟨r, here, ready⟩ := sound.running
  have steps := World.step_steps here (ready (finished_of_goes goes))
  rw [ended] at steps
  cases steps with
  | ended leads body =>
    obtain ⟨own, -, -, going, -⟩ := World.leaves_behind (leads.sound here) body
    exact going

/-! ## 3. A thread alone -/

/-- A thread with nothing around it, in the process as it finds it. -/
def alone (p : Process) (kind : ThreadKind) (body : List Op) : Machine :=
  ⟨⟨p.shared, World.child kind body⟩, [], false⟩

/-- So many steps of the thread that a machine has started are those that it makes alone: the
same thread runs with the same fibers, and the same is written behind what was there before.
The calls that the thread can make are judged by its own fibers. -/
structure Hosts (m : Machine) (t : Thread) (a : Machine) (k : Nat) : Prop where
  runs : ∀ j ≤ k, m.step.steps j =
    (a.steps j).within m.step.world.process.past (t :: m.spawners)
  judges : ∀ j ≤ k, (a.steps j).done = false → ∀ f ∈ (a.steps j).world.thread.fibers,
    (m.step.steps j).world.Judges f

/-- The operation that has started a thread is complete. The thread has left the process as
`q`, with what has been written in it and what is left of it; `s` is what all threads share. -/
structure Completes (m v : Machine) (w : World) (kind : ThreadKind) (e : Ending) (q s : Process) :
    Prop where
  thread : v.world.thread = w.thread
  spawners : v.spawners = m.spawners
  shared : v.world.process.shared = s
  leaked : v.world.process.leaked = m.world.process.leaked ++ q.leaked
  trace : v.world.process.trace.toList = m.step.world.process.trace.toList ++ q.trace.toList ++
    if q.program.isSome then [] else
      [⟨w.thread, .completed (Op.thread kind []).name (.joined kind.name? e.panic? q.live)⟩]

/-- The step that starts a thread puts it within the thread that starts it. -/
theorem started_within {kind : ThreadKind} {body : List Op} {w : World}
    (unfinished : m.finished = false) (starts : m.world.Starts (.thread kind body) w)
    (name : kind.name?.bind World.nameFault? = none) :
    m.step = (alone m.world.process kind body).within m.step.world.process.past
      (w.thread.push (.waiting (.join kind none)) :: m.spawners) := by
  obtain ⟨trace, started⟩ := step_started starts name
  have behind := Process.before_shared { m.world.process with trace := trace }
    (World.child kind body)
  rw [started, unfinished]
  exact congrArg (Machine.mk · _ _) behind.symm

/-- A thread does what it does alone, whoever waits for it. -/
theorem hosts_alone {kind : ThreadKind} {body : List Op} {w : World} {k : Nat} (sound : m.Sound)
    (goes : m.done = false) (starts : m.world.Starts (.thread kind body) w)
    (name : kind.name?.bind World.nameFault? = none)
    (opens : ∀ j < k, ∀ u e, ¬ ((alone m.world.process kind body).steps j).Closes u e) :
    Hosts m (w.thread.push (.waiting (.join kind none)))
      (alone m.world.process kind body) k := by
  have begun := sound.step goes (Below.begin goes starts name).2
  have runs : ∀ j ≤ k, m.step.steps j = ((alone m.world.process kind body).steps j).within
      m.step.world.process.past (w.thread.push (.waiting (.join kind none)) :: m.spawners) :=
    fun j le => (congrArg (·.steps j) (started_within (finished_of_goes goes) starts name)).trans
      (steps_within fun i less => opens i (Nat.lt_of_lt_of_le less le))
  refine ⟨runs, fun j le going f there => ?_⟩
  have going : (m.step.steps j).done = false := by rw [runs j le, done_within, going]
  have sound := (begun.steps j).resolve_right (by simp [halted_of_goes going])
  obtain ⟨r, here, -⟩ := sound.running
  have there : f ∈ (m.step.steps j).world.thread.fibers := by rw [runs j le]; exact there
  exact World.judges_of_sound here (Thread.fiber?_of_mem here.thread.distinct there)

/-- The operation that has started a thread is answered behind the end of this thread. -/
theorem Closes.joins {kind : ThreadKind} {u : World} {e : Ending} (closes : a.Closes u e)
    (sound : (a.within past (t.push (.waiting (.join kind none)) :: rest)).Sound)
    (goes : a.done = false) :
    (a.within past (t.push (.waiting (.join kind none)) :: rest)).steps 2 =
        ⟨past.before (World.joined u.releaseSlots.retire.process t kind e), rest, a.finished⟩ ∧
      u.releaseSlots.retire.process.halted = false := by
  have ended : (a.within past (t.push (.waiting (.join kind none)) :: rest)).world.step =
      (past.before u, .ended e) := (World.step_past past a.world).trans (congrArg _ closes.2)
  have on : (a.within past (t.push (.waiting (.join kind none)) :: rest)).done = false := goes
  have lasts := sound.retires on ended
  rw [World.releaseSlots_past, World.retire_past] at lasts
  have back : (a.within past (t.push (.waiting (.join kind none)) :: rest)).step = _ :=
    closes.step_within
  have still : (a.within past (t.push (.waiting (.join kind none)) :: rest)).step.done = false := by
    rw [back, done, finished_of_goes goes, Bool.false_or]
    exact lasts
  refine ⟨?_, lasts⟩
  rw [steps_of_step on, steps_of_step still, steps, back]
  exact (step_of_running (World.join_answers ..)).trans
    (congrArg (Machine.mk · _ _) (World.joined_past past _ t kind e))

/-- The thread that has waited goes on. -/
theorem Hosts.completes {kind : ThreadKind} {body : List Op} {w u : World} {e : Ending} {k : Nat}
    (hosts : Hosts m (w.thread.push (.waiting (.join kind none))) a k) (sound : m.Sound)
    (goes : m.done = false) (starts : m.world.Starts (.thread kind body) w)
    (name : kind.name?.bind World.nameFault? = none) (on : (a.steps k).done = false)
    (closes : (a.steps k).Closes u e) :
    Completes m (m.steps (k + 3)) w kind e u.releaseSlots.retire.process
      (World.joined u.releaseSlots.retire.process w.thread kind e).process.shared := by
  have begun := sound.step goes (Below.begin goes starts name).2
  have runs := hosts.runs k (Nat.le_refl k)
  have going : (m.step.steps k).done = false := by rw [runs, done_within, on]
  have there := (begun.steps k).resolve_right (by simp [halted_of_goes going])
  rw [runs] at there
  obtain ⟨joins, lasts⟩ := closes.joins there on
  -- one step starts the thread, and behind its own steps are the last one and the answer
  have far : m.steps (k + 3) = (m.step.steps k).steps 2 := by rw [steps_of_step goes, steps_add]
  have left : m.step.world.process.leaked = m.world.process.leaked := by
    obtain ⟨trace, started⟩ := step_started starts name
    rw [started]
  rw [far, runs, joins]
  refine ⟨World.joined_thread .., rfl, rfl, ?_, ?_⟩
  · change m.step.world.process.leaked ++ (World.joined _ w.thread kind e).process.leaked = _
    rw [World.joined_process, left]
  · change (m.step.world.process.trace ++ (World.joined _ w.thread kind e).process.trace).toList = _
    rw [Array.toList_append, World.joined_trace _ w.thread kind e lasts, List.append_assoc]

/-- A machine that a run comes to. -/
def Reached (m : Machine) : Prop :=
  ∃ level hook script n, m = (start level hook script).steps n

/-- In two states of two runs, a thread of one kind with one script is about to be started, by
threads that may differ in everything: in their fibers, slots and names, in what is current,
and in the threads that wait for them. Only what all threads share is the same: the next id
and the number of fibers, the tunables, the hook, how the default stack size is found, the
level of the log and the demonstration that goes on. Then the thread does the same in both:
each of its steps is one that it makes alone, it writes the same, and every call that it makes
is judged by its own fibers, whether it was started from a main fiber or from a running task.
Both threads that wait get the same answer, and what all threads share is the same again,
unless the process comes to its end in both at once. -/
theorem threads_isolated {m m' : Machine} (reached : m.Reached) (reached' : m'.Reached)
    {kind : ThreadKind} {body : List Op} {w w' : World} (goes : m.done = false)
    (goes' : m'.done = false) (starts : m.world.Starts (.thread kind body) w)
    (starts' : m'.world.Starts (.thread kind body) w')
    (name : kind.name?.bind World.nameFault? = none)
    (agree : m'.world.process.shared = m.world.process.shared) :
    ∃ k, Hosts m (w.thread.push (.waiting (.join kind none))) (alone m.world.process kind body) k ∧
      Hosts m' (w'.thread.push (.waiting (.join kind none))) (alone m.world.process kind body) k ∧
      (((alone m.world.process kind body).steps k).world.process.halted = true ∨
        ∃ e q s, Completes m (m.steps (k + 3)) w kind e q s ∧
          Completes m' (m'.steps (k + 3)) w' kind e q s) := by
  obtain ⟨level, hook, script, n, rfl⟩ := reached
  obtain ⟨level', hook', script', n', rfl⟩ := reached'
  have sound := sound_of_goes goes
  have sound' := sound_of_goes goes'
  generalize (start level hook script).steps n = m at *
  generalize (start level' hook' script').steps n' = m' at *
  have same : alone m'.world.process kind body = alone m.world.process kind body := by
    rw [alone, agree, alone]
  obtain ⟨below, going⟩ := Below.begin goes starts name
  have begun := sound.step goes going
  rw [started_within (finished_of_goes goes) starts name] at below begun
  obtain ⟨k, opens, ends⟩ := below.closes begun
  have hosts := hosts_alone sound goes starts name opens
  have hosts' := hosts_alone (k := k) sound' goes' starts' name (by rw [same]; exact opens)
  rw [same] at hosts'
  refine ⟨k, hosts, hosts', ends.imp id ?_⟩
  rintro ⟨on, u, e, closes⟩
  have completes' := hosts'.completes sound' goes' starts' name on closes
  rw [World.joined_shared _ w'.thread w.thread] at completes'
  exact ⟨e, _, _, hosts.completes sound goes starts name on closes, completes'⟩

/-- A script that resumes a fiber of its own. -/
def resuming : List Op :=
  [.create (.named "g") minStackSize .heap [] none [], .resume .trusted (.slot (.named "g"))]

/-- A thread with this script is started by a task that runs, -/
def fromTask : List Op :=
  [.create (.named "f") minStackSize .heap [.thread (.engine "t") resuming] none [],
    .resume .trusted (.slot (.named "f"))]

/-- and by a main fiber, with a task that has not begun. -/
def fromMain : List Op :=
  [.create (.named "f") minStackSize .heap [] none [.current], .thread (.engine "t") resuming]

theorem fromMain_starts : ∃ w, (start none .sink fromMain).steps 1 = ⟨w, [], false⟩ ∧
    w.process.halted = false ∧
    w.process = { Process.start none .sink with nextId := 3, live := 2, trace := w.process.trace } ∧
    w.thread.frames = [.ops [.thread (.engine "t") resuming], .script] := by
  have created : World.create (((start none .sink fromMain).world.goOn
      [.ops (fromMain.drop 1), .script]).holdAll [.current]).1 (.named "f") minStackSize .heap
        ⟨[], none, [1]⟩ = _ := World.create_eq 2 rfl rfl
  have first : (start none .sink fromMain).steps 1 = take _ (World.settle _ _) :=
    congrArg (fun x => take (start none .sink fromMain) (World.settle "new" x)) created
  rw [first]
  exact ⟨_, rfl, rfl, rfl, rfl⟩

/-- While a task waits for the thread that it has started, a task of this thread runs. -/
theorem fromTask_resumes : ((start none .sink fromTask).steps 5).world.thread.task? = some 3 := by
  obtain ⟨written, second⟩ := first_task_enters .sink (rfl : fromTask = _)
  have starts : ((start none .sink fromTask).steps 2).world.Starts
      (.thread (.engine "t") resuming) _ :=
    ⟨[], [.task 1 none []], by rw [second]; rfl, rfl⟩
  obtain ⟨trace, started⟩ := step_started starts (by decide +kernel)
  have third : (start none .sink fromTask).steps 3 = _ :=
    (steps_succ_of_goes (by rw [second]; rfl)).trans started
  rw [second] at third
  have created : World.create (World.goOn ⟨{ Process.start none .sink with
      nextId := 3, live := 2, trace := trace }, World.child (.engine "t") resuming⟩
        [.ops (resuming.drop 1), .script]) (.named "g") minStackSize .heap ⟨[], none, []⟩ = _ :=
    World.create_eq 3 rfl rfl
  have stepped : ((start none .sink fromTask).steps 3).world.step = World.settle "new" _ :=
    (congrArg (fun v => v.world.step) third).trans (congrArg (World.settle "new") created)
  have fourth : (start none .sink fromTask).steps 4 = take ((start none .sink fromTask).steps 3) _ :=
    ((steps_succ_of_goes (by rw [third]; rfl)).trans (step_eq _)).trans (congrArg _ stepped)
  rw [steps_succ_of_goes (by rw [fourth, third]; rfl), fourth, third]
  rfl

/-- The task and the main fiber start threads that do the same. -/
theorem resuming_isolated : ∃ w w' k,
    ((start none .sink fromTask).steps 2).world.Starts (.thread (.engine "t") resuming) w ∧
    ((start none .sink fromMain).steps 1).world.Starts (.thread (.engine "t") resuming) w' ∧
    w.thread.task? = some 1 ∧ w'.thread.task? = none ∧
    ((start none .sink fromTask).steps 5).world.thread.task? = some 3 ∧
    Hosts ((start none .sink fromTask).steps 2) (w.thread.push (.waiting (.join (.engine "t") none)))
      (alone ((start none .sink fromTask).steps 2).world.process (.engine "t") resuming) k ∧
    Hosts ((start none .sink fromMain).steps 1) (w'.thread.push (.waiting (.join (.engine "t") none)))
      (alone ((start none .sink fromTask).steps 2).world.process (.engine "t") resuming) k := by
  obtain ⟨written, second⟩ := first_task_enters .sink (rfl : fromTask = _)
  obtain ⟨w', main, going', process', frames'⟩ := fromMain_starts
  have starts : ((start none .sink fromTask).steps 2).world.Starts
      (.thread (.engine "t") resuming) _ :=
    ⟨[], [.task 1 none []], by rw [second]; rfl, rfl⟩
  have starts' : ((start none .sink fromMain).steps 1).world.Starts
      (.thread (.engine "t") resuming) _ := ⟨[], [.script], by rw [main, frames'], rfl⟩
  have agree : ((start none .sink fromMain).steps 1).world.process.shared =
      ((start none .sink fromTask).steps 2).world.process.shared := by
    rw [main, second, process']
    rfl
  obtain ⟨k, hosts, hosts', -⟩ := threads_isolated ⟨none, .sink, fromTask, 2, rfl⟩
    ⟨none, .sink, fromMain, 1, rfl⟩ (by rw [second]; rfl) (by rw [main, done, going']; rfl)
    starts starts' (by decide +kernel) agree
  exact ⟨_, _, k, starts, starts', rfl, rfl, fromTask_resumes, hosts, hosts'⟩

end Machine

end FiberEngine
