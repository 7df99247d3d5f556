/-
FiberEngine.Proofs.Offspring — what a thread leaves behind.

A thread that starts another one and waits for it comes back as it was, whatever the
other one does, and so do all threads around it and all fibers that are not of the new
thread. `Below` is what holds of a machine while the new thread runs, and
`Below.returns` that it ends, unless the process does.

What stays are the fibers that the thread has created and that still have a handle when
it is torn down. `Sustains` says which these are: each of them is held by one of them, and
no set of fibers of this kind is ever destroyed, be it one fiber that is suspended in its
own code, or some that have captured each other.

The main statement is `threads_framed`.
-/
import FiberEngine.Proofs.Accounts
import FiberEngine.Proofs.Weights

namespace FiberEngine

variable {others : List FiberId}

/-! ## 1. Fibers that hold each other -/

/-- Each of the fibers is held by one of them. -/
def Sustains (fs : List Fiber) (S : List FiberId) : Prop :=
  ∀ id ∈ S, ∃ f ∈ fs, f.id ∈ S ∧ id ∈ f.owns

/-- What only differs in its handles sustains the same. -/
theorem Sustains.congr {fs gs : List Fiber} {S : List FiberId} (sustains : Sustains fs S)
    (stays : ∀ f ∈ fs, f.id ∈ S → ∃ g ∈ gs, g.id = f.id ∧ g.owns = f.owns) : Sustains gs S := by
  intro id mem
  obtain ⟨f, there, held, owns⟩ := sustains id mem
  obtain ⟨g, stays, same, same'⟩ := stays f there held
  exact ⟨g, stays, same ▸ held, same' ▸ owns⟩

/-- A fiber that is suspended in its code sustains itself. -/
theorem Fiber.Rests.sustains {f : Fiber} (rests : f.Rests) {k : List Frame}
    (context : f.context = some (.suspended k)) {fs : List Fiber} (mem : f ∈ fs) :
    Sustains fs [f.id] := by
  intro id own
  obtain rfl := List.mem_singleton.mp own
  refine ⟨f, mem, own, ?_⟩
  cases rests with
  | waiting onStack state context' callback => cases context.symm.trans context'
  | suspended onStack state context' callback body pauses =>
    simp only [Fiber.owns, context', Option.elim_some, Context.handles, Frame.allHandles_cons,
      List.mem_append]
    exact .inl (.inr body.mem_handles)
  | finished onStack state context' callback => cases context.symm.trans context'

namespace World

variable {w : World} {r : Option FiberId} {h : List FiberId} {S : List FiberId}

/-- No release destroys fibers that hold each other. -/
theorem release_sustains (ids : List FiberId) (sound : Stage.Sound others ⟨w, r, .exec, ids ++ h⟩)
    (sustains : Sustains w.thread.fibers S) : Sustains (w.release ids).thread.fibers S := by
  have rounds := release_rounds (P := fun v rest _ =>
    Stage.Sound others ⟨v, r, .exec, rest ++ h⟩ ∧ Sustains v.thread.fibers S)
    w ids [] ⟨sound, sustains⟩ ?_ ?_ ?_
  · exact rounds.2
  · rintro v id rest acts ⟨before, _⟩ none
    obtain ⟨f, found⟩ := before.thread.exists_of_held (by simp : id ∈ id :: rest ++ h)
    exact absurd found (by simp [none])
  · rintro v id rest acts f ⟨before, sustains⟩ found last
    obtain rfl := Thread.id_of_fiber? found
    have apart : f.id ∉ S := fun mem => by
      obtain ⟨g, there, -, owns⟩ := sustains f.id mem
      exact before.thread.count_last found last (Thread.Sound.mem_kept_of_owns there owns)
    rw [List.append_assoc]
    refine ⟨(before.destroy found last).sound, sustains.congr fun g there held => ?_⟩
    rw [destroy_fibers]
    exact ⟨g, Thread.mem_erase.mpr ⟨there, fun same => apart (same ▸ held)⟩, rfl, rfl⟩
  · rintro v id rest acts f ⟨before, sustains⟩ found more
    have less : Move (fun _ => True) ⟨v, r, .exec, id :: (rest ++ h)⟩ [] _ :=
      .giveUp found more
    refine ⟨(less.follows before).sound, sustains.congr fun g there _ => ?_⟩
    refine ⟨_, List.mem_map_of_mem there, ?_⟩
    split <;> exact ⟨rfl, rfl⟩

/-- A main fiber that ends with its thread is in no other fiber's hands. -/
theorem not_owned_of_parting {id : FiberId} (sound : Stage.Sound others ⟨w, none, .exec, []⟩)
    (dead : id ∈ deaths w.parting) : ∀ f ∈ w.thread.fibers, id ∉ f.owns := by
  intro g there owns
  unfold parting at dead
  split at dead
  · rename_i f found
    obtain ⟨main, isMain, found⟩ := Option.bind_eq_some_iff.mp found
    split at dead
    · rename_i last
      obtain rfl : id = f.id := by simpa [deaths, Act.death?] using dead
      obtain rfl := Thread.id_of_fiber? found
      have census := sound.thread.census f.id
      have owned : 0 < (w.thread.fibers.flatMap Fiber.owns).count f.id :=
        List.count_pos_iff.mpr (List.mem_flatMap.mpr ⟨g, there, owns⟩)
      rw [handlesTo_of_mem sound.thread.distinct (Thread.mem_of_fiber? found)] at census
      simp only [Thread.kept, isMain, Option.toList_some, List.append_nil, List.count_append,
        List.count_singleton_self] at census
      omega
    · simp [deaths] at dead
  · simp [deaths] at dead

/-- Neither does the end of a thread. -/
theorem Retires.sustains {v : World} {gone : List Fiber} {new : List Entry}
    (retires : Retires others w v gone new) (sound : Stage.Sound others ⟨w, none, .exec, []⟩)
    (sustains : Sustains w.thread.fibers S) : Sustains gone S := by
  refine sustains.congr fun f there held => ?_
  have stays : f.id ∈ gone.map Fiber.id := by
    have left : f.id ∈ deaths w.parting ++ gone.map Fiber.id :=
      retires.leaves.mem_iff.mp (List.mem_append_left _ (List.mem_map_of_mem there))
    refine (List.mem_append.mp left).resolve_left fun dead => ?_
    obtain ⟨g, there, -, owns⟩ := sustains f.id held
    exact not_owned_of_parting sound dead g there owns
  obtain ⟨g, mem, same⟩ := List.mem_map.mp stays
  obtain ⟨f', there', changed⟩ := retires.kept g mem
  have same' : f'.id = f.id := by rw [← same, changed]
  obtain rfl := sound.thread.distinct.eq_of_id there' there same'
  exact ⟨g, mem, same, by rw [changed]; rfl⟩

/-- So what holds each other when the script of a thread has ended is left behind. -/
theorem releaseSlots_sustains (sound : Stage.Sound others ⟨w, none, .exec, []⟩)
    (sustains : Sustains w.thread.fibers S) : Sustains w.releaseSlots.thread.fibers S := by
  have cleared : Move (fun _ => True) ⟨w, none, .exec, []⟩ [] _ := .clearSlots
  exact release_sustains _ (cleared.follows sound).sound sustains

end World

/-- What is left behind holds nothing but what is left behind. -/
theorem Forgotten.sustains {fs : List Fiber} {S : List FiberId} (forgotten : Forgotten fs)
    (sustains : Sustains fs S) : S ⊆ fs.map Fiber.id := by
  intro id mem
  obtain ⟨f, there, -, owns⟩ := sustains id mem
  have counted : 0 < handlesTo fs id := by
    rw [forgotten.census id]
    exact List.count_pos_iff.mpr (List.mem_flatMap.mpr ⟨f, there, owns⟩)
  obtain ⟨g, there, same⟩ := exists_of_handlesTo_pos counted
  exact List.mem_map.mpr ⟨g, there, same⟩

/-- Fibers that only have handles to each other, but for some that do already. -/
theorem Forgotten.of_append {fs gs : List Fiber} (h : Forgotten (fs ++ gs)) (hf : Forgotten fs) :
    Forgotten gs where
  census id := by
    have total := h.census id
    rw [handlesTo_append, hf.census id, List.flatMap_append, List.count_append] at total
    exact Nat.add_left_cancel total
  alive f mem := h.alive f (List.mem_append_right _ mem)

/-! ## 2. While the thread runs -/

/-- What is left of the fibers of a thread when this is torn down. -/
structure Thread.LeavesBehind (u : Thread) (own : List Fiber) : Prop where
  /-- They are as they were when the script of the thread had ended. -/
  kept : ∀ g ∈ own, ∃ f ∈ u.fibers, g = { f with handles := g.handles }
  /-- Nothing is destroyed that is still held by what is not destroyed. -/
  sustains : ∀ S, Sustains u.fibers S → S ⊆ own.map Fiber.id
  suspended : ∀ f ∈ u.fibers, ∀ k, f.context = some (.suspended k) → f.id ∈ own.map Fiber.id

/-- The end of a thread whose script has ended. -/
theorem World.leaves_behind {w : World} (sound : Stage.Sound others (w.stage none))
    (body : Body none w.thread.frames) :
    ∃ own, w.releaseSlots.retire.process.leaked = w.process.leaked ++ own ∧
      w.releaseSlots.retire.process.level = w.process.level ∧
      w.releaseSlots.retire.process.halted = false ∧ w.thread.LeavesBehind own := by
  rw [stage, body.script_handles] at sound
  have stays : Stays (fun _ => True) _ _ := releaseSlots_stays (w := w) (r := none) (h := [])
  have released := stays.sound sound
  obtain ⟨new, tells⟩ := stays.leads.tells sound
  obtain ⟨own, more, retires⟩ := retire_retires released (releaseSlots_slots w)
  have whole : w.releaseSlots.retire.process.leaked = w.process.leaked ++ own := by
    rw [retires.leaked, tells.leaked]
  have stay : ∀ S, Sustains w.thread.fibers S → S ⊆ own.map Fiber.id := fun S sustains =>
    retires.forgotten.sustains (retires.sustains released (releaseSlots_sustains sound sustains))
  refine ⟨own, whole, retires.level.trans tells.level, retires.halted.trans released.going, ?_, stay,
    ?_⟩
  · intro g mem
    obtain ⟨f, there, changed⟩ := retires.kept g mem
    have found : w.releaseSlots.thread.fiber? f.id = some f :=
      Thread.fiber?_of_mem released.thread.distinct there
    obtain ⟨f', found, changed'⟩ := fiber?_release found
    exact ⟨f', Thread.mem_of_fiber? found, by rw [changed, changed']⟩
  · intro f there k context
    have apart : w.thread.main ≠ some f.id := fun isMain => by
      obtain ⟨g, found, -, presides⟩ := sound.thread.main_presides isMain
      obtain rfl : g = f := Option.some.inj
        (found.symm.trans (Thread.fiber?_of_mem sound.thread.distinct there))
      cases presides with
      | home noStack callback state none => cases none.symm.trans context
    have rests := (sound.thread.fits f there).rests apart (by simp)
    exact stay [f.id] (rests.sustains context there) (List.mem_singleton_self _)

namespace Machine

variable {m v : Machine} {t : Thread} {rest : List Thread} {p : Process}

/-- A thread runs on behalf of another one, or one that it has started does. The process is
that in which it was started. -/
structure Below (t : Thread) (rest : List Thread) (p : Process) (m : Machine) : Prop where
  spawners : ∃ inner, m.spawners = inner ++ t :: rest
  unfinished : m.finished = false
  leaked : ∃ gone, m.world.process.leaked = p.leaked ++ gone
  level : m.world.process.level = p.level

/-- The script of the thread ends, and with the next step control is back. Of its own fibers
the thread has left some behind, and so have the threads that it has started. -/
structure Ended (t : Thread) (rest : List Thread) (p : Process) (m : Machine) (e : Ending)
    (u : World) (nested own : List Fiber) : Prop where
  last : m.world.step = (u, .ended e)
  waiting : m.spawners = t :: rest
  back : m.step = ⟨⟨m.step.world.process, hear t e⟩, rest, false⟩
  leaked : m.step.world.process.leaked = p.leaked ++ nested ++ own
  level : m.step.world.process.level = p.level
  going : m.step.world.process.halted = false
  left : u.thread.LeavesBehind own

/-- A step of the thread, or of one that it has started. -/
theorem Below.step (below : Below t rest p m) (sound : m.Sound) (goes : m.done = false) :
    Below t rest p m.step ∨ (∃ e u nested own, Ended t rest p m e u nested own) ∨
      m.step.world.process.halted = true ∧ m.step.spawners = m.spawners := by
  obtain ⟨inner, waiting⟩ := below.spawners
  obtain ⟨gone, leaked⟩ := below.leaked
  obtain ⟨r, here, ready⟩ := sound.running
  have steps := World.step_steps here (ready (finished_of_goes goes))
  have next := step_eq m
  generalize stepped : m.world.step = x at steps next
  cases steps with
  | running comes =>
    rw [next]
    cases comes with
    | on leads ready continues =>
      obtain ⟨new, tells⟩ := leads.tells here
      exact .inl ⟨below.spawners, below.unfinished, ⟨gone, tells.leaked.trans leaked⟩,
        tells.level.trans below.level⟩
    | fallen falls => exact .inr (.inr ⟨falls.halted, rfl⟩)
  | @ended u e leads body =>
    obtain ⟨new, tells⟩ := leads.tells here
    obtain ⟨own, left, level, going, behind⟩ := World.leaves_behind (leads.sound here) body
    have total : u.releaseSlots.retire.process.leaked = p.leaked ++ gone ++ own := by
      rw [left, tells.leaked, leaked]
    have same : u.releaseSlots.retire.process.level = p.level :=
      level.trans (tells.level.trans below.level)
    cases inner with
    | nil =>
      have back : m.step = ⟨⟨u.releaseSlots.retire.process, hear t e⟩, rest, false⟩ := by
        simp only [next, take, finishThread, waiting, List.nil_append, below.unfinished]
      refine .inr (.inl ⟨e, u, gone, own, stepped, waiting, ?_, ?_, ?_, ?_, behind⟩) <;> rw [back]
      · exact total
      · exact same
      · exact going
    | cons first inner =>
      have back : m.step = ⟨⟨u.releaseSlots.retire.process, hear first e⟩, inner ++ t :: rest,
          m.finished⟩ := by
        simp only [next, take, finishThread, waiting, List.cons_append]
      rw [back]
      exact .inl ⟨⟨inner, rfl⟩, below.unfinished, ⟨gone ++ own, by rw [total, List.append_assoc]⟩,
        same⟩
  | started leads body frames =>
    obtain ⟨new, tells⟩ := leads.tells here
    rw [next]
    exact .inl ⟨⟨_ :: inner, by rw [take, waiting, List.cons_append]⟩, below.unfinished,
      ⟨gone, tells.leaked.trans leaked⟩, tells.level.trans below.level⟩

/-- Who is created and who is left, from one machine to a later one. -/
structure Descends (m v : Machine) (acts : List Act) : Prop where
  bears : m.world.process.Bears v.world.process acts
  leaves : FiberEngine.Leaves m.ids acts v.ids

theorem Sound.descends (sound : m.Sound) (goes : m.done = false)
    (going : m.step.world.process.halted = false) : ∃ acts, Descends m m.step acts := by
  obtain ⟨r, here, advances⟩ := sound.advances goes
  obtain ⟨acts, does⟩ := advances.does here
  have stage : m.stage.Sound m.others := by
    obtain rfl : m.world.thread.task? = r := here.thread.task
    exact here
  exact ⟨acts, does.bears stage, does.leaves stage going⟩

/-- The script of the thread comes to its end, unless the process comes to its end in it. -/
theorem Below.returns (below : Below t rest p m) (sound : m.Sound) :
    ∃ n, ((m.steps n).world.process.halted = true ∧ ∃ inner, (m.steps n).spawners =
        inner ++ t :: rest) ∨
      ∃ acts e u nested own, Ended t rest p (m.steps n) e u nested own ∧
        (m.steps n).done = false ∧ (m.steps n).step.Sound ∧ Descends m (m.steps n).step acts := by
  generalize weight : m.weight = b
  induction b using Nat.strongRecOn generalizing m with
  | ind b ih =>
    cases goes : m.done with
    | true =>
      have halted : m.world.process.halted = true := by
        rwa [done, below.unfinished, Bool.false_or] at goes
      exact ⟨0, .inl ⟨halted, below.spawners⟩⟩
    | false =>
      have on := steps_of_step goes
      cases halted : m.step.world.process.halted with
      | true =>
        refine ⟨1, .inl ⟨by rw [on]; exact halted, ?_⟩⟩
        rw [on]
        rcases below.step sound goes with still | ⟨e, u, nested, own, ended⟩ | ⟨-, same⟩
        · exact still.spawners
        · cases ended.going.symm.trans halted
        · exact same ▸ below.spawners
      | false =>
        have after := sound.step goes halted
        obtain ⟨acts, first⟩ := sound.descends goes halted
        rcases below.step sound goes with still | ⟨e, u, nested, own, ended⟩ | ⟨ends, -⟩
        · have lighter := (step_lighter sound goes).resolve_left (by
            simp [done, still.unfinished, halted])
          obtain ⟨n, comes⟩ := ih _ (by omega) still after rfl
          refine ⟨n + 1, ?_⟩
          rw [on]
          refine comes.imp_right ?_
          rintro ⟨more, e, u, nested, own, ended, goes, sound, second⟩
          exact ⟨acts ++ more, e, u, nested, own, ended, goes, sound,
            first.bears.append second.bears, first.leaves.append second.leaves⟩
        · exact ⟨0, .inr ⟨acts, e, u, nested, own, ended, goes, after, first⟩⟩
        · cases ends.symm.trans halted

/-! ## 3. Before and after -/

end Machine

namespace World

variable {w : World}

/-- A thread that can be started is started. -/
theorem spawn_eq {kind : ThreadKind} (ops : List Op) (name : kind.name?.bind nameFault? = none) :
    ∃ trace, w.spawn kind ops = (⟨{ w.process with trace := trace },
      w.thread.push (.waiting (.join kind none))⟩, .started (child kind ops)) := by
  unfold spawn
  rw [name]
  cases kind with
  | engine s =>
    rcases log_cases w (.threadSpawned s) with same | same
    · simp only [same]
      exact ⟨_, rfl⟩
    · simp only [same, onThread, emit_thread]
      rw [emit_process]
      exact ⟨_, rfl⟩
  | plain s => exact ⟨_, rfl⟩

/-- A thread that has waited for another one answers how that has ended, and how many fibers
there are. -/
def joined (p : Process) (t : Thread) (kind : ThreadKind) (e : Ending) : World :=
  let w := noteWorker ⟨p, t⟩ kind e
  if p.program.isSome then w
  else w.emit (.completed (Op.thread kind []).name (.joined kind.name? e.panic? p.live))

variable (p : Process) (t : Thread) (kind : ThreadKind) (e : Ending)

theorem join_answers : World.step ⟨p, Machine.hear (t.push (.waiting (.join kind none))) e⟩ =
    (joined p t kind e, .running) := by
  have heard : Machine.hear (t.push (.waiting (.join kind none))) e =
      t.goOn (.waiting (.join kind (some e)) :: t.frames) := Machine.hear_eq e rfl
  have name : (Pending.join kind (some e)).name = (Op.thread kind []).name := by cases kind <;> rfl
  have program : (noteWorker ⟨p, t⟩ kind e).process.program.isSome = p.program.isSome := by
    cases e with
    | completed => rfl
    | panicked q => exact Option.isSome_map
  have stepped : World.step ⟨p, t.goOn (.waiting (.join kind (some e)) :: t.frames)⟩ =
      conclude (noteWorker ⟨p, t⟩ kind e) (Op.thread kind []).name
        (.joined kind.name? e.panic? p.live) := by
    rw [← name]
    cases e <;> rfl
  rw [heard, stepped, joined, conclude, ← program]
  cases (noteWorker ⟨p, t⟩ kind e).process.program <;> rfl

theorem joined_thread : (joined p t kind e).thread = t := by
  have noted : (noteWorker ⟨p, t⟩ kind e).thread = t := by cases e <;> rfl
  unfold joined
  simp only
  split
  · exact noted
  · rw [emit_thread, noted]

theorem joined_process : (joined p t kind e).process =
    { p with trace := (joined p t kind e).process.trace
             program := (noteWorker ⟨p, t⟩ kind e).process.program } := by
  have noted : (noteWorker ⟨p, t⟩ kind e).process =
      { p with program := (noteWorker ⟨p, t⟩ kind e).process.program } := by cases e <;> rfl
  unfold joined
  simp only
  split
  · rw [noted]
  · rw [emit_process, noted]

theorem joined_trace (going : p.halted = false) : (joined p t kind e).process.trace.toList =
    p.trace.toList ++ if p.program.isSome then [] else
      [⟨t, .completed (Op.thread kind []).name (.joined kind.name? e.panic? p.live)⟩] := by
  unfold joined
  simp only
  split
  · rw [List.append_nil]
    cases e <;> rfl
  · rw [emit_trace (by cases e <;> exact going)]
    cases e <;> rfl

end World

namespace Machine

variable {m v : Machine}

/-- What has become of a machine, in which `w` goes on behind the operation that starts a
thread, when this operation is complete. The script of the thread ended as `u` stood; `own`
are those of its fibers that it has left behind, `nested` those that threads have left
behind which it had started. Of the process, nothing is said of the ids that are drawn, the
tunables, the hook, the default stack size, the demonstration that goes on and the trace. -/
structure Framed (m v : Machine) (w : World) (kind : ThreadKind) (e : Ending) (u : Thread)
    (nested own : List Fiber) : Prop where
  /-- The thread that has waited is as it was, and so are all threads around it. -/
  thread : v.world.thread = w.thread
  spawners : v.spawners = m.spawners
  /-- What earlier threads have left behind is as it was. -/
  leaked : v.world.process.leaked = m.world.process.leaked ++ (nested ++ own)
  level : v.world.process.level = m.world.process.level
  goes : v.done = false
  /-- The fibers that were created meanwhile and are left behind are counted, -/
  live : v.world.process.live = m.world.process.live + (nested ++ own).length
  order : m.world.process.nextId ≤ v.world.process.nextId
  fresh : ∀ f ∈ nested ++ own, m.world.process.nextId ≤ f.id ∧ f.id < v.world.process.nextId
  distinct : ((nested ++ own).map Fiber.id).Nodup
  /-- and they are just those to which there is still a handle, anywhere. -/
  held : ∀ id, m.world.process.nextId ≤ id → id < v.world.process.nextId →
    (id ∈ (nested ++ own).map Fiber.id ↔ id ∈ v.handles)
  /-- These handles are in their own hands. -/
  forgotten : Forgotten (nested ++ own)
  /-- When the thread is torn down, its fibers stay as they are, or they are destroyed; what
  is held by fibers that stay stays, and so does a fiber that is suspended in its code. -/
  left : u.LeavesBehind own
  /-- The operation answers how the thread has ended. -/
  answer : v.world.process.program = none → ∃ before,
    v.world.process.trace.toList = before ++
      [⟨w.thread, .completed (Op.thread kind []).name
        (.joined kind.name? e.panic? v.world.process.live)⟩]

/-- The step that starts a thread. -/
theorem step_started {kind : ThreadKind} {body : List Op} {w : World}
    (starts : m.world.Starts (.thread kind body) w)
    (name : kind.name?.bind World.nameFault? = none) :
    ∃ trace, m.step = ⟨⟨{ m.world.process with trace := trace }, World.child kind body⟩,
      w.thread.push (.waiting (.join kind none)) :: m.spawners, m.finished⟩ := by
  obtain ⟨rest, k, frames, rfl⟩ := starts
  obtain ⟨trace, spawned⟩ := World.spawn_eq (w := m.world.goOn (.ops rest :: k)) body name
  refine ⟨trace, ?_⟩
  have performed : (m.world.goOn (.ops rest :: k)).perform (.thread kind body) = _ := spawned
  simp only [Machine.step, World.step, frames, performed, World.settle]
  rfl

/-- The thread begins with the process as it is. -/
theorem Below.begin {kind : ThreadKind} {body : List Op} {w : World} (goes : m.done = false)
    (starts : m.world.Starts (.thread kind body) w)
    (name : kind.name?.bind World.nameFault? = none) :
    Below (w.thread.push (.waiting (.join kind none))) m.spawners m.world.process m.step ∧
      m.step.world.process.halted = false := by
  obtain ⟨trace, started⟩ := step_started starts name
  rw [started]
  exact ⟨⟨⟨[], rfl⟩, finished_of_goes goes, ⟨[], (List.append_nil _).symm⟩, rfl⟩,
    halted_of_goes goes⟩

/-- The fibers that are alive when some more are left behind. -/
theorem ids_behind {q : Process} {u : Thread} {gone : List Fiber} {done : Bool}
    (same : u.ids = m.world.thread.ids) (leaked : q.leaked = m.world.process.leaked ++ gone) :
    ids ⟨⟨q, u⟩, m.spawners, done⟩ = m.ids ++ gone.map Fiber.id := by
  simp only [ids, others, same, leaked, List.map_append, List.append_assoc]

/-- If nobody is missed, those that are new were created meanwhile. -/
theorem Descends.born {acts : List Act} {new : List FiberId} (descends : Descends m v acts)
    (ids : v.ids = m.ids ++ new) : new.Nodup ∧
      ∀ id ∈ new, m.world.process.nextId ≤ id ∧ id < v.world.process.nextId := by
  have leaves := descends.leaves
  rw [FiberEngine.Leaves, ids, descends.bears.births] at leaves
  have drawn : (List.range' m.world.process.nextId
      (v.world.process.nextId - m.world.process.nextId)).Perm (deaths acts ++ new) := by
    refine (List.perm_append_left_iff m.ids).mp (leaves.trans ?_)
    rw [← List.append_assoc, ← List.append_assoc]
    exact List.perm_append_comm.append_right new
  refine ⟨(List.nodup_append.mp (drawn.nodup_iff.mp List.nodup_range')).2.1, fun id mem => ?_⟩
  have mem := List.mem_range'_1.mp (drawn.mem_iff.mpr (List.mem_append_right _ mem))
  exact ⟨mem.1, Nat.lt_of_lt_of_eq mem.2 (Nat.add_sub_cancel' descends.bears.order)⟩

/-- Those that are new are counted, and they are just those to whom there is a handle. -/
theorem Sound.newcomers {new : List FiberId} (sound : m.Sound) (after : v.Sound)
    (ids : v.ids = m.ids ++ new) :
    v.world.process.live = m.world.process.live + new.length ∧
      ∀ id, m.world.process.nextId ≤ id → (id ∈ new ↔ id ∈ v.handles) := by
  constructor
  · rw [after.balanced.total, sound.balanced.total, ← List.length_map Fiber.id,
      ← List.length_map Fiber.id, fibers_ids, fibers_ids, ids, List.length_append]
  · intro id fresh
    rw [← after.balanced.alive id, ← List.mem_map, fibers_ids, ids, List.mem_append]
    refine (or_iff_right fun mem => ?_).symm
    rw [← fibers_ids] at mem
    obtain ⟨f, there, rfl⟩ := List.mem_map.mp mem
    exact absurd (sound.balanced.numbered f there).2 (Nat.not_lt.mpr fresh)

/-- The thread that has waited answers, and goes on as it was. -/
theorem Ended.framed {last : Machine} {kind : ThreadKind} {w u : World} {e : Ending}
    {nested own : List Fiber} {acts : List Act} (sound : m.Sound)
    (here : w.thread.ids = m.world.thread.ids)
    (ended : Ended (w.thread.push (.waiting (.join kind none))) m.spawners m.world.process last e
      u nested own)
    (after : last.step.Sound) (descends : Descends m last.step acts) :
    Framed m last.step.step w kind e u.thread nested own := by
  obtain ⟨-, -, back, left, level, lasts, behind⟩ := ended
  generalize last.step = v at *
  have leaked : v.world.process.leaked = m.world.process.leaked ++ (nested ++ own) := by
    rw [left, List.append_assoc]
  have unfinished : v.finished = false := by rw [back]
  have waiting : v.spawners = m.spawners := by rw [back]
  have stepped := World.join_answers v.world.process w.thread kind e
  have process := World.joined_process v.world.process w.thread kind e
  have thread := World.joined_thread v.world.process w.thread kind e
  have trace := World.joined_trace v.world.process w.thread kind e lasts
  generalize World.joined v.world.process w.thread kind e = y at *
  have world : v.world = ⟨v.world.process, hear (w.thread.push (.waiting (.join kind none))) e⟩ :=
    congrArg Machine.world back
  rw [← world] at stepped
  have next : v.step = ⟨y, m.spawners, v.finished⟩ := by
    rw [step_of_running stepped, waiting]
  have goes : v.done = false := by rw [done, unfinished, lasts, Bool.or_self]
  have live : y.process.live = v.world.process.live := by rw [process]
  have ids : y.process.nextId = v.world.process.nextId := by rw [process]
  have going : v.step.world.process.halted = false := by
    rw [next, process]
    exact lasts
  have again := after.step goes going
  have gone : y.process.leaked = m.world.process.leaked ++ (nested ++ own) := by
    rw [process]
    exact leaked
  -- who is alive has been so before, or was created meanwhile
  have before : v.ids = m.ids ++ (nested ++ own).map Fiber.id := by
    rw [back]
    exact ids_behind ((hear_ids e).trans here) leaked
  have still : v.step.ids = m.ids ++ (nested ++ own).map Fiber.id := by
    rw [next]
    exact ids_behind (by rw [thread]; exact here) gone
  obtain ⟨distinct, fresh⟩ := descends.born before
  obtain ⟨count, held⟩ := sound.newcomers again still
  have forgotten : Forgotten (m.world.process.leaked ++ (nested ++ own)) :=
    leaked ▸ after.forgotten
  refine
    { thread := next ▸ thread
      spawners := by rw [next]
      leaked := next ▸ gone
      level := by rw [next, process]; exact level
      goes := by rw [done, going, Bool.or_false, next]; exact unfinished
      live := by rw [count, List.length_map]
      order := by rw [next, ids]; exact descends.bears.order
      fresh := fun f mem => by rw [next, ids]; exact fresh f.id (List.mem_map_of_mem mem)
      distinct
      held := fun id new _ => held id new
      forgotten := forgotten.of_append sound.forgotten
      left := behind
      answer := fun silent => ⟨v.world.process.trace.toList, ?_⟩ }
  have calm : v.world.process.program = none := by
    rw [next, process] at silent
    cases e with
    | completed => exact silent
    | panicked q => exact Option.map_eq_none_iff.mp silent
  rw [next, live, trace, calm]
  rfl

/-- Whatever a thread does, the thread that starts it and waits for it comes back as it was,
and so does every thread around that one, with all of their fibers; this holds of every
caller, of threads that start further threads, and whether the thread ends well or by a
panic. Apart from what all threads share, only those of its fibers last to which there is
still a handle when the thread has been torn down, and the count of fibers grows by their
number. Otherwise the process comes to its end in the thread. -/
theorem threads_framed (level : Option Level) (hook : ReportHook) (script : List Op) (n : Nat)
    {kind : ThreadKind} {body : List Op} {w : World}
    (goes : ((start level hook script).steps n).done = false)
    (starts : ((start level hook script).steps n).world.Starts (.thread kind body) w)
    (name : kind.name?.bind World.nameFault? = none) :
    ∃ k, (((start level hook script).steps (n + 1 + k)).world.process.halted = true ∧
        ∃ inner, ((start level hook script).steps (n + 1 + k)).spawners =
          inner ++ w.thread.push (.waiting (.join kind none)) ::
            ((start level hook script).steps n).spawners) ∨
      ∃ e u nested own,
        ((start level hook script).steps (n + 1 + k)).world.step = (u, .ended e) ∧
        ((start level hook script).steps (n + 1 + k)).spawners =
          w.thread.push (.waiting (.join kind none)) ::
            ((start level hook script).steps n).spawners ∧
        Framed ((start level hook script).steps n) ((start level hook script).steps (n + 1 + k + 2))
          w kind e u.thread nested own := by
  have sound := sound_of_goes goes
  simp only [steps_add, steps_succ_of_goes goes]
  generalize (start level hook script).steps n = m at *
  have ids : w.thread.ids = m.world.thread.ids := by
    obtain ⟨rest, k, frames, rfl⟩ := starts
    rfl
  obtain ⟨below, going⟩ := Below.begin goes starts name
  have begun := sound.step goes going
  obtain ⟨acts, first⟩ := sound.descends goes going
  obtain ⟨k, ends⟩ := below.returns begun
  refine ⟨k, ends.imp id ?_⟩
  rintro ⟨more, e, u, nested, own, ended, goes, after, second⟩
  have descends : Descends m (m.step.steps k).step (acts ++ more) :=
    ⟨first.bears.append second.bears, first.leaves.append second.leaves⟩
  have back : (m.step.steps k).step.done = false := by
    rw [done, ended.going, Bool.or_false, ended.back]
  have two : (m.step.steps k).steps 2 = (m.step.steps k).step.step := by
    rw [steps_of_step goes, steps_of_step back, steps]
  rw [two]
  exact ⟨e, u, nested, own, ended.last, ended.waiting, ended.framed sound ids after descends⟩

/-- A script that starts a thread, which leaves a task suspended in its code. -/
def abandoning : List Op :=
  [.thread (.engine "t")
    [.create (.named "f") minStackSize .heap [.park .ready] none [],
      .resume .trusted (.slot (.named "f"))]]

theorem abandoning_framed : ∃ w, (start none .sink abandoning).world.Starts (.thread (.engine "t")
      [.create (.named "f") minStackSize .heap [.park .ready] none [],
        .resume .trusted (.slot (.named "f"))]) w ∧
    ∃ k, ((start none .sink abandoning).steps (0 + 1 + k)).world.process.halted = true ∨
      ∃ e u nested own, Framed (start none .sink abandoning)
        ((start none .sink abandoning).steps (0 + 1 + k + 2)) w (.engine "t") e u nested own := by
  have starts : (start none .sink abandoning).world.Starts (.thread (.engine "t")
      [.create (.named "f") minStackSize .heap [.park .ready] none [],
        .resume .trusted (.slot (.named "f"))]) _ := ⟨[], [.script], rfl, rfl⟩
  obtain ⟨k, framed⟩ := threads_framed none .sink abandoning 0 rfl starts (by decide +kernel)
  refine ⟨_, starts, k, framed.imp And.left ?_⟩
  rintro ⟨e, u, nested, own, -, -, framed⟩
  exact ⟨e, u.thread, nested, own, framed⟩

end Machine

end FiberEngine
