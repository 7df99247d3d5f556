/-
FiberEngine.Proofs.Arrivals — two codes of one task come to the same end.

From step to step two machines that are beside each other stay so, until the process
ends in both or the callback of the task does. `Beside.onward` says so of a step of
both, with the threads that are started in it, and `Beside.arrives` of all steps, by
induction on what is still to run: each step makes one of the machines lighter and
none heavier.

When the callback has ended, the main fiber finds it so and answers the request that
drives. `Beside.ends` says that both machines then stand in the same state.
-/
import FiberEngine.Proofs.Companions
import FiberEngine.Proofs.Lockstep

namespace FiberEngine

open FiberEngine.Frame (allAtoms Meets)

/-! ## 1. Processes alike -/

/-- The process is the same in both worlds, and their traces show the same, but for the
suspensions of one fiber. -/
structure Alike (x : FiberId) (w w' : World) : Prop where
  process : w'.process.untraced = w.process.untraced
  trace : shownBut x w'.process.trace = shownBut x w.process.trace

namespace Alike

variable {x : FiberId} {w w' w₂ : World}

theorem symm (h : Alike x w w') : Alike x w' w :=
  ⟨h.process.symm, h.trace.symm⟩

theorem trans (h : Alike x w w') (h' : Alike x w' w₂) : Alike x w w₂ :=
  ⟨h'.process.trans h.process, h'.trace.trans h.trace⟩

theorem halted (h : Alike x w w') : w'.process.halted = w.process.halted :=
  (congrArg Process.halted h.process :)

end Alike

theorem Twins.alike {x : FiberId} {g : Guise} {w w' : World} (twins : Twins x g w w') :
    Alike x w w' :=
  ⟨twins.process, twins.trace⟩

/-- No code: neither what runs nor what is parked. -/
def Guise.blank : Guise :=
  ⟨fun _ => [], fun _ _ => [], fun _ body => body⟩

/-- All threads, without the code that they run or have parked. -/
def Machine.outline (m : Machine) : List Thread :=
  (m.world.thread :: m.spawners).map Guise.blank.thread

/-- The code of a driven task is left out. -/
theorem Drive.outline_guise {D : Drive} {fs : List Frame} {d : Nat} (t : Thread) :
    Guise.blank.thread ((D.guise fs d).thread t) = Guise.blank.thread t := by
  have context : ∀ id c, Guise.blank.context id ((D.guise fs d).context id c) =
      Guise.blank.context id c := by
    intro id c
    cases c <;> rfl
  have fiber : ∀ f, Guise.blank.fiber ((D.guise fs d).fiber f) = Guise.blank.fiber f := by
    intro f
    simp only [Guise.fiber, Option.map_map]
    congr 2
    exact funext fun c => context f.id c
  have fibers : Guise.blank.fiber ∘ (D.guise fs d).fiber = Guise.blank.fiber := funext fiber
  simp only [Guise.thread, List.map_map, fibers]
  rfl

/-- How two machines end in which a fiber is driven: the process ends in both, with
threads that only differ by their code, or the drive is answered in both, in the same
state of all threads. Only what the answer says of the number of resumes may differ. -/
inductive SameEnd (x : FiberId) (m m' : Machine) : Prop
  | halted (n n' : Nat) (alike : Alike x (m.steps n).world (m'.steps n').world)
    (threads : (m'.steps n').outline = (m.steps n).outline)
    (halted : (m.steps n).world.process.halted = true) : SameEnd x m m'
  | driven (n n' d d' : Nat) {s : FiberState} {v v' : World} (twins : Twins x .plain v v')
    (terminal : s.terminal = true)
    (left : (m.steps n).world = (v.conclude "drive" (.driven d s)).1)
    (right : (m'.steps n').world = (v'.conclude "drive" (.driven d' s)).1)
    (spawners : (m'.steps n').spawners = (m.steps n).spawners) : SameEnd x m m'

theorem SameEnd.after {x : FiberId} {m m' : Machine} (n n' : Nat)
    (same : SameEnd x (m.steps n) (m'.steps n')) : SameEnd x m m' := by
  cases same with
  | halted k k' alike threads halted =>
    simp only [← Machine.steps_add] at alike threads halted
    exact .halted (n + k) (n' + k') alike threads halted
  | driven k k' d d' twins terminal left right spawners =>
    simp only [← Machine.steps_add] at left right spawners
    exact .driven (n + k) (n' + k') d d' twins terminal left right spawners

/-- Where the same thread runs, on behalf of threads that only differ by their code. -/
theorem Machine.Inside.outline {x : FiberId} {t t' : Thread} {rest : List Thread} {m m' : Machine}
    (inside : Machine.Inside x t t' rest m m')
    (same : Guise.blank.thread t' = Guise.blank.thread t) : m'.outline = m.outline := by
  obtain ⟨inner, left, right⟩ := inside.spawners
  simp only [Machine.outline, World.sameThread inside.twins, left, right, List.map_cons,
    List.map_append, same]

namespace Drive

variable {D : Drive} {d d' d₂ d₂' : Nat} {m m' : Machine} {k k' : List Frame} {u v v' : World}

/-! ## 2. From step to step -/

/-- The machines are beside each other again, some steps later. -/
theorem Beside.later (b : D.Beside d d' m m') {n n' : Nat}
    (a : D.Abreast d₂ d₂' u (m.steps n).world (m'.steps n').world k k')
    (goes : (m.steps n).done = false) (goes' : (m'.steps n').done = false)
    (isMain : (m.steps n).world.thread.main = some D.main)
    (spawners : (m'.steps n').spawners = (m.steps n).spawners) (room : d₂ ≤ d + n)
    (room' : d₂' ≤ d' + n') : D.Beside d₂ d₂' (m.steps n) (m'.steps n') := by
  have frames : (m.steps n).world.thread.frames = k ∧ (m'.steps n').world.thread.frames = k' :=
    a.frames
  have sound := (b.left.sound.steps n).resolve_right (by simp [Machine.halted_of_goes goes])
  have task : (m.steps n).world.thread.task? = some D.task := by
    rw [Thread.task?, frames.1, a.base]
  have current : (m.steps n).world.thread.current = some D.task :=
    (sound.stage_of_task task).1.thread.current
  have same : (m'.steps n').world.thread.current = (m.steps n).world.thread.current :=
    a.right.current.trans a.left.current.symm
  have main : (m'.steps n').world.thread.main = (m.steps n).world.thread.main :=
    a.right.main.trans a.left.main.symm
  refine ⟨b.left.later goes a.left current isMain room,
    b.right.later goes' a.right (same.trans current) (main.trans isMain) room', ?_, spawners, ?_⟩
  · rw [frames.2]
    exact across a.left a.right
  · rw [frames.1, frames.2]
    exact a.same

/-- Both suspend themselves by a reference to the task. -/
theorem Beside.pauses {manner : Manner} {ref : FiberRef} {rest rest' : List Op}
    (b : D.Beside d d' m m')
    (frames : m.world.thread.frames = .ops (.pause manner ref :: rest) :: k)
    (frames' : m'.world.thread.frames = .ops (.pause manner ref :: rest') :: k')
    (same : allAtoms (.ops rest :: k) = allAtoms (.ops rest' :: k'))
    (fetched : ((m.world.goOn (.ops rest :: k)).fetch ref).2 = some D.task) :
    D.Beside (d + 1) (d' + 1) (m.steps 2) (m'.steps 2) := by
  obtain ⟨body, runs, here, a⟩ := b.begins frames same
  have fetched' : ((m'.world.goOn (.ops rest' :: k')).fetch ref).2 = some D.task :=
    (World.fetch_agree a.right ref).answer.trans fetched
  have two := b.left.pauses frames fetched
  have two' := b.right.pauses frames' fetched'
  have left : Twins D.task (D.guise (.waiting (.pause manner D.task) :: .ops rest :: k) (d + 1))
      (m.world.hold D.task) (m.steps 2).world := by
    rw [two]
    exact ⟨rfl, rfl, rfl⟩
  have right : Twins D.task (D.guise (.waiting (.pause manner D.task) :: .ops rest' :: k') (d' + 1))
      (m.world.hold D.task) (m'.steps 2).world := by
    rw [two']
    exact recode (World.hold_twins b.twins D.task) rfl rfl
  have abreast : D.Abreast (d + 1) (d' + 1) (m.world.hold D.task) (m.steps 2).world
      (m'.steps 2).world (.waiting (.pause manner D.task) :: .ops rest :: k)
      (.waiting (.pause manner D.task) :: .ops rest' :: k') := by
    refine ⟨left, right, Frame.allAtoms_congr _ same, ?_⟩
    rw [List.getLast?_cons_of_ne_nil (by simp)]
    exact a.base
  refine b.later abreast ?_ ?_ ?_ ?_ (by omega) (by omega)
  · rw [two]
    exact Machine.goes_of_going b.left.goes (Machine.halted_of_goes b.left.goes)
  · rw [two']
    exact Machine.goes_of_going b.right.goes (Machine.halted_of_goes b.right.goes)
  · exact left.main.trans b.left.runs.main
  · rw [two, two']
    exact b.spawners

/-- How two machines that are beside each other end up. -/
inductive Arrives (D : Drive) (m m' : Machine) : Prop
  /-- The process ends in both. -/
  | halted (n n' : Nat) (alike : Alike D.task (m.steps n).world (m'.steps n').world)
    (threads : (m'.steps n').outline = (m.steps n).outline)
    (halted : (m.steps n).world.process.halted = true) : Arrives D m m'
  /-- The callback of the task ends in both, and the main fiber goes on. -/
  | back (n n' d d' : Nat) {u : World}
    (left : Twins D.task (D.guise (D.code d) d) u (m.steps n).world)
    (right : Twins D.task (D.guise (D.code d') d') u (m'.steps n').world)
    (ended : ∀ f, u.thread.fiber? D.task = some f → f.state.terminal)
    (isMain : (m.steps n).world.thread.main = some D.main) (goes : (m.steps n).done = false)
    (goes' : (m'.steps n').done = false)
    (spawners : (m'.steps n').spawners = (m.steps n).spawners) : Arrives D m m'

theorem Arrives.after (n n' : Nat) (arrives : D.Arrives (m.steps n) (m'.steps n')) :
    D.Arrives m m' := by
  cases arrives with
  | halted k k' alike threads halted =>
    simp only [← Machine.steps_add] at alike threads halted
    exact .halted (n + k) (n' + k') alike threads halted
  | back k k' d d' left right ended isMain goes goes' spawners =>
    simp only [← Machine.steps_add] at left right isMain goes goes' spawners
    exact .back (n + k) (n' + k') d d' left right ended isMain goes goes' spawners

/-- The thread of the task keeps its main fiber in the next step. -/
theorem On.keepsMain (on : D.On d m) (halted : m.step.world.process.halted = false) {t : Thread}
    (there : m.step.threads[m.spawners.length]? = some t) : t.main = some D.main := by
  obtain ⟨new, -, keeps⟩ := on.sound.step_adds on.goes
  exact (keeps halted).threads _ _ _ m.threads_running there _ on.runs.main

theorem Abreast.outline (a : D.Abreast d d' u v v' k k') :
    Guise.blank.thread v'.thread = Guise.blank.thread v.thread := by
  rw [a.left.thread, a.right.thread, outline_guise, outline_guise]

/-- Where both pace, the processes stay alike, and the threads but for their code. -/
theorem Paces.alike {r r' : World × World.Signal} (paces : D.Paces d d' r r')
    (spawners : m'.spawners = m.spawners) : Alike D.task (m.take r).world (m'.take r').world ∧
      (m'.take r').outline = (m.take r).outline := by
  cases paces with
  | on a =>
    refine ⟨a.left.alike.symm.trans a.right.alike, ?_⟩
    simp only [Machine.outline, Machine.take, List.map_cons, a.outline, spawners]
  | back left right _ =>
    refine ⟨left.alike.symm.trans right.alike, ?_⟩
    simp only [Machine.outline, Machine.take, List.map_cons, left.thread, right.thread,
      outline_guise, spawners]
  | started child a =>
    have alike := a.left.alike.symm.trans a.right.alike
    refine ⟨⟨alike.process, alike.trace⟩, ?_⟩
    simp only [Machine.outline, Machine.take, List.map_cons, a.outline, spawners]

/-- The codes are still abreast when the thread has ended for which both wait. -/
theorem Abreast.heard {kind : ThreadKind} {w w' : World}
    (a : D.Abreast d d' u v v' (.waiting (.join kind none) :: k) (.waiting (.join kind none) :: k'))
    (e : Ending) (twins : Twins D.task .plain w w') :
    D.Abreast d d' ⟨w.process, u.thread⟩ ⟨w.process, Machine.hear v.thread e⟩
      ⟨w'.process, Machine.hear v'.thread e⟩
      (.waiting (.join kind (some e)) :: k) (.waiting (.join kind (some e)) :: k') := by
  have same : allAtoms k = allAtoms k' := by simpa [Frame.atoms] using a.same
  have base : (Frame.waiting (.join kind (some e)) :: k).getLast?.bind Frame.owner? =
      some D.task := by
    have base := a.base
    cases k with
    | nil => cases base
    | cons fr k => rwa [List.getLast?_cons_of_ne_nil (by simp)] at base ⊢
  rw [Machine.hear_eq e a.frames.1, Machine.hear_eq e a.frames.2]
  exact ⟨⟨(Drive.goOn a.left _).thread, rfl, rfl⟩,
    ⟨(Drive.goOn a.right _).thread, twins.process, twins.trace⟩, Frame.allAtoms_congr _ same, base⟩

/-- A thread that both start does the same in both, and then the code goes on behind it. -/
theorem Beside.waits {kind : ThreadKind} {child : Thread} (b : D.Beside d d' m m')
    (started : m.world.step = (v, .started child)) (started' : m'.world.step = (v', .started child))
    (a : D.Abreast d d' u v v' (.waiting (.join kind none) :: k) (.waiting (.join kind none) :: k'))
    (going : m.step.world.process.halted = false) :
    (∃ n, D.Beside d d' (m.steps (n + 1)) (m'.steps (n + 1))) ∨ D.Arrives m m' := by
  have steps : ∀ n, m.steps (n + 1) = (m.take (v, .started child)).steps n ∧
      m'.steps (n + 1) = (m'.take (v', .started child)).steps n := fun n => by
    rw [Machine.steps_of_step b.left.goes, Machine.steps_of_step b.right.goes, Machine.step_eq,
      Machine.step_eq, started, started']
    exact ⟨rfl, rfl⟩
  have isMain : v.thread.main = some D.main := by
    refine b.left.keepsMain going ?_
    rw [Machine.step_eq, started]
    simp [Machine.threads, Machine.take]
  have begun := b.left.sound.step b.left.goes going
  rw [Machine.step_eq, started] at begun
  have inside : Machine.Inside D.task v.thread v'.thread m.spawners (m.take (v, .started child))
      (m'.take (v', .started child)) := by
    have alike := a.left.alike.symm.trans a.right.alike
    refine ⟨⟨(Guise.plain_thread child).symm, alike.process, alike.trace⟩, ⟨[], rfl, ?_⟩,
      Machine.finished_of_goes (m := m) b.left.goes,
      Machine.finished_of_goes (m := m') b.right.goes⟩
    rw [← b.spawners]
    rfl
  obtain ⟨n, ⟨inside, ended⟩ | ⟨e, w, w', twins, eq, eq'⟩⟩ := inside.returns begun
  · refine .inr (.halted (n + 1) (n + 1) ?_ ?_ ?_)
    · rw [(steps n).1, (steps n).2]
      exact inside.twins.alike
    · rw [(steps n).1, (steps n).2]
      exact inside.outline a.outline
    · rw [(steps n).1]
      exact ended
  · rw [← (steps n).1] at eq
    rw [← (steps n).2] at eq'
    have a : D.Abreast d d' ⟨w.process, u.thread⟩ (m.steps (n + 1)).world (m'.steps (n + 1)).world
        (.waiting (.join kind (some e)) :: k) (.waiting (.join kind (some e)) :: k') := by
      rw [eq, eq']
      exact a.heard e twins
    cases halted : w.process.halted with
    | true =>
      refine .inr (.halted (n + 1) (n + 1) (a.left.alike.symm.trans a.right.alike) ?_ ?_)
      · have outline := a.outline
        rw [eq, eq'] at outline ⊢
        simp only [Machine.outline, List.map_cons, outline]
      · rw [eq]
        exact halted
    | false =>
      refine .inl ⟨n, b.later a ?_ ?_ ?_ ?_ (by omega) (by omega)⟩
      · rw [eq]
        exact halted
      · rw [eq']
        exact twins.halted.trans halted
      · rw [eq, Machine.hear_main]
        exact isMain
      · rw [eq, eq']

/-- Where both threads go on after a step, the main fiber is in its place and the same
threads wait. -/
theorem Beside.stepped (b : D.Beside d d' m m') (left : m.world.step = (v, .running))
    (right : m'.world.step = (v', .running)) (going : (m.steps 1).world.process.halted = false)
    (alike : Alike D.task (m.steps 1).world (m'.steps 1).world) :
    (m.steps 1).world = v ∧ (m'.steps 1).world = v' ∧ (m.steps 1).done = false ∧
      (m'.steps 1).done = false ∧ v.thread.main = some D.main ∧
      (m'.steps 1).spawners = (m.steps 1).spawners := by
  have one : m.steps 1 = { m with world := v } := by
    rw [Machine.steps_of_step b.left.goes]
    exact Machine.step_of_running left
  have one' : m'.steps 1 = { m' with world := v' } := by
    rw [Machine.steps_of_step b.right.goes]
    exact Machine.step_of_running right
  rw [one] at going alike ⊢
  rw [one'] at alike ⊢
  have isMain : v.thread.main = some D.main := by
    have step : m.step = { m with world := v } := Machine.step_of_running left
    refine b.left.keepsMain (by rw [step]; exact going) ?_
    rw [step]
    exact Machine.threads_running _
  exact ⟨rfl, rfl, Machine.goes_of_going b.left.goes going,
    Machine.goes_of_going b.right.goes (alike.halted.trans going), isMain, b.spawners⟩

/-- What a step of both comes to, once the threads have ended that it starts. -/
theorem Beside.onward (b : D.Beside d d' m m') (paces : D.Paces d d' m.world.step m'.world.step) :
    (∃ n, D.Beside d d' (m.steps (n + 1)) (m'.steps (n + 1))) ∨ D.Arrives m m' := by
  obtain ⟨alike, outline⟩ := paces.alike b.spawners
  have one : m.steps 1 = m.take m.world.step := by
    rw [Machine.steps_of_step b.left.goes, Machine.step_eq]
    rfl
  have one' : m'.steps 1 = m'.take m'.world.step := by
    rw [Machine.steps_of_step b.right.goes, Machine.step_eq]
    rfl
  rw [← one, ← one'] at alike outline
  cases halted : (m.steps 1).world.process.halted with
  | true => exact .inr (.halted 1 1 alike outline halted)
  | false =>
    have going : m.step.world.process.halted = false := by
      rwa [one, ← Machine.step_eq] at halted
    clear one one'
    generalize left : m.world.step = r at paces
    generalize right : m'.world.step = r' at paces
    cases paces with
    | started child a => exact b.waits left right a going
    | on a =>
      obtain ⟨rfl, rfl, goes, goes', isMain, spawners⟩ := b.stepped left right halted alike
      exact .inl ⟨0, b.later a goes goes' isMain spawners (Nat.le_succ d) (Nat.le_succ d')⟩
    | back ran ran' ended =>
      obtain ⟨rfl, rfl, goes, goes', isMain, spawners⟩ := b.stepped left right halted alike
      exact .inr (.back 1 1 d d' ran ran' ended isMain goes goes' spawners)

/-- Both ask another fiber to suspend itself. -/
theorem Beside.pause_paces {manner : Manner} {ref : FiberRef} {rest rest' : List Op}
    (b : D.Beside d d' m m')
    (frames : m.world.thread.frames = .ops (.pause manner ref :: rest) :: k)
    (frames' : m'.world.thread.frames = .ops (.pause manner ref :: rest') :: k')
    (same : allAtoms (.ops rest :: k) = allAtoms (.ops rest' :: k'))
    (other : ((m.world.goOn (.ops rest :: k)).fetch ref).2 ≠ some D.task) :
    D.Paces d d' m.world.step m'.world.step := by
  obtain ⟨body, runs, here, a⟩ := b.begins frames same
  rw [World.step, World.step, frames, frames']
  exact Drive.pause_paces a here runs body other

/-- Two machines that are beside each other come to the same end. -/
theorem Beside.arrives (b : D.Beside d d' m m') : D.Arrives m m' := by
  generalize weight : m.weight + m'.weight = w
  induction w using Nat.strongRecOn generalizing d d' m m' with
  | ind w ih =>
    have again : ∀ (n n' : Nat) {d₂ d₂'}, D.Beside d₂ d₂' (m.steps n) (m'.steps n') →
        0 < n + n' → D.Arrives m m' := by
      intro n n' d₂ d₂' next some
      have lighter := (b.left.sound.steps_lighter n).resolve_left (by simp [next.left.goes])
      have lighter' := (b.right.sound.steps_lighter n').resolve_left (by simp [next.right.goes])
      exact (ih _ (by omega) next rfl).after n n'
    have onward : D.Paces d d' m.world.step m'.world.step → D.Arrives m m' := by
      intro paces
      rcases b.onward paces with ⟨n, next⟩ | arrives
      · exact again (n + 1) (n + 1) next (by omega)
      · exact arrives
    obtain ⟨fr, k, frames⟩ := b.left.frames_cons
    obtain ⟨fr', k', frames'⟩ := b.right.frames_cons
    cases busy : fr.isIdle with
    | true =>
      obtain ⟨n, d₂, drifts⟩ := b.left.idle frames busy
      exact again (n + 1) 0 (b.drift drifts) (by omega)
    | false =>
      cases busy' : fr'.isIdle with
      | true =>
        obtain ⟨n, d₂, drifts⟩ := b.right.idle frames' busy'
        exact again 0 (n + 1) (b.symm.drift drifts).symm (by omega)
      | false =>
        have same := b.same
        rw [frames, frames'] at same
        have meets := Frame.meets same busy busy'
        by_cases pause : ∃ manner ref rest, fr = .ops (.pause manner ref :: rest)
        · obtain ⟨manner, ref, rest, rfl⟩ := pause
          cases meets with
          | request _ _ same =>
            by_cases fetched : ((m.world.goOn (.ops rest :: k)).fetch ref).2 = some D.task
            · exact again 2 2 (b.pauses frames frames' same fetched) (by omega)
            · exact onward (b.pause_paces frames frames' same fetched)
          | frame _ ends => exact absurd rfl (ends _)
        · exact onward (b.paces frames busy (by rwa [frames, frames'])
            fun manner ref rest eq => pause ⟨manner, ref, rest, eq⟩)

/-! ## 3. The answer to the request that drives -/

/-- Where the main fiber is at home, no code of it is parked. -/
theorem undress {fs : List Frame} {h : List FiberId} {w : World}
    (twins : Twins D.task (D.guise fs d) u w) (sound : w.thread.Sound none .exec h)
    (isMain : w.thread.main = some D.main) (fs' : List Frame) (d' : Nat) :
    (D.guise fs' d').thread u.thread = u.thread.goOn fs' := by
  have same : ∀ f ∈ u.thread.fibers, (D.guise fs' d').fiber f = f := by
    intro f mem
    by_cases mine : f.id = D.main
    · have there : (D.guise fs d).fiber f ∈ w.thread.fibers := by
        rw [twins.thread]
        exact List.mem_map_of_mem mem
      have presides := (sound.fits _ there).presides (isMain.trans (congrArg some mine.symm))
      cases presides with
      | home noStack callback state context =>
        obtain ⟨id, lease, state, context₀, pending, handles⟩ := f
        have none : context₀ = none := by simpa [Guise.fiber] using context
        have unbound : pending = .none := by simpa [Guise.fiber] using callback
        simp [Guise.fiber, none, unbound]
    · exact guise_fiber_of_ne mine
  simp only [Guise.thread, List.map_congr_left same, List.map_id']
  rfl

/-- The main fiber finds that the task has ended. -/
theorem steps_driven {n : Nat} {f : Fiber} (goes : (m.steps n).done = false)
    (frames : (m.steps n).world.thread.frames = D.code d)
    (found : (m.steps n).world.thread.fiber? D.task = some f) (terminal : f.state.terminal = true) :
    m.steps (n + 1) = { m.steps n with world := ((((m.steps n).world.goOn D.rest).release
      [D.task]).conclude "drive" (.driven d f.state)).1 } := by
  have found : ((m.steps n).world.goOn D.rest).thread.fiber? D.task = some f := found
  have step : (m.steps n).world.step = (((m.steps n).world.goOn D.rest).release
      [D.task]).conclude "drive" (.driven d f.state) := by
    simp only [World.step, frames, code, World.carryOn, World.onHeld, found, World.driveOn,
      terminal, Bool.true_or, if_true, World.letGo, World.settle]
    rfl
  have calm : (((m.steps n).world.goOn D.rest).release [D.task]).conclude "drive"
      (.driven d f.state) = (_, .running) := World.conclude_running rfl _ _
  rw [Machine.steps_succ_of_goes goes, Machine.step_of_running (step.trans calm)]

/-- Two machines that are beside each other end alike. -/
theorem Beside.ends (b : D.Beside d d' m m') : SameEnd D.task m m' := by
  cases b.arrives with
  | halted n n' alike threads halted => exact .halted n n' alike threads halted
  | @back n n' d d' u left right ended isMain goes goes' spawners =>
    have sound := (b.left.sound.steps n).resolve_right (by simp [Machine.halted_of_goes goes])
    obtain ⟨r, here, ready⟩ := sound.running
    have frames : (m.steps n).world.thread.frames = D.code d := congrArg Thread.frames left.thread
    have frames' : (m'.steps n').world.thread.frames = D.code d' :=
      congrArg Thread.frames right.thread
    obtain ⟨rfl, -⟩ := ((ready (Machine.finished_of_goes goes)).below frames).2 D.task rfl
    have held : D.task ∈ Frame.allHandles (m.steps n).world.thread.frames := by
      rw [frames]
      simp [code, Frame.handles, Pending.handles]
    obtain ⟨f, found⟩ := here.thread.exists_of_held held
    have thread := undress left here.thread isMain
    have same : (m.steps n).world.thread = u.thread.goOn (D.code d) :=
      left.thread.trans (thread _ _)
    have same' : (m'.steps n').world.thread = u.thread.goOn (D.code d') :=
      right.thread.trans (thread _ _)
    have found₀ : u.thread.fiber? D.task = some f := by
      rw [same] at found
      exact found
    have found' : (m'.steps n').world.thread.fiber? D.task = some f := by
      rw [same']
      exact found₀
    have terminal := ended f found₀
    have twins : Twins D.task .plain ((m.steps n).world.goOn D.rest)
        ((m'.steps n').world.goOn D.rest) := by
      refine ⟨?_, (left.alike.symm.trans right.alike).process,
        (left.alike.symm.trans right.alike).trace⟩
      rw [Guise.plain_thread]
      simp only [World.goOn, World.onThread, same, same']
      rfl
    have left := steps_driven goes frames found terminal
    have right := steps_driven goes' frames' found' terminal
    refine .driven (n + 1) (n' + 1) d d' (World.release_twins twins [D.task]) terminal
      (congrArg Machine.world left) (congrArg Machine.world right) ?_
    rw [left, right]
    exact spawners

end Drive

end FiberEngine
