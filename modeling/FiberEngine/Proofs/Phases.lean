/-
FiberEngine.Proofs.Phases — the life of one fiber, as far as the acts tell.

A task is created, gets a stack and a callback, and waits. It may be bound to
other callbacks before it enters one. Once it runs, it suspends itself and is
resumed any number of times, until its callback is destroyed and it ends; then
only a reset starts a new round. A fiber that waits or has ended may be
destroyed: its stack is given back, and a callback that it never entered is
destroyed after that. A main fiber is created and destroyed, and nothing else
happens to it.

`Phase.Turns` is this automaton, and `Life id acts phase` says that the acts
about a fiber are accepted and lead to a phase. The automaton is deterministic,
so that the phase is the only one: `Course.unique`. `Fiber.In` says how a fiber
looks in each phase.
-/
import FiberEngine.Proofs.Sound

namespace FiberEngine

/-! ## 1. Phases -/

/-- Where a fiber is in its life. -/
inductive Phase where
  | unborn
  /-- It stands for the code of its thread. -/
  | main
  /-- It is bound to a callback that it has not entered. -/
  | waiting (lease : StackLease) (cb : Callback)
  | running (lease : StackLease) (cb : Callback)
  | parked (lease : StackLease) (cb : Callback) (p : Parking)
  /-- Its callback is destroyed, and it is about to end. -/
  | ending (lease : StackLease)
  | finished (lease : StackLease) (last : FiberState)
  /-- It is destroyed, but its stack and a callback that it never entered are not. -/
  | dead (lease : StackLease) (cb : Option Callback)
  /-- Only a callback that it never entered is left of it. -/
  | orphaned (cb : Callback)
  | gone

/-- A fiber can be in the phase when no move is being made. -/
def Phase.lasts : Phase → Bool
  | .ending _ | .dead _ _ | .orphaned _ => false
  | _ => true

/-- The fiber that an act is about. -/
def Act.subject? : Act → Option FiberId
  | .created id | .equipped id _ _ | .reset id _ _ | .resumed id _ | .yielded id _ | .shed id _ _
  | .ended id _ | .destroyed id _ | .returned id _ _ | .abandoned id _ => some id
  | .refused _ | .granted _ | .freed _ => none

/-- What may happen to a fiber in each phase, and which phase follows. -/
inductive Phase.Turns (id : FiberId) : Phase → Act → Phase → Prop
  | created : Turns id .unborn (.created id) .main
  | equipped (lease : StackLease) (cb : Callback) :
    Turns id .main (.equipped id lease cb) (.waiting lease cb)
  | replaced (lease : StackLease) (old cb : Callback) :
    Turns id (.waiting lease old) (.reset id cb (some old)) (.waiting lease cb)
  | renewed (lease : StackLease) (last : FiberState) (cb : Callback) :
    Turns id (.finished lease last) (.reset id cb none) (.waiting lease cb)
  | entered (lease : StackLease) (cb : Callback) :
    Turns id (.waiting lease cb) (.resumed id .init) (.running lease cb)
  | yielded (lease : StackLease) (cb : Callback) (p : Parking) :
    Turns id (.running lease cb) (.yielded id p.state) (.parked lease cb p)
  | resumed (lease : StackLease) (cb : Callback) (p : Parking) :
    Turns id (.parked lease cb p) (.resumed id p.state) (.running lease cb)
  | shed (lease : StackLease) (cb : Callback) :
    Turns id (.running lease cb) (.shed id cb.tag cb.keep) (.ending lease)
  | ended (lease : StackLease) {last : FiberState} (terminal : last.terminal) :
    Turns id (.ending lease) (.ended id last) (.finished lease last)
  | unused (lease : StackLease) (cb : Callback) :
    Turns id (.waiting lease cb) (.destroyed id .init) (.dead lease (some cb))
  | used (lease : StackLease) {last : FiberState} (terminal : last.terminal) :
    Turns id (.finished lease last) (.destroyed id last) (.dead lease none)
  | returned (lease : StackLease) {current : Option FiberId} (apart : current ≠ some id) :
    Turns id (.dead lease none) (.returned id lease current) .gone
  | bereft (lease : StackLease) (cb : Callback) {current : Option FiberId}
    (apart : current ≠ some id) :
    Turns id (.dead lease (some cb)) (.returned id lease current) (.orphaned cb)
  | abandoned (cb : Callback) : Turns id (.orphaned cb) (.abandoned id cb) .gone
  | parted : Turns id .main (.destroyed id .exec) .gone

theorem Parking.state_injective {p q : Parking} (h : p.state = q.state) : p = q := by
  cases p <;> cases q <;> first | rfl | cases h

/-- In each phase, an act leads to one phase at most. -/
theorem Phase.Turns.unique {id : FiberId} {phase next next' : Phase} {act : Act}
    (h : Turns id phase act next) (h' : Turns id phase act next') : next = next' := by
  generalize same : act = act' at h'
  cases h with
  | yielded lease cb p =>
    cases h' with
    | yielded _ _ q => rw [Parking.state_injective (Act.yielded.inj same).2]
    | _ => cases same
  | _ =>
    cases h' <;> cases same
    all_goals rfl

theorem Phase.Turns.subject {id : FiberId} {phase next : Phase} {act : Act}
    (h : Turns id phase act next) : act.subject? = some id := by
  cases h <;> rfl

/-! ## 2. Courses -/

/-- The acts about a fiber lead from one condition to another, as `turns` says.
Acts about other fibers do not matter. -/
inductive Course {σ : Type} (id : FiberId) (turns : σ → Act → σ → Prop) (first : σ) :
    List Act → σ → Prop
  | start : Course id turns first [] first
  | other {acts : List Act} {s : σ} {act : Act} (before : Course id turns first acts s)
    (about : act.subject? ≠ some id) : Course id turns first (acts ++ [act]) s
  | turn {acts : List Act} {s next : σ} {act : Act} (before : Course id turns first acts s)
    (leads : turns s act next) : Course id turns first (acts ++ [act]) next

/-- Conditions that change by acts about one fiber, each act to one condition at most. -/
structure Orderly {σ : Type} (id : FiberId) (turns : σ → Act → σ → Prop) : Prop where
  unique : ∀ {s next next' : σ} {act : Act}, turns s act next → turns s act next' → next = next'
  subject : ∀ {s next : σ} {act : Act}, turns s act next → act.subject? = some id

namespace Course

variable {σ : Type} {id : FiberId} {turns : σ → Act → σ → Prop} {first s next : σ}
variable {acts more : List Act}

theorem skip (course : Course id turns first acts s)
    (about : ∀ act ∈ more, act.subject? ≠ some id) : Course id turns first (acts ++ more) s := by
  induction more generalizing acts with
  | nil => simpa using course
  | cons act rest ih =>
    have one := course.other (about act List.mem_cons_self)
    have whole := ih one fun act mem => about act (List.mem_cons_of_mem _ mem)
    simpa using whole

/-- What is seen of the conditions changes with them. -/
theorem map {τ : Type} (view : σ → τ) {turns' : τ → Act → τ → Prop}
    (follows : ∀ {s next : σ} {act : Act}, turns s act next → turns' (view s) act (view next))
    (course : Course id turns first acts s) : Course id turns' (view first) acts (view s) := by
  induction course with
  | start => exact .start
  | other before about ih => exact ih.other about
  | turn before leads ih => exact ih.turn (follows leads)

/-- Some acts lead to one condition at most. -/
theorem unique (orderly : Orderly id turns) (course : Course id turns first acts s)
    (course' : Course id turns first acts next) : s = next := by
  induction course generalizing next with
  | start =>
    generalize same : ([] : List Act) = acts' at course'
    cases course' with
    | start => rfl
    | other before about => simp at same
    | turn before turns => simp at same
  | @other acts s act before about ih =>
    generalize same : acts ++ [act] = acts' at course'
    cases course' with
    | start => simp at same
    | other before' about' =>
      obtain ⟨rfl, -⟩ := List.append_inj' same rfl
      exact ih before'
    | turn before' turns =>
      obtain ⟨-, last⟩ := List.append_inj' same rfl
      obtain rfl := List.singleton_inj.mp last
      exact absurd (orderly.subject turns) about
  | @turn acts s next act before turns ih =>
    generalize same : acts ++ [act] = acts' at course'
    cases course' with
    | start => simp at same
    | other before' about' =>
      obtain ⟨-, last⟩ := List.append_inj' same rfl
      obtain rfl := List.singleton_inj.mp last
      exact absurd (orderly.subject turns) about'
    | turn before' turns' =>
      obtain ⟨rfl, last⟩ := List.append_inj' same rfl
      obtain rfl := List.singleton_inj.mp last
      obtain rfl := ih before'
      exact orderly.unique turns turns'

/-- When a condition has changed, the last act about the fiber has led to the new one. -/
theorem since (orderly : Orderly id turns) (before : Course id turns first acts s)
    (after : Course id turns first (acts ++ more) next) (moved : next ≠ s) :
    ∃ (left : List Act) (act : Act) (rest : List Act) (prev : σ),
      more = left ++ act :: rest ∧ turns prev act next ∧ ∀ a ∈ rest, a.subject? ≠ some id := by
  generalize whole : acts ++ more = all at after
  induction after generalizing more with
  | start =>
    obtain ⟨rfl, rfl⟩ := List.append_eq_nil_iff.mp whole
    exact absurd (Course.start.unique orderly before) moved
  | @other all next act before' about ih =>
    rcases more.eq_nil_or_concat with rfl | ⟨more, last, rfl⟩
    · rw [List.append_nil] at whole
      exact absurd ((before'.other about).unique orderly (whole ▸ before)) moved
    · rw [List.concat_eq_append, ← List.append_assoc] at whole
      obtain ⟨shorter, same⟩ := List.append_inj' whole rfl
      obtain rfl := List.singleton_inj.mp same
      obtain ⟨left, act, rest, prev, rfl, turns, quiet⟩ := ih moved shorter
      refine ⟨left, act, rest ++ [last], prev, by simp, turns, ?_⟩
      intro a mem
      rcases List.mem_append.mp mem with mem | mem
      · exact quiet a mem
      · rw [List.mem_singleton.mp mem]
        exact about
  | @turn all prev next act before' turns ih =>
    rcases more.eq_nil_or_concat with rfl | ⟨more, last, rfl⟩
    · rw [List.append_nil] at whole
      exact absurd ((before'.turn turns).unique orderly (whole ▸ before)) moved
    · rw [List.concat_eq_append, ← List.append_assoc] at whole
      obtain ⟨-, same⟩ := List.append_inj' whole rfl
      obtain rfl := List.singleton_inj.mp same
      exact ⟨more, last, [], prev, by simp, turns, by simp⟩

end Course

theorem Phase.orderly (id : FiberId) : Orderly id (Phase.Turns id) :=
  ⟨Phase.Turns.unique, Phase.Turns.subject⟩

/-- The acts about a fiber lead to a phase. -/
abbrev Life (id : FiberId) : List Act → Phase → Prop :=
  Course id (Phase.Turns id) .unborn

/-! ## 3. How a fiber looks in a phase -/

/-- A fiber is in a phase. The frame at the end of the code that runs is `base`. -/
inductive Fiber.In (base : Option Frame) (f : Fiber) : Phase → Prop
  | main (noStack : f.lease = none) : In base f .main
  | waiting {lease : StackLease} {cb : Callback} (onStack : f.lease = some lease)
    (state : f.state = .init) (context : f.context = some .fresh) (callback : f.pending = some cb) :
    In base f (.waiting lease cb)
  /-- The code that runs ends with its callback. -/
  | running {lease : StackLease} {cb : Callback} (onStack : f.lease = some lease)
    (state : f.state = .exec) (callback : f.pending = none)
    (code : base = some (.task f.id cb.tag cb.keep)) : In base f (.running lease cb)
  /-- The code that it saved ends with its callback. -/
  | parked {lease : StackLease} {cb : Callback} {p : Parking} {q : Pending} {k : List Frame}
    (onStack : f.lease = some lease) (state : f.state = p.state) (callback : f.pending = none)
    (context : f.context = some (.suspended (.waiting q :: k))) (parks : q.parking? = some p)
    (code : k.getLast? = some (.task f.id cb.tag cb.keep)) : In base f (.parked lease cb p)
  | finished {lease : StackLease} {last : FiberState} (onStack : f.lease = some lease)
    (state : f.state = last) (terminal : last.terminal) (callback : f.pending = none)
    (context : ∀ k, f.context ≠ some (.suspended k)) : In base f (.finished lease last)

namespace Fiber.In

variable {base base' : Option Frame} {f : Fiber} {phase : Phase}

theorem lasts (h : f.In base phase) : phase.lasts := by
  cases h <;> rfl

/-- How many handles a fiber has does not matter to its phase. -/
theorem handles (h : f.In base phase) (n : Nat) : In base { f with handles := n } phase := by
  cases h with
  | main noStack => exact .main noStack
  | waiting onStack state context callback => exact .waiting onStack state context callback
  | running onStack state callback code => exact .running onStack state callback code
  | parked onStack state callback context parks code =>
    exact .parked onStack state callback context parks code
  | finished onStack state terminal callback context =>
    exact .finished onStack state terminal callback context

/-- To a fiber that does not run, other code does not matter. -/
theorem rebase (h : f.In base phase) (idle : f.lease = none ∨ f.state ≠ .exec) :
    f.In base' phase := by
  cases h with
  | main noStack => exact .main noStack
  | waiting onStack state context callback => exact .waiting onStack state context callback
  | running onStack state callback code =>
    rcases idle with noStack | idle
    · cases onStack.symm.trans noStack
    · exact absurd state idle
  | parked onStack state callback context parks code =>
    exact .parked onStack state callback context parks code
  | finished onStack state terminal callback context =>
    exact .finished onStack state terminal callback context

/-- A task that runs is in its callback, with which the code ends. -/
theorem of_runs (h : f.In base phase) (runs : f.Runs .exec) :
    ∃ lease cb, phase = .running lease cb ∧ f.lease = some lease ∧
      base = some (.task f.id cb.tag cb.keep) := by
  have exec : f.state = .exec := runs.state
  cases h with
  | main noStack => exact absurd noStack runs.onStack
  | waiting onStack state => cases exec.symm.trans state
  | running onStack state callback code => exact ⟨_, _, rfl, onStack, code⟩
  | @parked _ _ p _ _ _ state => cases p <;> cases exec.symm.trans state
  | finished onStack state terminal =>
    rw [← state, exec] at terminal
    cases terminal

/-- A task whose callback has ended is over. -/
theorem of_ended {last : FiberState} (h : f.In base phase) (runs : f.Runs last)
    (terminal : last.terminal) : ∃ lease, phase = .finished lease last ∧ f.lease = some lease := by
  have ended := terminal
  rw [← runs.state] at ended
  cases h with
  | main noStack => exact absurd noStack runs.onStack
  | waiting onStack state => simp [state, FiberState.terminal] at ended
  | running onStack state => simp [state, FiberState.terminal] at ended
  | @parked _ _ p _ _ _ state => cases p <;> simp [state, Parking.state, FiberState.terminal] at ended
  | finished onStack state => exact ⟨_, by rw [← state, runs.state], onStack⟩

end Fiber.In

end FiberEngine
