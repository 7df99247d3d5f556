/-
FiberEngine.Proofs.Current — one fiber runs at a time.

`Entry.InOrder` is the law of switching at the moment at which an entry is
written: the thread is in order, what a body writes carries the id of its fiber,
and no two fibers are in `exec`. A task is in `except` only while its fault is
delivered.

`Machine.OneMain` says that a thread creates one main fiber at most: it does so
only while it has none, and it never loses the one that it has. The main
statement is `switching_in_order`.
-/
import FiberEngine.Proofs.History

namespace FiberEngine

/-! ## 1. Entries -/

/-- An entry that is written while the fault of a task is delivered: the report,
or the end of the process over it. -/
def Entry.Delivers (e : Entry) (id : FiberId) : Prop :=
  e.event.FaultOf e.thread id ∨ e.event = .aborted ∨ ∃ o, e.event = .output o

/-- How the thread stands in which an entry is written. -/
structure Entry.InOrder (e : Entry) : Prop where
  stands : e.thread.InOrder .exec ∨
    ∃ id, e.thread.task? = some id ∧ e.thread.InOrder .except ∧ e.Delivers id
  mine : ∀ id, e.thread.task? = some id → e.current = id
  alone : ∀ f ∈ e.thread.fibers, ∀ g ∈ e.thread.fibers,
    f.state = .exec → g.state = .exec → f = g

/-- While a task runs, it is the current fiber. -/
theorem Thread.InOrder.current_of_task {t : Thread} {state : FiberState} (h : t.InOrder state)
    {id : FiberId} (runs : t.task? = some id) : t.currentId = id := by
  cases h with
  | bare _ noTask _ _ => cases noTask.symm.trans runs
  | home _ _ noTask _ _ _ _ => cases noTask.symm.trans runs
  | away _ _ _ _ _ isTask current _ _ _ =>
    rw [current]
    exact Option.some.inj (isTask.symm.trans runs)

/-- At most one fiber of a thread is in `exec`. -/
theorem Thread.InOrder.alone {t : Thread} {state : FiberState} (h : t.InOrder state) {f g : Fiber}
    (hf : f ∈ t.fibers) (hg : g ∈ t.fibers) (runs : f.state = .exec) (runs' : g.state = .exec) :
    f = g := by
  cases h with
  | bare _ _ _ others => exact absurd runs (others f hf).2
  | @home main _ _ _ _ _ _ others =>
    have only : ∀ x ∈ t.fibers, x.state = .exec → x = main := fun x mem runs =>
      Classical.byContradiction fun other => (others x mem other).2 runs
    rw [only f hf runs, only g hg runs']
  | @away main task _ _ _ parked _ _ _ _ _ others =>
    have only : ∀ x ∈ t.fibers, x.state = .exec → x = task := fun x mem runs =>
      Classical.byContradiction fun other =>
        (others x mem (fun same => by simp [same, parked] at runs) other).2 runs
    rw [only f hf runs, only g hg runs']

theorem Entry.inOrder_of_exec {e : Entry} (order : e.thread.InOrder .exec) : e.InOrder :=
  ⟨.inl order, fun _ runs => order.current_of_task runs,
    fun _ hf _ hg runs runs' => order.alone hf hg runs runs'⟩

theorem Entry.inOrder_of_except {e : Entry} {id : FiberId} (order : e.thread.InOrder .except)
    (runs : e.thread.task? = some id) (delivers : e.Delivers id) : e.InOrder :=
  ⟨.inr ⟨id, runs, order, delivers⟩, fun _ runs => order.current_of_task runs,
    fun _ hf _ hg runs runs' => order.alone hf hg runs runs'⟩

theorem Entry.Due.inOrder {texts fatal : String → Prop} {e : Entry} (due : e.Due texts fatal) :
    e.InOrder := by
  cases due with
  | fair fair =>
    cases fair with
    | plain order plain => exact inOrder_of_exec order
    | birth order birth first => exact inOrder_of_exec order
    | fault order runs fault plain => exact inOrder_of_except order runs (.inl fault)
  | torn torn => exact inOrder_of_exec torn.order
  | failed order cause report => exact inOrder_of_exec order
  | last order last =>
    rcases order with order | ⟨id, runs, order⟩
    · exact inOrder_of_exec order
    · exact inOrder_of_except order runs (.inr last)

/-- A main fiber is created in a thread that has none. -/
theorem Entry.Due.main_eq_none {texts fatal : String → Prop} {e : Entry} (due : e.Due texts fatal)
    {id : FiberId} {span : Option String} (created : e.event = .logged (.mainCreated id) span) :
    e.thread.main = none := by
  cases due with
  | fair fair =>
    cases fair with
    | plain order plain =>
      rw [created] at plain
      exact plain.elim
    | @birth id' order birth first =>
      rw [created] at birth
      obtain rfl : id = id' := Option.some.inj birth
      exact first span created
    | fault order runs fault plain =>
      rw [created] at fault
      exact fault.elim
  | torn torn => exact torn.noMain
  | failed order cause report =>
    rw [created] at report
    cases report
  | last order last =>
    rw [created] at last
    rcases last with last | ⟨o, last⟩ <;> cases last

/-! ## 2. Main fibers -/

/-- The entry of the end of a main fiber. -/
def Event.isTeardown : Event → Bool
  | .logged (.mainDestroyed _) _ => true
  | _ => false

namespace Machine

/-- No thread ever loses its main fiber before its end, or gets another one. -/
structure OneMain (run : Nat → Machine) : Prop where
  /-- A main fiber is created in a thread that has none. -/
  first : ∀ n, ∀ e ∈ (run n).world.process.trace.toList, ∀ id span,
    e.event = .logged (.mainCreated id) span → e.thread.main = none
  /-- From one step to a later one, as long as the thread lives. -/
  lasts : ∀ n k, (run (n + k)).world.process.halted = false →
    ∀ (i : Nat) (t u : Thread), (∀ j ≤ k, i < (run (n + j)).threads.length) →
      (run n).threads[i]? = some t → (run (n + k)).threads[i]? = some u → t.KeepsMain u
  /-- Between the entries of one step, from the state before it to the state after it. -/
  within : ∀ n, (run n).done = false → ∃ new,
    (run (n + 1)).world.process.trace.toList = (run n).world.process.trace.toList ++ new ∧
    ((run n).world.thread :: (new.filter fun e => !e.event.isTeardown).map Entry.thread).Pairwise
      Thread.KeepsMain ∧
    ((run (n + 1)).world.process.halted = false →
      ∀ u, (run (n + 1)).threads[(run n).spawners.length]? = some u →
        ∀ e ∈ new, e.thread.KeepsMain u)

variable {level : Option Level} {hook : ReportHook} {script : List Op}

/-- A step from a sound state changes no main fiber. -/
theorem keeps_of_step {n : Nat}
    (goes : ((start level hook script).steps (n + 1)).world.process.halted = false) :
    ∀ (i : Nat) (t u : Thread), ((start level hook script).steps n).threads[i]? = some t →
      ((start level hook script).steps (n + 1)).threads[i]? = some u → t.KeepsMain u := by
  cases undone : ((start level hook script).steps n).done with
  | true =>
    intro i t u before after
    rw [steps_succ_of_done undone, before] at after
    cases after
    exact fun _ isMain => isMain
  | false =>
    obtain ⟨new, -, keeps⟩ := (sound_of_goes undone).step_adds undone
    rw [steps_succ_of_goes undone] at goes ⊢
    exact (keeps goes).threads

/-- A process that goes on has not ended before. -/
theorem going_of_later {n k : Nat}
    (goes : ((start level hook script).steps (n + k)).world.process.halted = false) :
    ((start level hook script).steps n).world.process.halted = false := by
  induction k with
  | zero => exact goes
  | succ k ih =>
    refine ih ?_
    cases undone : ((start level hook script).steps (n + k)).done with
    | true =>
      rw [← Nat.add_assoc, steps_succ_of_done undone] at goes
      exact goes
    | false => exact halted_of_goes undone

theorem oneMain (level : Option Level) (hook : ReportHook) (script : List Op) :
    OneMain fun n => (start level hook script).steps n where
  first n e mem id span created := by
    obtain ⟨k, -, new, mem, -, -, adds⟩ := history mem
    exact (adds.due e mem).main_eq_none created
  lasts n k goes i t u lives before after := by
    induction k generalizing u with
    | zero =>
      cases before.symm.trans after
      exact fun _ isMain => isMain
    | succ k ih =>
      have goes' := going_of_later (n := n + k) (k := 1) goes
      obtain ⟨v, between⟩ : ∃ v, ((start level hook script).steps (n + k)).threads[i]? = some v :=
        ⟨_, List.getElem?_eq_getElem (lives k (Nat.le_succ k))⟩
      have first := ih goes' v (fun j le => lives j (Nat.le_succ_of_le le)) between
      have second := keeps_of_step (n := n + k) goes i v u between after
      exact fun id isMain => second id (first id isMain)
  within n undone := by
    obtain ⟨new, adds, keeps⟩ := (sound_of_goes undone).step_adds undone
    rw [← steps_succ_of_goes undone] at adds keeps
    have steadies : ∀ e, e.Torn → e ∉ new.filter fun e => !e.event.isTeardown := by
      intro e torn mem
      obtain ⟨id, span, event⟩ := torn.torn
      simp [event, Event.isTeardown] at mem
    refine ⟨new, adds.trace, List.pairwise_cons.mpr ⟨?_, ?_⟩,
      fun goes => (keeps goes).entries⟩
    · intro t mem
      obtain ⟨e, there, rfl⟩ := List.mem_map.mp mem
      exact (adds.since e (List.mem_filter.mp there).1).resolve_left fun torn =>
        steadies e torn there
    · refine List.pairwise_map.mpr ((adds.steady.filter _).imp_of_mem fun {e e'} _ mem steady => ?_)
      exact steady.resolve_left fun torn => steadies e' torn mem

/-! ## 3. The law of switching -/

/-- Every entry of a run is written in a thread in order, all threads are in order
between steps, and no thread changes its main fiber. During a step, the threads
that wait are as they were before it. -/
theorem switching_in_order (level : Option Level) (hook : ReportHook) (script : List Op) :
    (∀ n, ∀ e ∈ ((start level hook script).steps n).world.process.trace.toList, e.InOrder) ∧
      (∀ n, ((start level hook script).steps n).world.process.halted = false →
        ∀ t ∈ ((start level hook script).steps n).threads, t.InOrder .exec) ∧
      OneMain fun n => (start level hook script).steps n := by
  refine ⟨?_, ?_, oneMain level hook script⟩
  · intro n e mem
    obtain ⟨k, -, new, mem, -, -, adds⟩ := history mem
    exact (adds.due e mem).inOrder
  · intro n goes t mem
    have sound := sound_of_lasts goes
    rcases List.mem_append.mp mem with mem | mem
    · obtain ⟨r, -, -, -, -, waits⟩ := sound.waiting t (List.mem_reverse.mp mem)
      exact waits.inOrder .exec fun _ => rfl
    · rw [List.mem_singleton.mp mem]
      obtain ⟨r, here, -⟩ := sound.running
      exact here.thread.inOrder .exec fun _ => rfl

end Machine

end FiberEngine
