/-
FiberEngine.Proofs.Lockstep — a thread that does the same in two machines.

Two threads that differ by their code, or by what it has left in the trace, start a
thread with the same script. Until this one ends, both machines make the same steps,
and also the threads that it starts do the same: `Inside.step` says so of one step,
and `Inside.returns` that both come to the end of the thread together, if the process
lasts so long.
-/
import FiberEngine.Proofs.Blindness
import FiberEngine.Proofs.Weights

namespace FiberEngine.Machine

variable {x : FiberId} {t t' : Thread} {rest : List Thread} {m m' : Machine}

/-- The same thread runs in both machines, on behalf of threads that need not be the same. -/
structure Inside (x : FiberId) (t t' : Thread) (rest : List Thread) (m m' : Machine) : Prop where
  twins : Twins x .plain m.world m'.world
  spawners : ∃ inner, m.spawners = inner ++ t :: rest ∧ m'.spawners = inner ++ t' :: rest
  unfinished : m.finished = false
  unfinished' : m'.finished = false

/-- The thread has ended in both machines, and those that wait for it have been told. -/
def Returned (x : FiberId) (t t' : Thread) (rest : List Thread) (m m' : Machine) : Prop :=
  ∃ e v v', Twins x .plain v v' ∧ m = ⟨⟨v.process, hear t e⟩, rest, false⟩ ∧
    m' = ⟨⟨v'.process, hear t' e⟩, rest, false⟩

theorem Inside.done (h : Inside x t t' rest m m') : m'.done = m.done := by
  rw [Machine.done, Machine.done, h.unfinished, h.unfinished', h.twins.halted]

/-- Another thread in both worlds. -/
theorem twins_on {w w' : World} (twins : Twins x .plain w w') (t : Thread) :
    Twins x .plain ⟨w.process, t⟩ ⟨w'.process, t⟩ :=
  ⟨(Guise.plain_thread t).symm, twins.process, twins.trace⟩

theorem Inside.step (h : Inside x t t' rest m m') :
    Inside x t t' rest m.step m'.step ∨ Returned x t t' rest m.step m'.step := by
  have agree := World.step_agree h.twins
  obtain ⟨inner, left, right⟩ := h.spawners
  have unfinished := h.unfinished
  have unfinished' := h.unfinished'
  rw [step_eq, step_eq]
  generalize m.world.step = r, m'.world.step = r' at agree ⊢
  obtain @⟨v, v', _ | e | child, twins⟩ := agree
  · exact .inl ⟨twins, h.spawners, unfinished, unfinished'⟩
  · have torn := World.retire_twins (World.releaseSlots_twins twins)
    cases inner with
    | nil =>
      refine .inr ⟨e, _, _, torn, ?_, ?_⟩
      · simp only [take, finishThread, left, List.nil_append, unfinished]
      · simp only [take, finishThread, right, List.nil_append, unfinished']
    | cons parent inner =>
      refine .inl ⟨?_, ⟨inner, ?_, ?_⟩, ?_, ?_⟩ <;>
        simp only [take, finishThread, left, right, List.cons_append, unfinished, unfinished']
      exact twins_on torn _
  · refine .inl ⟨twins_on twins child, ⟨v.thread :: inner, ?_, ?_⟩, unfinished, unfinished'⟩
    · simp only [take, left, List.cons_append]
    · simp only [take, right, List.cons_append, World.sameThread twins]

/-- Both come to the end of the thread at once, or to the end of the process. -/
theorem Inside.returns (h : Inside x t t' rest m m') (sound : m.Sound) :
    ∃ n, (Inside x t t' rest (m.steps n) (m'.steps n) ∧
        (m.steps n).world.process.halted = true) ∨
      Returned x t t' rest (m.steps n) (m'.steps n) := by
  generalize weight : m.weight = w
  induction w using Nat.strongRecOn generalizing m m' with
  | ind w ih =>
    have on : ∀ {n}, m.done = false → m.steps (n + 1) = m.step.steps n ∧
        m'.steps (n + 1) = m'.step.steps n := fun goes =>
      ⟨steps_of_step goes _, steps_of_step (h.done.trans goes) _⟩
    cases goes : m.done with
    | true =>
      have halted : m.world.process.halted = true := by
        rwa [Machine.done, h.unfinished, Bool.false_or] at goes
      exact ⟨0, .inl ⟨h, halted⟩⟩
    | false =>
      rcases h.step with inside | returned
      · cases halted : m.step.world.process.halted with
        | true =>
          refine ⟨1, .inl ?_⟩
          rw [(on goes).1, (on goes).2]
          exact ⟨inside, halted⟩
        | false =>
          have after := sound.step goes halted
          have lighter := (step_lighter sound goes).resolve_left (by
            simp [Machine.done, inside.unfinished, halted])
          obtain ⟨n, comes⟩ := ih _ (by omega) inside after rfl
          exact ⟨n + 1, by rwa [(on goes).1, (on goes).2]⟩
      · refine ⟨1, .inr ?_⟩
        rw [(on goes).1, (on goes).2]
        exact returned

end FiberEngine.Machine
