/-
FiberEngine.Proofs.Losses — where fibers are destroyed.

`Stage.Frees` lists the occasions on which a handle is released, and `Machine.Passes` the stages
at which they arise. Here it is shown that fibers are destroyed on no others: whatever fiber is
gone behind a step, the step has passed a stage at which a handle is released, the fiber is one
of those that fall with this handle, and the step has gone on from what the release has come to
(`Machine.Fells`).

Of all moves, only a release and the end of a callback destroy anything, since the acts of a
move tell which fibers it destroys (`fells_of_move`). Both release a list of handles, and a
fiber that is gone behind the list has fallen with one of them (`falls_with_one`). The main
statement is `fells_of_gone`.
-/
import FiberEngine.Proofs.Cascades

namespace FiberEngine

variable {others : List FiberId} {texts : String → Prop} {x : FiberId}

/-! ## 1. A list of handles -/

theorem Thread.mem_ids {t : Thread} : x ∈ t.ids ↔ ∃ f, t.fiber? x = some f := by
  rw [← Option.isSome_iff_exists, Thread.fiber?, List.find?_isSome]
  simp [Thread.ids]

namespace World

variable {w : World} {id : FiberId} {ids h dead : List FiberId}

/-- A fiber that is gone behind the release of some handles has fallen with one of them. -/
theorem falls_with_one (there : x ∈ w.thread.ids) (gone : x ∉ (w.release ids).thread.ids) :
    ∃ before id after, ids = before ++ id :: after ∧ x ∈ (w.release before).thread.ids ∧
      x ∉ ((w.release before).release [id]).thread.ids := by
  induction ids generalizing w with
  | nil =>
    rw [release] at gone
    exact absurd there gone
  | cons id rest ih =>
    by_cases lasts : x ∈ (w.release [id]).thread.ids
    · rw [← List.singleton_append, release_append] at gone
      obtain ⟨before, id', after, rfl, still, falls⟩ := ih lasts gone
      rw [← release_append w [id] before] at still falls
      exact ⟨id :: before, id', after, rfl, still, falls⟩
    · exact ⟨[], id, rest, rfl, by rwa [release], by rwa [release.eq_1 w]⟩

/-- A fiber that is gone behind the release of a handle is one of those that fall with it. -/
theorem Cascades.mem_of_gone (cascades : w.Cascades id h dead) (there : x ∈ w.thread.ids)
    (gone : x ∉ (w.release [id]).thread.ids) : x ∈ dead := by
  refine Decidable.byContradiction fun other => ?_
  obtain ⟨f, found⟩ := Thread.mem_ids.mp there
  obtain ⟨n, lasts⟩ := cascades.spared x f found other
  exact gone (Thread.mem_ids.mpr ⟨_, lasts⟩)

end World

/-! ## 2. What falls on the way -/

/-- On the way from the state of a machine to a stage, a fiber falls with a handle. The machine
passes the stage at which this handle is released, and goes on from what the release comes to. -/
inductive Machine.Fells (m : Machine) (x : FiberId) (b : Stage) : Prop
  | intro {texts : String → Prop} {before acts after : List Act} {a c : Stage} {w final : World}
    {id : FiberId} {h more dead : List FiberId}
    (comes : Path texts m.stage before a) (move : Move texts a acts c)
    (goes : Path texts c after b) (passes : m.Passes a) (frees : a.Frees w id h more final)
    (same : c.world.thread.ids = final.thread.ids) (cascades : w.Cascades id h dead)
    (falls : x ∈ dead)

namespace Machine

variable {m : Machine} {a b c : Stage} {before acts after : List Act}

theorem Passes.path (passes : m.Passes a) (path : Path texts a acts b) : m.Passes b := by
  induction path with
  | nil => exact passes
  | snoc path move ih => exact ih.move move

/-- Of all moves, only those that release handles destroy fibers. -/
theorem fells_of_move (sound : m.Sound) (comes : Path texts m.stage before a)
    (move : Move texts a acts c) (goes : Path texts c after b) (there : x ∈ a.world.thread.ids)
    (gone : x ∉ c.world.thread.ids) : m.Fells x b := by
  have passes := Passes.start.path comes
  have here := passes.sound sound
  have dies : x ∈ deaths acts := by
    have leaves : (a.world.thread.ids ++ births acts).Perm (deaths acts ++ c.world.thread.ids) :=
      (move.follows here).leaves
    exact (List.mem_append.mp (leaves.mem_iff.mp (List.mem_append_left _ there))).resolve_right gone
  cases move with
  | @release w r h ids =>
    obtain ⟨first, id, later, rfl, still, falls⟩ := World.falls_with_one there gone
    have frees : Stage.Frees ⟨w, r, .exec, (first ++ id :: later) ++ h⟩ _ id _ _ _ := .listed
    obtain ⟨_, _, sound⟩ := frees.sound here
    have cascades := World.release_cascades_of_sound sound
    exact .intro comes (.release _) goes passes frees rfl cascades
      (cascades.mem_of_gone still falls)
  | @conclude w id tag keep last terminal base =>
    have same : ((w.dropCallback tag keep).onThread fun t => t.setState id last).thread.ids =
        (w.dropCallback tag keep).thread.ids := Thread.ids_update _ _ _ fun _ => rfl
    rw [← World.dropTag_thread w tag] at there
    rw [same] at gone
    obtain ⟨first, y, later, rfl, still, falls⟩ := World.falls_with_one there gone
    have frees : Stage.Frees ⟨w, some id, .exec, (first ++ y :: later) ++ [id]⟩ _ y _ _ _ :=
      .callback ⟨[], tag, first ++ y :: later⟩ rfl
    obtain ⟨_, _, sound⟩ := frees.sound here
    have cascades := World.release_cascades_of_sound sound
    exact .intro comes (.conclude last terminal base) goes passes frees same cascades
      (cascades.mem_of_gone still falls)
  | _ => simp [deaths, Act.death?] at dies

/-- A fiber that is gone behind some moves has fallen in one of them. -/
theorem fells_of_path (sound : m.Sound) (comes : Path texts m.stage acts c)
    (goes : Path texts c after b) (there : x ∈ m.world.thread.ids)
    (gone : x ∉ c.world.thread.ids) : m.Fells x b := by
  induction comes generalizing after with
  | nil => exact absurd there gone
  | @snoc between _ _ _ path move ih =>
    by_cases lasts : x ∈ between.world.thread.ids
    · exact fells_of_move sound path move goes lasts gone
    · exact ih ((Path.nil.snoc move).append goes) lasts

/-! ## 3. Whole runs -/

/-- **Fibers fall with handles.** Let a fiber be gone behind a step of the thread that runs. Then
it has fallen with a handle that the step has released, unless the process has ended meanwhile.
When the script of the thread ends, this is also so of what its slots give up. -/
theorem fells_of_gone (level : Option Level) (hook : ReportHook) (script : List Op) (n : Nat)
    {v : World} {signal : World.Signal} (goes : ((start level hook script).steps n).done = false)
    (step : ((start level hook script).steps n).world.step = (v, signal))
    (going : v.process.halted = false) :
    (∀ x ∈ ((start level hook script).steps n).world.thread.ids, x ∉ v.thread.ids →
      ∃ r, ((start level hook script).steps n).Fells x (v.stage r)) ∧
    ∀ e, signal = .ended e → ∀ x ∈ ((start level hook script).steps n).world.thread.ids,
      x ∉ v.releaseSlots.thread.ids →
        ((start level hook script).steps n).Fells x ⟨v.releaseSlots, none, .exec, []⟩ := by
  have sound := sound_of_goes goes
  obtain ⟨stage, ready⟩ := sound.stage_of_task rfl
  have steps := World.step_steps stage (ready (finished_of_goes goes))
  rw [step] at steps
  cases steps with
  | running comes =>
    refine ⟨fun x there gone => ?_, fun e none => nomatch none⟩
    cases comes with
    | @on r leads ready continues =>
      obtain ⟨_, path⟩ := leads
      exact ⟨r, fells_of_path sound path .nil there gone⟩
    | fallen falls =>
      cases falls with
      | contract comes cause => cases going
      | fault comes ok panics past => cases past.1.symm.trans going
  | ended leads body =>
    obtain ⟨_, path⟩ := leads
    refine ⟨fun x there gone => ⟨none, fells_of_path sound path .nil there gone⟩,
      fun e same x there gone => ?_⟩
    obtain ⟨_, last⟩ := (ended_stays body _).leads
    exact fells_of_path sound (path.append last) .nil there gone
  | @started _ r kind ops k leads body frames =>
    obtain ⟨_, path⟩ := leads
    exact ⟨fun x there gone => ⟨r, fells_of_path sound path .nil there gone⟩,
      fun e none => nomatch none⟩

end Machine

end FiberEngine
