/-
FiberEngine.Proofs.Suspension — a step of a task, whatever its code is besides.

A task that is driven runs with two codes that have the same atoms, in worlds that are
one world in two guises (`Drive.Abreast`). Where both do the same next, three things
can happen: the task goes on in both, it waits for a thread in both, or its callback
has ended in both (`Drive.Paces`).

Leaving frames leaves the same frame on top of both codes, so that a panic, an early
return and the answer to a request come to the same. `settle_paces` says so of all
that can follow a request.
-/
import FiberEngine.Proofs.Rounds
import FiberEngine.Proofs.History

namespace FiberEngine

open FiberEngine.Frame (allAtoms)

variable {x : FiberId} {g : Guise} {u w w' : World}

/-! ## 1. The main fiber of a thread stays -/

namespace World

theorem destroy_main (w : World) (f : Fiber) : (w.destroy f).1.thread.main = w.thread.main := by
  have given : ∀ (v : World) a b, (v.deallocate a b).thread.main = v.thread.main := by
    intro v a b
    cases a <;> simp [deallocate, emit_thread, onThread]
  have dismantled : ∀ v : World, (v.dismantle f).thread.main = v.thread.main := by
    intro v
    unfold dismantle
    split
    · rw [log_thread, given]
    · rw [log_thread]
      simp only [onThread]
      split <;> rfl
  unfold destroy
  simp only
  split
  · rw [fatalInside_thread]
    rfl
  · split
    · rw [dropTag_thread, dismantled]
      rfl
    · rw [dismantled]
      rfl

theorem release_main (w : World) (ids : List FiberId) :
    (w.release ids).thread.main = w.thread.main := by
  fun_induction World.release w ids with
  | case1 w => rfl
  | case2 w id rest missing ih => exact ih
  | case3 w id rest f found last gone ih => exact ih.trans (destroy_main w f)
  | case4 w id rest f found more ih => exact ih

theorem reportFault_thread (w : World) (id : FiberId) (e : Finish) :
    (w.reportFault id e).thread = w.thread := by
  cases e with
  | returned value => rfl
  | faulted p =>
    have same := w.report_thread (faultText p id w.thread.name)
    unfold reportFault
    simp only
    split <;> rename_i eq <;> rw [eq] at same
    · exact same
    · exact (abort_thread _).trans same

end World

/-! ## 2. The end of a callback -/

namespace Drive

variable {D : Drive} {fs fs' : List Frame} {d d' : Nat}

/-- Where the main fiber goes on, the code of the task is gone. -/
theorem comeBack_twins (twins : Twins x (D.guise fs d) u w) (id : FiberId) (k k' : List Frame) :
    Twins x (D.guise k d) (u.comeBack id D.main .spent k') (w.comeBack id D.main .spent k) := by
  refine ⟨?_, twins.process, twins.trace⟩
  simp only [World.comeBack, World.onThread, twins.thread,
    Guise.setContext_thread (c := some Context.spent) _ _ (fun _ => rfl),
    Guise.setContext_thread (c := none) _ _ (fun _ => rfl), Guise.setMainState_thread]
  rfl

/-- The end of the callback of the task in two disguises. -/
theorem standAside_twins (twins : Twins x (D.guise fs d) u w)
    (isMain : u.thread.main = some D.main) (id : FiberId) (e : World.Finish) :
    (∃ why, (u.release [id]).mainFrames = .error why ∧
      Twins x (D.guise fs d) ((u.release [id]).fatalInside why.message) (w.standAside id e)) ∨
    ∃ k, (u.release [id]).mainFrames = .ok k ∧
      Twins x (D.guise (D.code d) d) ((u.release [id]).comeBack id D.main .spent k)
        (w.standAside id e) := by
  have released := World.release_twins twins [id]
  have isMain' : (u.release [id]).thread.main = some D.main := (u.release_main [id]).trans isMain
  have parked := mainFrames released isMain'
  cases eq : (u.release [id]).mainFrames with
  | error why =>
    rw [eq] at parked
    refine .inl ⟨why, rfl, ?_⟩
    have stuck : (w.release [id]).mainFrames = .error why := parked
    simp only [World.standAside, World.switchBack, stuck]
    exact World.fatalInside_twins released why.message
  | ok k =>
    rw [eq] at parked
    refine .inr ⟨k, rfl, ?_⟩
    have parked : (w.release [id]).mainFrames = .ok (D.code d) := parked
    simp only [World.standAside, World.switchBack_eq .spent (released.main.trans isMain') parked]
    exact comeBack_twins released id (D.code d) k

/-- Two worlds in which the task runs codes with the same atoms. Both are a third
world in a guise. -/
structure Abreast (D : Drive) (d d' : Nat) (u w w' : World) (k k' : List Frame) : Prop where
  left : Twins D.task (D.guise k d) u w
  right : Twins D.task (D.guise k' d') u w'
  same : allAtoms k = allAtoms k'
  base : k.getLast?.bind Frame.owner? = some D.task

/-- What a step comes to in two such worlds. -/
inductive Paces (D : Drive) (d d' : Nat) : World × World.Signal → World × World.Signal → Prop
  /-- The task goes on in both. -/
  | on {u v v' : World} {k k' : List Frame} (abreast : D.Abreast d d' u v v' k k') :
    Paces D d d' (v, .running) (v', .running)
  /-- The task waits for a thread in both. -/
  | started {u v v' : World} {k k' : List Frame} {kind : ThreadKind} (child : Thread)
    (abreast : D.Abreast d d' u v v' (.waiting (.join kind none) :: k)
      (.waiting (.join kind none) :: k')) :
    Paces D d d' (v, .started child) (v', .started child)
  /-- The callback of the task has ended in both. -/
  | back {u v v' : World} (left : Twins D.task (D.guise (D.code d) d) u v)
    (right : Twins D.task (D.guise (D.code d') d') u v')
    (ended : ∀ f, u.thread.fiber? D.task = some f → f.state.terminal) :
    Paces D d d' (v, .running) (v', .running)

variable {k k' : List Frame}

/-- The same thing is done, whatever the codes are. -/
theorem Abreast.map (a : D.Abreast d d' u w w' k k') {c : World → World} {v : World}
    (blind : ∀ {g w}, Twins D.task g u w → Twins D.task g v (c w)) :
    D.Abreast d d' v (c w) (c w') k k' :=
  ⟨blind a.left, blind a.right, a.same, a.base⟩

theorem Abreast.goOn (a : D.Abreast d d' u w w' k k') {j j' : List Frame}
    (same : allAtoms j = allAtoms j') (base : j.getLast? = k.getLast?) :
    D.Abreast d d' u (w.goOn j) (w'.goOn j') j j' :=
  ⟨Drive.goOn a.left j, Drive.goOn a.right j', same, base ▸ a.base⟩

/-- The end of the callback of the task. -/
theorem finish_paces (a : D.Abreast d d' u w w' k k') (isMain : u.thread.main = some D.main)
    (ne : D.task ≠ D.main) (tag : Option String) (keep : List FiberId) (e : World.Finish) :
    D.Paces d d' (w.finish D.task tag keep e, .running)
      (w'.finish D.task tag keep e, .running) := by
  have ended := a.map (c := fun w =>
    ((w.dropCallback tag keep).onThread fun t => t.setState D.task e.state).reportFault D.task e)
    fun twins => World.ended_twins twins D.task tag keep e
  simp only [World.finish_eq]
  generalize before : ((u.dropCallback tag keep).onThread fun t =>
    t.setState D.task e.state).reportFault D.task e = v at ended
  have isMain' : v.thread.main = some D.main := by
    rw [← before, World.reportFault_thread]
    change (u.dropCallback tag keep).thread.main = _
    rw [World.dropCallback, World.release_main, World.dropTag_thread, isMain]
  have state : ∀ f, v.thread.fiber? D.task = some f → f.state = e.state := by
    intro f found
    have keeps : ∀ f : Fiber, { f with state := e.state }.id = f.id := fun _ => rfl
    rw [← before, World.reportFault_thread] at found
    change ((u.dropCallback tag keep).thread.setState D.task e.state).fiber? D.task = some f
      at found
    rw [Thread.setState, Thread.fiber?_update _ _ _ _ keeps] at found
    obtain ⟨f', -, rfl⟩ := Option.map_eq_some_iff.mp found
    rw [if_pos rfl]
  rcases standAside_twins ended.left isMain' D.task e with ⟨why, stuck, left⟩ |
      ⟨j, parked, left⟩ <;>
    rcases standAside_twins ended.right isMain' D.task e with ⟨why', stuck', right⟩ |
      ⟨j', parked', right⟩
  · cases stuck.symm.trans stuck'
    exact .on ⟨left, right, a.same, a.base⟩
  · cases stuck.symm.trans parked'
  · cases parked.symm.trans stuck'
  · cases parked.symm.trans parked'
    refine .back left right fun f found => ?_
    have released : (v.release [D.task]).thread.main = some D.main :=
      (v.release_main [D.task]).trans isMain'
    have thread := World.comeBack_thread .spent j released ne
    rw [Thread.fiber?_crossed (congrArg Thread.fibers thread) (fun _ => rfl) fun _ => rfl] at found
    obtain ⟨f', found', rfl⟩ := Option.map_eq_some_iff.mp found
    obtain ⟨f₀, found₀, same⟩ := World.fiber?_release found'
    rw [Thread.Sound.crossed, if_pos (Thread.id_of_fiber? found'), same, state f₀ found₀]
    cases e <;> rfl

/-! ## 3. What follows a request -/

theorem Abreast.frames (a : D.Abreast d d' u w w' k k') :
    w.thread.frames = k ∧ w'.thread.frames = k' :=
  ⟨congrArg Thread.frames a.left.thread, congrArg Thread.frames a.right.thread⟩

/-- Both codes are left at the same frame. -/
theorem Abreast.below (a : D.Abreast d d' u w w' k k') {p : Frame → Bool}
    (stops : ∀ fr, p fr = false → fr.stopsPanic) {fr : Frame} {j : List Frame}
    (left : k.dropWhile p = fr :: j) :
    ∃ j', k'.dropWhile p = fr :: j' ∧
      (j ≠ [] → D.Abreast d d' u (w.goOn j) (w'.goOn j') j j') := by
  obtain ⟨j', right, same⟩ := Frame.dropWhile_alike stops a.same left
  refine ⟨j', right, fun rest => a.goOn same ?_⟩
  have suffix := List.dropWhile_suffix p (l := k)
  rw [left] at suffix
  rw [← Body.getLast?_of_suffix suffix, List.getLast?_cons_of_ne_nil rest]

section

variable (a : D.Abreast d d' u w w' k k') (isMain : u.thread.main = some D.main)
  (ne : D.task ≠ D.main) (body : Body (some D.task) k)

include a isMain ne body

theorem unwind_paces (p : Payload) : D.Paces d d' (w.unwind p) (w'.unwind p) := by
  have stops : ∀ fr : Frame, (!fr.stopsPanic) = false → fr.stopsPanic = true := by simp
  have stop := body.unwind
  obtain ⟨frames, frames'⟩ := a.frames
  generalize eq : (k.dropWhile fun f => !f.stopsPanic) = j at stop
  cases stop with
  | catching rest same =>
    obtain ⟨j', eq', below⟩ := a.below stops eq
    simp only [World.unwind, frames, frames', eq, eq']
    exact .on ((below rest.ne_nil).map (c := fun w => w.emit _) fun twins =>
      World.emit_twins twins _)
  | @program demo _ rest same =>
    obtain ⟨j', eq', below⟩ := a.below stops eq
    simp only [World.unwind, frames, frames', eq, eq']
    exact .on ((below rest.ne_nil).map (c := fun w => w.endDemo demo (some p)) fun twins =>
      World.endDemo_twins twins demo _)
  | task mine same =>
    obtain ⟨j', eq', -⟩ := a.below stops eq
    obtain rfl := Option.some.inj mine
    simp only [World.unwind, frames, frames', eq, eq']
    exact finish_paces a isMain ne _ _ _
  | script mine same => cases mine

theorem leave_paces (v : Datum) : D.Paces d d' (w.leave v) (w'.leave v) := by
  have stops : ∀ fr : Frame, (!fr.isBase) = false → fr.stopsPanic = true := by
    intro fr base
    cases fr <;> first | rfl | cases base
  obtain ⟨frames, frames'⟩ := a.frames
  rcases body.leave with ⟨id, tag, keep, mine, -, eq⟩ | ⟨none, -⟩
  · obtain ⟨j', eq', -⟩ := a.below stops eq
    obtain rfl := Option.some.inj mine
    simp only [World.leave, frames, frames', eq, eq']
    exact finish_paces a isMain ne _ _ _
  · cases none

theorem conclude_paces (name : String) (reply : Reply) :
    D.Paces d d' (w.conclude name reply) (w'.conclude name reply) := by
  unfold World.conclude
  rw [a.left.program, a.right.program]
  split
  · exact .on (a.map (c := fun w => w.emit _) fun twins => World.emit_twins twins _)
  · split
    · exact .on a
    · exact unwind_paces a isMain ne body _

end

/-- What both do after a request with the same outcome. -/
theorem settle_paces {r : World × Outcome} {v v' : World} {o : Outcome} (name : String)
    (left : Agree D.task (D.guise k d) r (v, o)) (right : Agree D.task (D.guise k' d') r (v', o))
    (same : allAtoms k = allAtoms k') (isMain : o ≠ .aborted → r.1.thread.main = some D.main)
    (ne : D.task ≠ D.main) (body : Body (some D.task) k) (starts : ∀ child, o ≠ .started child) :
    D.Paces d d' (World.settle name (v, o)) (World.settle name (v', o)) := by
  have a : D.Abreast d d' r.1 v v' k k' :=
    ⟨left.twins, right.twins, same, body.owner⟩
  cases o with
  | done reply => exact conclude_paces a (isMain (by simp)) ne body name reply
  | panicked p => exact unwind_paces a (isMain (by simp)) ne body p
  | left value => exact leave_paces a (isMain (by simp)) ne body value
  | next | aborted => exact .on a
  | started child => exact absurd rfl (starts child)

end Drive

end FiberEngine
