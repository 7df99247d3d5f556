/-
FiberEngine.Proofs.Releasing — giving up handles, and all that follows from it.

An operation that does not switch leaves its code in place: `Stays` is a path
between two stages with the same code. Writing entries, reporting and releasing
handles are of this kind.

`fiber?_release` and `release_keeps` say what a release leaves: the same fibers
but those that died, with fewer handles, the same slots, the same code and the
same report hook.
-/
import FiberEngine.Proofs.Sound

namespace FiberEngine

variable {texts : String → Prop} {others : List FiberId}

/-! ## 1. Operations that stay in place -/

/-- One stage leads to another in which the same code runs. -/
structure Stays (texts : String → Prop) (a b : Stage) : Prop where
  leads : Leads texts a b
  runner : b.runner = a.runner
  frames : b.world.thread.frames = a.world.thread.frames

namespace Stays

variable {w : World} {r : Option FiberId} {s : FiberState} {h h' : List FiberId}

theorem refl (a : Stage) : Stays texts a a :=
  ⟨.refl a, rfl, rfl⟩

theorem trans {a b c : Stage} (first : Stays texts a b) (second : Stays texts b c) :
    Stays texts a c :=
  ⟨first.leads.trans second.leads, second.runner.trans first.runner,
    second.frames.trans first.frames⟩

theorem sound {a b : Stage} (stays : Stays texts a b) (h : a.Sound others) : b.Sound others :=
  stays.leads.sound h

theorem regroup (perm : h.Perm h') : Stays texts ⟨w, r, s, h⟩ ⟨w, r, s, h'⟩ :=
  ⟨.regroup perm, rfl, rfl⟩

theorem emit (e : Event) (plain : e.Plain texts) (keeps : e.givesUp = false) :
    Stays texts ⟨w, r, .exec, h⟩ ⟨w.emit e, r, .exec, h⟩ :=
  ⟨.move (.write e plain keeps (.inl rfl)), rfl, congrArg Thread.frames (w.emit_same e).thread⟩

theorem log (n : Notice) (plain : n.Plain texts) :
    Stays texts ⟨w, r, .exec, h⟩ ⟨w.log n, r, .exec, h⟩ := by
  rcases w.log_cases n with same | same
  · rw [same]
    exact .refl _
  · rw [same]
    exact .emit _ plain rfl

theorem tune (p : Process) (alike : p.Alike w.process) :
    Stays texts ⟨w, r, s, h⟩ ⟨{ w with process := p }, r, s, h⟩ :=
  ⟨.move (.tune p alike), rfl, rfl⟩

theorem equip (t : Thread) (alike : t.Alike w.thread) (blocks : t.SameStacks w.thread) :
    Stays texts ⟨w, r, s, h⟩ ⟨{ w with thread := t }, r, s, h⟩ :=
  ⟨.move (.equip t alike blocks), rfl, alike.frames⟩

/-- A report goes to the log, to the trace or to an error output. -/
theorem report {text : String} (ok : texts text) :
    Stays texts ⟨w, r, .exec, h⟩ ⟨(w.report text).1, r, .exec, h⟩ := by
  unfold World.report
  split
  · exact .log _ ok
  · exact .emit _ ok rfl
  · exact ⟨.move (.complain text ok (.inl rfl)), rfl, rfl⟩

end Stays

/-! ## 2. What a release leaves -/

namespace World

variable {w : World} {r : Option FiberId} {h : List FiberId}

/-- A fiber that is still there after a release has fewer handles at most. -/
theorem fiber?_release {w : World} {ids : List FiberId} {id : FiberId} {g : Fiber}
    (found : (w.release ids).thread.fiber? id = some g) :
    ∃ f, w.thread.fiber? id = some f ∧ g = { f with handles := g.handles } := by
  fun_induction World.release w ids with
  | case1 w => exact ⟨g, found, rfl⟩
  | case2 w id' rest missing ih => exact ih found
  | case3 w id' rest f _ last destroyed ih =>
    obtain ⟨f', found', same⟩ := ih found
    have erased : destroyed.1.thread.fiber? id = (w.thread.erase f.id).fiber? id := by
      rw [Thread.fiber?, destroy_fibers, ← Thread.fiber?]
    rw [erased, Thread.fiber?_erase] at found'
    split at found'
    · cases found'
    · exact ⟨f', found', same⟩
  | case4 w id' rest f _ more ih =>
    obtain ⟨f', found', same⟩ := ih found
    have keeps : ∀ x : Fiber, { x with handles := x.handles - 1 }.id = x.id := fun _ => rfl
    simp only [onThread, Thread.fiber?_update _ _ _ _ keeps] at found'
    obtain ⟨f'', found'', rfl⟩ := Option.map_eq_some_iff.mp found'
    refine ⟨f'', found'', ?_⟩
    rw [same]
    split <;> rfl

/-- Handles are released in order, each with all that follows from it before the next. -/
theorem release_append (w : World) (ids more : List FiberId) :
    w.release (ids ++ more) = (w.release ids).release more := by
  fun_induction World.release w ids with
  | case1 w => rfl
  | case2 w id rest missing ih =>
    rw [List.cons_append, release_of_none missing]
    exact ih
  | case3 w id rest f found last destroyed ih =>
    rw [List.append_assoc] at ih
    rw [List.cons_append, release_of_last found last]
    exact ih
  | case4 w id rest f found more' ih =>
    rw [List.cons_append, release_of_more found more']
    exact ih

/-- The end of a fiber leaves the slots, the code and the report hook as they are. -/
theorem destroy_keeps (w : World) (f : Fiber) :
    (w.destroy f).1.thread.slots = w.thread.slots ∧
      (w.destroy f).1.thread.frames = w.thread.frames ∧
      (w.destroy f).1.process.hook = w.process.hook := by
  have reported : ∀ (v : World) text, (v.reportFatal text).1.process.hook = v.process.hook := by
    intro v text
    unfold reportFatal report
    split
    · rfl
    · split
      · exact (v.log_same _).hook
      · exact (v.emit_same _).hook
      · rfl
  have aborted : ∀ v : World, v.abort.process.hook = v.process.hook := by
    intro v
    unfold abort
    split
    · exact ((emit_same _ _).hook).trans (emit_same _ _).hook
    · exact (emit_same _ _).hook
  have dismantled : ∀ (v : World) f, (v.dismantle f).thread.slots = v.thread.slots ∧
      (v.dismantle f).thread.frames = v.thread.frames ∧
      (v.dismantle f).process.hook = v.process.hook := by
    intro v f
    unfold dismantle
    split
    · rename_i lease _
      have given := (v.deallocate_same lease).trans (log_same _ (.fiberDestroyed f.id f.state))
      exact ⟨(congrArg Thread.slots given.thread).trans (Thread.takeBack_slots ..),
        (congrArg Thread.frames given.thread).trans (Thread.takeBack_frames ..), given.hook⟩
    · rw [(log_same _ _).thread, (log_same _ _).hook]
      refine ⟨?_, ?_, rfl⟩ <;> simp only [onThread] <;> split <;> rfl
  unfold destroy
  simp only
  split
  · rw [fatalInside_thread, fatalInside, aborted, reported]
    exact ⟨rfl, rfl, rfl⟩
  · split
    · rename_i cb _
      rw [dropTag_thread, (dropTag_same _ _).hook]
      exact dismantled _ f
    · exact dismantled _ f

/-- Releasing handles leaves the slots, the code and the report hook as they are. -/
theorem release_keeps (w : World) (ids : List FiberId) :
    (w.release ids).thread.slots = w.thread.slots ∧
      (w.release ids).thread.frames = w.thread.frames ∧
      (w.release ids).process.hook = w.process.hook := by
  fun_induction World.release w ids with
  | case1 w => exact ⟨rfl, rfl, rfl⟩
  | case2 w id rest missing ih => exact ih
  | case3 w id rest f found last gone ih =>
    obtain ⟨slots, frames, hook⟩ := destroy_keeps w f
    exact ⟨ih.1.trans slots, ih.2.1.trans frames, ih.2.2.trans hook⟩
  | case4 w id rest f found more ih => exact ih

/-- A release of one handle is the end of the fiber, or one handle less. -/
theorem release_last {f : Fiber} (found : w.thread.fiber? f.id = some f) (last : f.handles ≤ 1)
    (none : (w.destroy f).2 = []) : w.release [f.id] = (w.destroy f).1 := by
  rw [release_of_last found last, none, List.nil_append, release]

theorem release_more {f : Fiber} (found : w.thread.fiber? f.id = some f) (more : ¬ f.handles ≤ 1) :
    w.release [f.id] =
      w.onThread fun t => t.update f.id fun f => { f with handles := f.handles - 1 } := by
  rw [release_of_more found more, release]

/-! ## 3. Releasing -/

/-- The running code releases handles that it has. -/
theorem release_stays (ids : List FiberId) :
    Stays texts ⟨w, r, .exec, ids ++ h⟩ ⟨w.release ids, r, .exec, h⟩ :=
  ⟨.move (.release ids), rfl, (release_keeps w ids).2.1⟩

/-- A callback that no fiber takes is destroyed, and its handles are released. -/
theorem refuse_stays (cb : Callback) :
    Stays texts ⟨w, r, .exec, cb.keep ++ h⟩ ⟨w.dropCallback cb.tag cb.keep, r, .exec, h⟩ := by
  have dropped : Stays texts ⟨w, r, .exec, cb.keep ++ h⟩
      ⟨w.dropTag cb.tag, r, .exec, cb.keep ++ h⟩ :=
    ⟨.move (.refuse cb), rfl, congrArg Thread.frames (dropTag_thread ..)⟩
  exact dropped.trans (release_stays cb.keep)

end World

end FiberEngine
