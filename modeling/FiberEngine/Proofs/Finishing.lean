/-
FiberEngine.Proofs.Finishing — the end of a callback, and of the process.

When a callback ends, by its last operation, an early return or a panic, its
fiber gives up the handle to itself and the main fiber goes on. `finish_comes`
follows this in its order: the callback is destroyed while the fiber is still in
`exec`, then the fiber takes its last state, then a fault is reported, then the
fiber stands aside. A hook that panics over the report ends the process.

A process that has ended writes nothing any more, whatever is left to be done.
-/
import FiberEngine.Proofs.Switching

namespace FiberEngine

variable {texts fatal : String → Prop} {ends : FiberState → Prop} {others : List FiberId}

/-! ## 1. A process that has ended -/

namespace World

variable {w : World} {p : Process}

theorem emit_over (past : Over p w) (e : Event) : Over p (w.emit e) := by
  rw [emit, if_pos past.1]
  exact past

theorem log_over (past : Over p w) (n : Notice) : Over p (w.log n) := by
  rcases w.log_cases n with same | same
  · rw [same]
    exact past
  · rw [same]
    exact emit_over past _

theorem report_over (past : Over p w) (text : String) : Over p (w.report text).1 := by
  unfold report
  split
  · exact log_over past _
  · exact emit_over past _
  · exact past

theorem abort_over (past : Over p w) : Over p w.abort := by
  refine ⟨rfl, ?_⟩
  unfold abort
  split
  · exact (emit_over (emit_over past _) _).2
  · exact (emit_over past _).2

theorem fatalInside_over (past : Over p w) (message : String) :
    Over p (w.fatalInside message) := by
  have reported : Over p (w.reportFatal message).1 := by
    unfold reportFatal
    split
    · exact past
    · exact report_over past _
  exact abort_over reported

theorem deallocate_over (past : Over p w) (a : Allocator) (b : Block) :
    Over p (w.deallocate a b) := by
  cases a with
  | heap | exhausted | refusing | guarded => exact past
  | counting | doubling => exact emit_over (by exact past) _

theorem destroy_over (past : Over p w) (f : Fiber) : Over p (w.destroy f).1 := by
  have dismantled : ∀ v, Over p v → Over p (v.dismantle f) := by
    intro v past
    unfold dismantle
    split
    · exact log_over (deallocate_over past _ _) _
    · exact log_over (by exact past) _
  have erased : Over p (w.onThread fun t => t.erase f.id).uncount := past
  unfold destroy
  simp only
  split
  · exact fatalInside_over erased _
  · split
    · rename_i cb _
      cases cb.tag with
      | none => exact dismantled _ erased
      | some tag => exact emit_over (dismantled _ erased) _
    · exact dismantled _ erased

theorem release_over (past : Over p w) (ids : List FiberId) : Over p (w.release ids) := by
  fun_induction World.release w ids with
  | case1 w => exact past
  | case2 w id rest missing ih => exact ih past
  | case3 w id rest f found last destroyed ih => exact ih (destroy_over past f)
  | case4 w id rest f found more ih => exact ih past

/-! ## 2. The end of a callback -/

/-- What a step of the running code comes to: other code goes on, or the process
has ended. -/
inductive Comes (texts fatal : String → Prop) (ends : FiberState → Prop) (a : Stage) : World → Prop
  | on {w : World} {r : Option FiberId} (leads : Leads texts a (w.stage r))
    (ready : w.thread.Ready r) (continues : w.Continues ends a.runner) :
    Comes texts fatal ends a w
  | fallen {w : World} (falls : Falls texts fatal a w) : Comes texts fatal ends a w

theorem Comes.after {a b : Stage} {w : World} (first : Leads texts a b)
    (same : b.runner = a.runner) (comes : Comes texts fatal ends b w) :
    Comes texts fatal ends a w := by
  cases comes with
  | on leads ready continues => exact .on (first.trans leads) ready (same ▸ continues)
  | fallen falls => exact .fallen (falls.after first)

variable {id : FiberId} {h : List FiberId}

/-- A report of the fault of the task that runs. -/
theorem reportOfFault_leads {p : Payload} (ok : texts (faultText p id w.thread.name)) :
    Leads texts ⟨w, some id, .except, h⟩
      ⟨(w.report (faultText p id w.thread.name)).1, some id, .except, h⟩ := by
  unfold report
  split
  · rcases w.log_cases (.reported (faultText p id w.thread.name)) with same | same
    · rw [same]
      exact .refl _
    · rw [same]
      exact .move (.write _ ok rfl (.inr ⟨rfl, id, rfl, p, rfl⟩))
  · exact .move (.write _ ok rfl (.inr ⟨rfl, id, rfl, p, rfl⟩))
  · exact .move (.complain _ ok (.inr ⟨rfl, id, p, rfl, rfl⟩))

/-- The handle of a task to itself is not the last one: the main fiber that waits
for it has one, too. -/
theorem release_self_leads {s : FiberState}
    (sound : Stage.Sound others ⟨w, some id, s, id :: h⟩) :
    Leads texts ⟨w, some id, s, id :: h⟩ ⟨w.release [id], some id, s, h⟩ := by
  obtain ⟨f, found, -, -⟩ := sound.thread.runner_runs
  have more : ¬ f.handles ≤ 1 := fun last => (sound.thread.rests_last found last).2.1 rfl
  obtain rfl := Thread.id_of_fiber? found
  have less := release_more found more
  rw [less]
  exact .move (.giveUp found (Nat.lt_of_not_le more))

/-- The value of a callback goes into the request that waits for it, which waits
for the same fiber with the same handles. -/
theorem handTo_waiting (e : Finish) (id : FiberId) (p : Pending) (k : List Frame) :
    ∃ q, e.handTo id (.waiting p :: k) = .waiting q :: k ∧ q.handles = p.handles ∧
      ∀ f, p.Awaits f → q.Awaits f := by
  cases p <;> cases e <;> exact ⟨_, rfl, rfl, fun _ awaits => awaits⟩

/-- A task whose callback has ended gives up the handle to itself and stands aside
for good. -/
def standAside (w : World) (id : FiberId) (e : Finish) : World :=
  match (w.release [id]).switchBack id .spent with
  | (w, some e) => w.fatalInside e.message
  | (w, none) => w.onThread fun t => t.goOn (e.handTo id t.frames)

theorem finish_eq (w : World) (id : FiberId) (tag : Option String) (keep : List FiberId)
    (e : Finish) : w.finish id tag keep e =
      (((w.dropCallback tag keep).onThread fun t => t.setState id e.state).reportFault id
        e).standAside id e :=
  rfl

theorem standAside_comes {s : FiberState} (e : Finish)
    (sound : Stage.Sound others ⟨w, some id, s, [id]⟩) (terminal : s.terminal)
    (ok : ends s) :
    Comes texts fatal ends ⟨w, some id, s, [id]⟩ (w.standAside id e) := by
  have released : Leads texts _ _ := release_self_leads sound
  have after := released.sound sound
  obtain ⟨main, p, k, isMain, ne, parked, body, awaits⟩ := mainFrames_of_runner after.thread
  obtain ⟨q, handed, handles, same⟩ := handTo_waiting e id p k
  have left := released.trans (.move (.leave isMain parked terminal))
  have base : (Frame.waiting q :: k).getLast? = (Frame.waiting p :: k).getLast? := by
    rw [body.getLast?_cons, body.getLast?_cons]
  have went := left.trans (.move (.goOn (.waiting q :: k) base))
  have result : (((w.release [id]).comeBack id main .spent (.waiting p :: k)).onThread fun t =>
      t.goOn (e.handTo id t.frames)) =
        ((w.release [id]).comeBack id main .spent (.waiting p :: k)).goOn (.waiting q :: k) := by
    rw [← handed]
    rfl
  have account : Frame.allHandles (.waiting p :: k) = Frame.allHandles (.waiting q :: k) := by
    simp [Frame.handles, handles]
  simp only [standAside, switchBack_eq .spent isMain parked, result]
  rw [account] at went
  have last : (((w.release [id]).comeBack id main .spent (.waiting p :: k)).goOn
      (.waiting q :: k)).stateOf id = s := by
    change ((w.release [id]).comeBack id main .spent (.waiting p :: k)).stateOf id = s
    rw [stateOf_comeBack _ _ isMain ne.symm, stateOf_of_runner after.thread]
  refine .on went (ready_of_parked rfl ?_ ne body (same id awaits))
    (.back rfl rfl (same id awaits) ?_ fun _ => last ▸ ok)
  · change ((w.release [id]).comeBack id main .spent (.waiting p :: k)).thread.main = some main
    rw [comeBack_thread _ _ isMain ne.symm]
    exact isMain
  · rw [last]
    cases s <;> simp_all [FiberState.terminal]

/-- The end of a process in the middle of the end of a callback. -/
theorem standAside_over (id : FiberId) (e : Finish) (past : Over p w) :
    Over p (w.standAside id e) := by
  have released := release_over past [id]
  unfold standAside switchBack
  cases (w.release [id]).mainFrames with
  | error e => exact fatalInside_over released _
  | ok k => exact released

/-- A fault is reported, and the task stands aside, unless the hook panics. -/
theorem reportFault_comes {p : Payload} (faults : ∀ p id name, texts (faultText p id name))
    (ok : ends .except) (sound : Stage.Sound others ⟨w, some id, .except, [id]⟩) :
    Comes texts fatal ends ⟨w, some id, .except, [id]⟩
      ((w.reportFault id (.faulted p)).standAside id (.faulted p)) := by
  have reported : Leads texts ⟨w, some id, .except, [id]⟩ _ :=
    reportOfFault_leads (faults p id _)
  rcases eq : w.report (faultText p id w.thread.name) with ⟨v, _ | q⟩ <;> rw [eq] at reported
  · have same : w.reportFault id (.faulted p) = v := by simp only [reportFault, eq]
    rw [same]
    exact (standAside_comes (.faulted p) (reported.sound sound) rfl ok).after reported rfl
  · have same : w.reportFault id (.faulted p) = v.abort := by simp only [reportFault, eq]
    rw [same]
    have past : Over (w.report (faultText p id w.thread.name)).1.abort.process
        (v.abort.standAside id (.faulted p)) := standAside_over id (.faulted p) (by
      rw [eq]
      exact ⟨rfl, rfl, rfl, rfl⟩)
    exact .fallen (.fault (p := p) (.refl _) (faults p id _) (by simp [eq]) past)

/-- The callback of the task that runs ends, and the main fiber goes on. -/
theorem finish_comes {tag : Option String} {keep : List FiberId} (e : Finish)
    (faults : ∀ p id name, texts (faultText p id name)) (ok : ends e.state)
    (base : w.thread.frames.getLast? = some (.task id tag keep))
    (sound : Stage.Sound others ⟨w, some id, .exec, id :: keep⟩) :
    Comes texts fatal ends ⟨w, some id, .exec, id :: keep⟩ (w.finish id tag keep e) := by
  have grouped : Leads texts ⟨w, some id, .exec, id :: keep⟩ ⟨w, some id, .exec, keep ++ [id]⟩ :=
    .regroup (List.perm_append_singleton id keep).symm
  have terminal : e.state.terminal := by cases e <;> rfl
  have concluded := grouped.trans (.move (.conclude e.state terminal base))
  have after := concluded.sound sound
  rw [finish_eq]
  cases e with
  | returned v => exact (standAside_comes (.returned v) after rfl ok).after concluded rfl
  | faulted p => exact (reportFault_comes faults ok after).after concluded rfl

end World

end FiberEngine
