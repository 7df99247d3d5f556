/-
FiberEngine.Proofs.Stretches — what a task leaves behind while it runs.

The answers that the code of a task records and the report of its fault are its
marks in the trace. `World.Stretch` relates two points of a run between which one
task has left some marks: nothing becomes of any other task meanwhile, but that
it may lose handles, and no other task leaves a mark.

Writing, releasing handles and switching are such stretches, and two of them in
a row are one.
-/
import FiberEngine.Proofs.Scores
import FiberEngine.Proofs.History

namespace FiberEngine

/-! ## 1. What a fiber leaves in the trace -/

/-- What decides how the report of a fault reads. -/
structure Setting where
  hook : ReportHook
  level : Option Level
  name : String
  span : Option String

/-- A report, as it is entered in the trace. -/
def Setting.report (s : Setting) (text : String) : List Event :=
  match s.hook with
  | .sink =>
    if Level.admits s.level .error then
      [.logged (.reported text) (if Level.admits s.level .debug then s.span else none)]
    else []
  | .tagged tag _ => [.reported text tag]
  | .output => []

/-- A mark of a fiber, as it is entered in the trace. -/
def Mark.events (s : Setting) (x : FiberId) : Mark → List Event
  | .answer op reply => [.completed op reply]
  | .fault p => s.report (faultText p x s.name)

/-- The entry tells of an answer or of a report. -/
def Event.tells : Event → Bool
  | .completed .. | .reported .. | .logged (.reported _) _ => true
  | _ => false

/-- The answers and the reports among some entries that were written while a fiber
was current. -/
def told (x : FiberId) (es : List Entry) : List Event :=
  (es.filter fun e => e.current == x && e.event.tells).map Entry.event

@[simp]
theorem told_nil (x : FiberId) : told x [] = [] :=
  rfl

@[simp]
theorem told_append (x : FiberId) (es more : List Entry) :
    told x (es ++ more) = told x es ++ told x more := by
  simp [told]

theorem told_of_silent {x : FiberId} {es : List Entry} (silent : ∀ e ∈ es, e.event.tells = false) :
    told x es = [] := by
  have none : (es.filter fun e => e.current == x && e.event.tells) = [] := by
    rw [List.filter_eq_nil_iff]
    intro e mem
    simp [silent e mem]
  rw [told, none, List.map_nil]

/-- Entries that one fiber writes. -/
theorem told_map {x y : FiberId} {t : Thread} (current : t.current = some x) {es : List Event}
    (tells : ∀ e ∈ es, e.tells) :
    told y (es.map fun e => ⟨t, e⟩) = if y = x then es else [] := by
  have here : ∀ e, (Entry.mk t e).current = x := fun e => by
    rw [Entry.current, Thread.currentId, current, Option.getD_some]
  induction es with
  | nil => simp
  | cons e rest ih =>
    have rest := ih fun e mem => tells e (List.mem_cons_of_mem _ mem)
    have first := tells e (List.mem_cons_self ..)
    rw [List.map_cons, ← List.singleton_append, told_append, rest]
    by_cases mine : y = x
    · subst mine
      simp [told, here, first]
    · have other : ¬ x = y := fun same => mine same.symm
      simp [told, here, mine, other]

namespace World

variable {w v u : World} {x : FiberId} {marks more : List Mark}

def setting (w : World) : Setting :=
  ⟨w.process.hook, w.process.level, w.thread.name, w.thread.span⟩

theorem reportEntries_eq (w : World) (text : String) :
    w.reportEntries text = (w.setting.report text).map fun e => ⟨w.thread, e⟩ := by
  unfold reportEntries Setting.report
  cases hook : w.process.hook with
  | sink =>
    simp only [setting, hook]
    split <;> rfl
  | tagged tag panics => simp [setting, hook]
  | output => simp [setting, hook]

theorem tells_of_report {s : Setting} {text : String} {e : Event} (mem : e ∈ s.report text) :
    e.tells := by
  unfold Setting.report at mem
  split at mem
  · split at mem
    · rw [List.mem_singleton.mp mem]
      rfl
    · cases mem
  · rw [List.mem_singleton.mp mem]
    rfl
  · cases mem

/-! ## 2. Stretches in which one task runs -/

/-- From one world to a later one, the code of a task leaves some marks. Nothing
becomes of other tasks but that they lose handles. -/
structure Stretch (x : FiberId) (marks : List Mark) (w v : World) : Prop where
  setting : v.setting = w.setting
  program : v.process.program = w.process.program
  slots : v.thread.slots = w.thread.slots
  order : w.process.nextId ≤ v.process.nextId
  main : ∀ id, w.thread.main = some id → v.thread.main = some id
  /-- A thread may get its main fiber on the way. -/
  fresh : ∀ id, v.thread.main = some id → w.thread.main = some id ∨ w.process.nextId ≤ id
  others : ∀ id g, id ≠ x → v.thread.main ≠ some id → v.thread.fiber? id = some g →
    ∃ f, w.thread.fiber? id = some f ∧ g = { f with handles := g.handles }
  trace : ∃ new, v.process.trace.toList = w.process.trace.toList ++ new ∧
    ∀ y, v.thread.main ≠ some y →
      told y new = if y = x then marks.flatMap (Mark.events w.setting x) else []

namespace Stretch

/-- Nothing is written. -/
theorem of_same (trace : v.process.trace = w.process.trace) (setting : v.setting = w.setting)
    (program : v.process.program = w.process.program)
    (nextId : v.process.nextId = w.process.nextId) (slots : v.thread.slots = w.thread.slots)
    (main : v.thread.main = w.thread.main)
    (others : ∀ id g, id ≠ x → v.thread.main ≠ some id → v.thread.fiber? id = some g →
      ∃ f, w.thread.fiber? id = some f ∧ g = { f with handles := g.handles }) :
    Stretch x [] w v where
  setting := setting
  program := program
  slots := slots
  order := Nat.le_of_eq nextId.symm
  main id isMain := main.trans isMain
  fresh id isMain := .inl (main ▸ isMain)
  others := others
  trace := ⟨[], by simp [trace], by simp⟩

theorem refl (w : World) : Stretch x [] w w :=
  of_same rfl rfl rfl rfl rfl rfl fun _ g _ _ found => ⟨g, found, rfl⟩

theorem trans (first : Stretch x marks w v) (second : Stretch x more v u) :
    Stretch x (marks ++ more) w u where
  setting := second.setting.trans first.setting
  program := second.program.trans first.program
  slots := second.slots.trans first.slots
  order := Nat.le_trans first.order second.order
  main id isMain := second.main id (first.main id isMain)
  fresh id isMain := by
    rcases second.fresh id isMain with same | later
    · exact first.fresh id same
    · exact .inr (Nat.le_trans first.order later)
  others id g other away found := by
    obtain ⟨f, there, same⟩ := second.others id g other away found
    obtain ⟨f', before, same'⟩ :=
      first.others id f other (fun isMain => away (second.main id isMain)) there
    refine ⟨f', before, ?_⟩
    rw [same, same']
  trace := by
    obtain ⟨new, trace, tells⟩ := first.trace
    obtain ⟨new', trace', tells'⟩ := second.trace
    refine ⟨new ++ new', by rw [trace', trace, List.append_assoc], fun y away => ?_⟩
    rw [told_append, tells y fun isMain => away (second.main y isMain), tells' y away,
      first.setting]
    split <;> simp

end Stretch

/-- A thread that is the same but for its code, the handles of its fibers and whatever
becomes of the one task. -/
theorem onThread_stretch {c : Thread → Thread} (name : (c w.thread).name = w.thread.name)
    (span : (c w.thread).span = w.thread.span) (slots : (c w.thread).slots = w.thread.slots)
    (main : (c w.thread).main = w.thread.main)
    (others : ∀ id g, id ≠ x → (c w.thread).main ≠ some id → (c w.thread).fiber? id = some g →
      ∃ f, w.thread.fiber? id = some f ∧ g = { f with handles := g.handles }) :
    Stretch x [] w (w.onThread c) :=
  .of_same rfl (by simp only [setting, onThread, name, span]) rfl rfl slots main others

/-- Entries are written, and nothing else is done. -/
theorem write_stretch (same : SameButTrace w v) {new : List Entry}
    (trace : v.process.trace.toList = w.process.trace.toList ++ new)
    (tells : ∀ y, w.thread.main ≠ some y →
      told y new = if y = x then marks.flatMap (Mark.events w.setting x) else []) :
    Stretch x marks w v := by
  refine ⟨?_, same.program, ?_, Nat.le_of_eq same.nextId.symm, ?_, ?_, ?_, new, trace, ?_⟩
  · simp only [setting, same.hook, same.level, same.thread]
  all_goals rw [same.thread]
  · exact fun _ => id
  · exact fun _ => .inl
  · exact fun _ g _ _ found => ⟨g, found, rfl⟩
  · exact tells

theorem emit_stretch (going : w.process.halted = false) {e : Event}
    (tells : ∀ y, w.thread.main ≠ some y → told y [⟨w.thread, e⟩] =
      if y = x then marks.flatMap (Mark.events w.setting x) else []) :
    Stretch x marks w (w.emit e) :=
  write_stretch (w.emit_same e) (emit_trace going e) tells

/-- An entry that tells of no answer and of no report. -/
theorem emit_silent (w : World) {e : Event} (silent : e.tells = false) :
    Stretch x [] w (w.emit e) := by
  cases going : w.process.halted with
  | true =>
    rw [emit, if_pos going]
    exact .refl w
  | false =>
    refine emit_stretch going fun y _ => ?_
    rw [told_of_silent (by simpa using silent)]
    simp

theorem log_silent (w : World) {n : Notice} (silent : ∀ span, (Event.logged n span).tells = false) :
    Stretch x [] w (w.log n) := by
  rcases w.log_cases n with same | same
  · rw [same]
    exact .refl w
  · rw [same]
    exact emit_silent w (silent _)

/-- The task records an answer. -/
theorem answer_stretch (going : w.process.halted = false) (current : w.thread.current = some x)
    (op : String) (reply : Reply) :
    Stretch x [.answer op reply] w (w.emit (.completed op reply)) := by
  refine emit_stretch going fun y _ => ?_
  have mine : ∀ e ∈ [Event.completed op reply], e.tells := by simp [Event.tells]
  exact told_map current mine

/-- The main fiber records something. -/
theorem emit_of_main (going : w.process.halted = false) {main : FiberId}
    (isMain : w.thread.main = some main) (current : w.thread.current = some main) (e : Event) :
    Stretch x [] w (w.emit e) := by
  refine emit_stretch going fun y away => ?_
  have other : ¬ main = y := fun same => away (same ▸ isMain)
  simp [told, Entry.current, Thread.currentId, current, other]

/-- While no demonstration goes on, a report writes entries at most. -/
theorem report_same (calm : w.process.program = none) (text : String) :
    SameButTrace w (w.report text).1 := by
  unfold report
  split
  · exact log_same ..
  · exact emit_same ..
  · exact ⟨rfl, rfl, rfl, rfl, rfl, rfl, rfl, rfl, by simp [printError, onProgram, calm], rfl⟩

/-- The fault of the task is reported. -/
theorem report_stretch (going : w.process.halted = false) (current : w.thread.current = some x)
    (calm : w.process.program = none) (p : Payload) :
    Stretch x [.fault p] w (w.report (faultText p x w.thread.name)).1 := by
  refine write_stretch (report_same calm _) ((w.report_reports _).trace going) fun y _ => ?_
  rw [reportEntries_eq, told_map current fun e mem => tells_of_report mem]
  simp [Mark.events, setting]

/-! ## 3. Releasing handles -/

theorem going_of_release {ids : List FiberId} (goes : (w.release ids).process.halted = false) :
    w.process.halted = false := by
  cases halted : w.process.halted with
  | false => rfl
  | true =>
    have past : Over w.process w := ⟨halted, rfl, rfl, rfl⟩
    cases goes.symm.trans (release_over past ids).1

theorem dropTag_stretch (w : World) (tag : Option String) : Stretch x [] w (w.dropTag tag) := by
  cases tag with
  | none => exact .refl w
  | some tag => exact emit_silent w rfl

theorem dismantle_stretch (w : World) (f : Fiber) : Stretch x [] w (w.dismantle f) := by
  unfold dismantle
  split
  · rename_i lease _
    have back : Stretch x [] w (w.onThread fun t => t.takeBack lease) := by
      refine onThread_stretch ?_ ?_ (Thread.takeBack_slots ..) (Thread.takeBack_main ..) ?_
      · unfold Thread.takeBack
        split <;> rfl
      · unfold Thread.takeBack
        split <;> rfl
      · intro id g _ _ found
        rw [Thread.fiber?, Thread.takeBack_fibers] at found
        exact ⟨g, found, rfl⟩
    rw [deallocate_eq]
    split
    · exact (back.trans (emit_silent _ rfl)).trans (log_silent _ fun _ => rfl)
    · exact back.trans (log_silent _ fun _ => rfl)
  · have away : Stretch x [] w (w.onThread fun t =>
        if t.current = some f.id then { t with current := none } else t) := by
      refine onThread_stretch ?_ ?_ ?_ ?_ ?_
      all_goals split
      all_goals first | rfl | exact fun _ g _ _ found => ⟨g, found, rfl⟩
    exact away.trans (log_silent _ fun _ => rfl)

/-- A fiber is destroyed, unless this ends the process. -/
theorem destroy_stretch (w : World) (f : Fiber) (goes : (w.destroy f).1.process.halted = false) :
    Stretch x [] w (w.destroy f).1 := by
  have gone : Stretch x [] w (w.onThread fun t => t.erase f.id).uncount := by
    refine .of_same rfl rfl rfl rfl rfl rfl fun id g _ _ found => ?_
    change (w.thread.erase f.id).fiber? id = some g at found
    rw [Thread.fiber?_erase] at found
    split at found
    · cases found
    · exact ⟨g, found, rfl⟩
  have apart : Stretch x [] w ((w.onThread fun t => t.erase f.id).uncount.dismantle f) :=
    gone.trans (dismantle_stretch _ f)
  unfold destroy at goes ⊢
  simp only at goes ⊢
  split
  · rename_i eq
    simp only [eq] at goes
    cases goes
  · split
    · exact apart.trans (dropTag_stretch _ _)
    · exact apart

/-- A release writes no answers and no reports, unless it ends the process. -/
theorem release_stretch (w : World) (ids : List FiberId)
    (goes : (w.release ids).process.halted = false) : Stretch x [] w (w.release ids) := by
  fun_induction World.release w ids with
  | case1 w => exact .refl w
  | case2 w id rest missing ih => exact ih goes
  | case3 w id rest f found last destroyed ih =>
    exact (destroy_stretch w f (going_of_release goes)).trans (ih goes)
  | case4 w id rest f found more ih =>
    refine (onThread_stretch rfl rfl rfl rfl ?_).trans (ih goes)
    intro other g _ _ there
    have keeps : ∀ f : Fiber, { f with handles := f.handles - 1 }.id = f.id := fun _ => rfl
    rw [Thread.fiber?_update _ _ _ _ keeps] at there
    obtain ⟨f', before, rfl⟩ := Option.map_eq_some_iff.mp there
    refine ⟨f', before, ?_⟩
    split <;> rfl

theorem dropCallback_stretch (w : World) (tag : Option String) (keep : List FiberId)
    (goes : (w.dropCallback tag keep).process.halted = false) :
    Stretch x [] w (w.dropCallback tag keep) :=
  (dropTag_stretch w tag).trans (release_stretch _ keep goes)

/-! ## 4. Switches -/

/-- A switch between the main fiber and the task. -/
theorem crossed_stretch {main : FiberId} {c d : Fiber → Fiber} {current : Option FiberId}
    {k : List Frame} (isMain : w.thread.main = some main) (process : v.process = w.process)
    (thread : v.thread = { w.thread with
      fibers := w.thread.fibers.map (Thread.Sound.crossed x main c d), current, frames := k })
    (hc : ∀ f, (c f).id = f.id) (hd : ∀ f, (d f).id = f.id) : Stretch x [] w v := by
  refine .of_same (by rw [process]) ?_ (by rw [process]) (by rw [process]) (by rw [thread])
    (by rw [thread]) fun id g other away found => ?_
  · simp only [setting, process, thread]
    rfl
  · rw [Thread.fiber?_crossed (congrArg Thread.fibers thread) hc hd] at found
    obtain ⟨f, before, rfl⟩ := Option.map_eq_some_iff.mp found
    have notMain : ¬ f.id = main := by
      rw [thread] at away
      rw [Thread.id_of_fiber? before]
      exact fun same => away (isMain.trans (congrArg some same.symm))
    have notTask : ¬ f.id = x := by
      rw [Thread.id_of_fiber? before]
      exact other
    refine ⟨f, before, ?_⟩
    rw [Thread.Sound.crossed, if_neg notTask, if_neg notMain]

/-- The main fiber is asked for, and created if it is missing. -/
theorem currentFiber_stretch (w : World) : Stretch x [] w w.currentFiber.1 := by
  unfold currentFiber
  split
  · exact .refl w
  · split
    · rename_i id isMain
      exact .of_same rfl rfl rfl rfl rfl rfl fun _ g _ _ found => ⟨g, found, rfl⟩
    · rename_i missing
      have logged : Stretch x [] w.count.1 (w.count.1.log (.mainCreated w.process.nextId)) :=
        log_silent _ fun _ => rfl
      have same := (w.count.1).log_same (.mainCreated w.process.nextId)
      have thread : (w.count.1.log (.mainCreated w.process.nextId)).thread = w.thread := same.thread
      obtain ⟨new, trace, tells⟩ := logged.trace
      refine ⟨logged.setting, logged.program, logged.slots, ?_, ?_, ?_, ?_, new, trace, ?_⟩
      · exact Nat.le_trans (Nat.le_succ _) logged.order
      · intro id isMain
        cases missing.symm.trans isMain
      · intro id isMain
        exact .inr (Nat.le_of_eq (Option.some.inj isMain))
      · intro id g _ away found
        change (Thread.insert (w.count.1.log (.mainCreated w.process.nextId)).thread
          (Fiber.main w.process.nextId)).fiber? id = some g at found
        rw [thread, Thread.fiber?_insert] at found
        have other : ¬ (Fiber.main w.process.nextId).id = id := fun same => away (congrArg some same)
        rw [if_neg other, Option.or_none] at found
        exact ⟨g, found, rfl⟩
      · intro y _
        refine tells y ?_
        rw [thread, missing]
        simp

theorem hold_stretch (w : World) : Stretch x [] w (w.hold x) := by
  refine onThread_stretch rfl rfl rfl rfl fun id g other _ found => ?_
  have keeps : ∀ f : Fiber, { f with handles := f.handles + 1 }.id = f.id := fun _ => rfl
  rw [Thread.hold, Thread.fiber?_update _ _ _ _ keeps] at found
  obtain ⟨f, before, rfl⟩ := Option.map_eq_some_iff.mp found
  refine ⟨f, before, ?_⟩
  split <;> rfl

end World

end FiberEngine
