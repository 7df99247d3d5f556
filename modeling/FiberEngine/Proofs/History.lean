/-
FiberEngine.Proofs.History — what a run writes, step by step.

`Entry.Due` says which entries a step may write: fair ones, the end of a main
fiber with its thread, and those of the end of the process. `World.Adds` says
what a step adds to the trace, and `Machine.Keeps` that no thread ever changes
its main fiber. `Machine.history` puts the steps of a run together: every entry
of its trace was written by a step from a sound state.
-/
import FiberEngine.Proofs.Runs

namespace FiberEngine

/-! ## 1. The last entries -/

/-- An entry that a step may write. -/
inductive Entry.Due (texts fatal : String → Prop) (e : Entry) : Prop
  | fair (fair : e.Fair texts)
  | torn (torn : e.Torn)
  /-- A contract is violated. -/
  | failed {message : String} (order : e.thread.InOrder .exec) (cause : fatal message)
    (report : e.event.report? = some (fatalText message))
  /-- The process ends, over a violated contract or over the report of a fault. -/
  | last (order : e.thread.InOrder .exec ∨
      ∃ id, e.thread.task? = some id ∧ e.thread.InOrder .except)
    (last : e.event = .aborted ∨ ∃ o, e.event = .output o)

namespace World

variable {w : World} {texts fatal : String → Prop} {others : List FiberId}

/-- What a report adds to the trace. -/
def reportEntries (w : World) (text : String) : List Entry :=
  match w.process.hook with
  | .sink =>
    if Level.admits w.process.level .error then [⟨w.thread, .logged (.reported text) w.span?⟩]
    else []
  | .tagged tag _ => [⟨w.thread, .reported text tag⟩]
  | .output => []

/-- What the end of the process adds to the trace. -/
def lastEntries (w : World) : List Entry :=
  w.process.program.elim [] (fun p => [⟨w.thread, .output p.output⟩]) ++ [⟨w.thread, .aborted⟩]

theorem reportEntries_report {text : String} {e : Entry} (mem : e ∈ w.reportEntries text) :
    e.thread = w.thread ∧ e.event.report? = some text := by
  unfold reportEntries at mem
  split at mem
  · split at mem
    · rw [List.mem_singleton.mp mem]
      exact ⟨rfl, rfl⟩
    · cases mem
  · rw [List.mem_singleton.mp mem]
    exact ⟨rfl, rfl⟩
  · cases mem

theorem lastEntries_last {e : Entry} (mem : e ∈ w.lastEntries) :
    e.thread = w.thread ∧ (e.event = .aborted ∨ ∃ o, e.event = .output o) := by
  unfold lastEntries at mem
  rcases List.mem_append.mp mem with mem | mem
  · cases program : w.process.program with
    | none => simp [program] at mem
    | some p =>
      simp only [program, Option.elim_some, List.mem_singleton] at mem
      rw [mem]
      exact ⟨rfl, .inr ⟨_, rfl⟩⟩
  · rw [List.mem_singleton.mp mem]
    exact ⟨rfl, .inl rfl⟩

theorem emit_trace (going : w.process.halted = false) (e : Event) :
    (w.emit e).process.trace.toList = w.process.trace.toList ++ [⟨w.thread, e⟩] := by
  rw [emit_of_going going, Array.toList_push]

/-- A report writes its entries and leaves the rest of the trace as it is. -/
structure Reports (w v : World) (text : String) : Prop where
  thread : v.thread = w.thread
  halted : v.process.halted = w.process.halted
  level : v.process.level = w.process.level
  nextId : v.process.nextId = w.process.nextId
  trace : w.process.halted = false →
    v.process.trace.toList = w.process.trace.toList ++ w.reportEntries text

theorem Reports.of_emit {text : String} {e : Event} (entries : w.reportEntries text =
    [⟨w.thread, e⟩]) : Reports w (w.emit e) text := by
  have same := w.emit_same e
  refine ⟨same.thread, same.halted, same.level, same.nextId, ?_⟩
  intro going
  rw [entries]
  exact emit_trace going e

theorem report_reports (w : World) (text : String) : Reports w (w.report text).1 text := by
  cases hook : w.process.hook with
  | sink =>
    simp only [report, hook]
    by_cases admits : Level.admits w.process.level .error
    · have logged : w.log (.reported text) = w.emit (.logged (.reported text) w.span?) :=
        if_pos admits
      rw [logged]
      exact .of_emit (by simp only [reportEntries, hook, if_pos admits])
    · have logged : w.log (.reported text) = w := if_neg admits
      rw [logged]
      exact ⟨rfl, rfl, rfl, rfl, fun _ => by simp [reportEntries, hook, admits]⟩
  | tagged tag panics =>
    simp only [report, hook]
    exact .of_emit (by simp only [reportEntries, hook])
  | output =>
    simp only [report, hook]
    exact ⟨rfl, rfl, rfl, rfl, fun _ => by simp [reportEntries, hook, printError, onProgram]⟩

theorem reportFatal_reports (w : World) (message : String) :
    Reports w (w.reportFatal message).1 (fatalText message) := by
  unfold reportFatal
  split
  · rename_i hook
    exact ⟨rfl, rfl, rfl, rfl, fun _ => by simp [reportEntries, hook, printError, onProgram]⟩
  · exact w.report_reports _

theorem abort_trace (going : w.process.halted = false) :
    w.abort.process.trace.toList = w.process.trace.toList ++ w.lastEntries := by
  unfold abort lastEntries
  cases program : w.process.program with
  | none => simp [emit_of_going going]
  | some p =>
    have still : (w.emit (.output p.output)).process.halted = false :=
      (w.emit_same _).halted.trans going
    have last := emit_trace still .aborted
    rw [emit_trace going, (w.emit_same _).thread] at last
    simpa using last

theorem abort_same (w : World) :
    w.abort.process.nextId = w.process.nextId ∧ w.abort.process.level = w.process.level := by
  unfold abort
  cases w.process.program with
  | none => exact ⟨(emit_same _ _).nextId, (emit_same _ _).level⟩
  | some p =>
    have first := w.emit_same (.output p.output)
    have second := (w.emit (.output p.output)).emit_same .aborted
    exact ⟨second.nextId.trans first.nextId, second.level.trans first.level⟩

end World

/-! ## 2. What is added to the trace -/

theorem Event.birth?_of_report? {e : Event} {text : String} (h : e.report? = some text) :
    e.birth? = none := by
  cases e with
  | logged n span => cases n <;> simp_all [Event.report?, Event.birth?]
  | _ => rfl

theorem Event.plain_of_report? {texts : String → Prop} {e : Event} {text : String}
    (h : e.report? = some text) (ok : texts text) : e.Plain texts := by
  cases e with
  | reported text' tag =>
    obtain rfl : text' = text := Option.some.inj h
    exact ok
  | logged n span =>
    cases n with
    | reported text' =>
      obtain rfl : text' = text := Option.some.inj h
      exact ok
    | _ => cases h
  | _ => cases h

/-- A report that may be written at any time is one of those that are allowed. -/
theorem Event.Plain.allowed {texts : String → Prop} {e : Event} {text : String}
    (plain : e.Plain texts) (h : e.report? = some text) : texts text := by
  cases e with
  | reported text' tag =>
    obtain rfl : text' = text := Option.some.inj h
    exact plain
  | logged n span =>
    cases n with
    | reported text' =>
      obtain rfl : text' = text := Option.some.inj h
      exact plain
    | _ => cases h
  | _ => cases h

/-- An entry of a path reports what the path may report. -/
theorem Entry.Fair.allowed {texts : String → Prop} {e : Entry} {text : String}
    (fair : e.Fair texts) (h : e.event.report? = some text) : texts text := by
  cases fair with
  | plain order plain => exact plain.allowed h
  | birth order birth first =>
    rw [Event.birth?_of_report? h] at birth
    cases birth
  | fault order runs fault plain => exact plain.allowed h

theorem Event.faultOf_of_report? {e : Event} {t : Thread} {id : FiberId} {p : Payload}
    (h : e.report? = some (faultText p id t.name)) : e.FaultOf t id := by
  cases e with
  | reported text tag => exact ⟨p, Option.some.inj h⟩
  | logged n span =>
    cases n with
    | reported text => exact ⟨p, Option.some.inj h⟩
    | _ => cases h
  | _ => cases h

theorem Entry.Torn.birth? {e : Entry} (h : e.Torn) : e.event.birth? = none := by
  obtain ⟨id, span, torn⟩ := h.torn
  rw [torn]
  rfl

/-- What is added to the trace from one world to another one. -/
structure World.Adds (texts fatal : String → Prop) (w v : World) (new : List Entry) : Prop where
  trace : v.process.trace.toList = w.process.trace.toList ++ new
  due : ∀ e ∈ new, e.Due texts fatal
  regular : ∀ e ∈ new, e.thread.Regular
  level : v.process.level = w.process.level
  order : w.process.nextId ≤ v.process.nextId
  births : Level.admits w.process.level .debug → new.filterMap (fun e => e.event.birth?) =
    List.range' w.process.nextId (v.process.nextId - w.process.nextId)
  since : ∀ e ∈ new, e.Torn ∨ w.thread.KeepsMain e.thread
  steady : new.Pairwise fun e e' => e'.Torn ∨ e.thread.KeepsMain e'.thread

section

variable {texts fatal : String → Prop} {others : List FiberId} {a b : Stage} {new : List Entry}

theorem Tells.adds (tells : Tells texts a b new) :
    World.Adds texts fatal a.world b.world new where
  trace := tells.trace
  due e mem := .fair (tells.fair e mem)
  regular := tells.regular
  level := tells.level
  order := tells.order
  births := tells.births
  since e mem := .inr (tells.since e mem)
  steady := tells.steady.imp .inr

/-- The last entries after a path, when the process or the thread ends. -/
theorem Tells.close {v : World} {more : List Entry} (tells : Tells texts a b new)
    (trace : v.process.trace.toList = b.world.process.trace.toList ++ more)
    (due : ∀ e ∈ more, e.Due texts fatal) (regular : ∀ e ∈ more, e.thread.Regular) (quiet : ∀ e ∈ more, e.event.birth? = none)
    (thread : (∀ e ∈ more, e.Torn) ∨ ∀ e ∈ more, e.thread = b.world.thread)
    (level : v.process.level = b.world.process.level)
    (nextId : v.process.nextId = b.world.process.nextId) :
    World.Adds texts fatal a.world v (new ++ more) where
  trace := by rw [trace, tells.trace, List.append_assoc]
  due e mem := by
    rcases List.mem_append.mp mem with mem | mem
    · exact .fair (tells.fair e mem)
    · exact due e mem
  regular e mem := by
    rcases List.mem_append.mp mem with mem | mem
    · exact tells.regular e mem
    · exact regular e mem
  level := level.trans tells.level
  order := by
    rw [nextId]
    exact tells.order
  births admits := by
    rw [List.filterMap_append, tells.births admits, nextId, List.filterMap_eq_nil_iff.mpr quiet,
      List.append_nil]
  since e mem := by
    rcases List.mem_append.mp mem with mem | mem
    · exact .inr (tells.since e mem)
    · rcases thread with torn | same
      · exact .inl (torn e mem)
      · rw [same e mem]
        exact .inr tells.main
  steady := by
    refine List.pairwise_append.mpr ⟨tells.steady.imp .inr, ?_, ?_⟩
    · rcases thread with torn | same
      · exact List.pairwise_of_forall_mem_list fun e _ e' mem' => .inl (torn e' mem')
      · refine List.pairwise_of_forall_mem_list fun e mem e' mem' => .inr ?_
        rw [same e mem, same e' mem']
        exact fun _ isMain => isMain
    · intro e mem e' mem'
      rcases thread with torn | same
      · exact .inl (torn e' mem')
      · rw [same e' mem']
        exact .inr (tells.upTo e mem)

/-- The process ends after a report. -/
theorem Tells.fall {w u v : World} {r : Option FiberId} {s : FiberState} {h : List FiberId}
    {text : String} (tells : Tells texts a ⟨w, r, s, h⟩ new) (going : w.process.halted = false)
    (regular : w.thread.Regular) (reports : w.Reports u text) (past : World.Over u.abort.process v)
    (reported : ∀ e : Entry, e.thread = w.thread → e.event.report? = some text →
      e.Due texts fatal)
    (last : ∀ e : Entry, e.thread = w.thread →
      (e.event = .aborted ∨ ∃ o, e.event = .output o) → e.Due texts fatal) :
    ∃ new, World.Adds texts fatal a.world v new := by
  obtain ⟨-, trace, nextId, level⟩ := past
  obtain ⟨sameId, sameLevel⟩ := u.abort_same
  have written : v.process.trace.toList =
      w.process.trace.toList ++ (w.reportEntries text ++ u.lastEntries) := by
    rw [trace, World.abort_trace (reports.halted.trans going), reports.trace going,
      List.append_assoc]
  have here : ∀ e ∈ w.reportEntries text ++ u.lastEntries, e.thread = w.thread := by
    intro e mem
    rcases List.mem_append.mp mem with mem | mem
    · exact (World.reportEntries_report mem).1
    · exact (World.lastEntries_last mem).1.trans reports.thread
  refine ⟨_, tells.close written ?_ (fun e mem => by rw [here e mem]; exact regular) ?_ (.inr here)
    (level.trans (sameLevel.trans reports.level)) (nextId.trans (sameId.trans reports.nextId))⟩
  · intro e mem
    rcases List.mem_append.mp mem with mem | mem
    · obtain ⟨here, report⟩ := World.reportEntries_report mem
      exact reported e here report
    · obtain ⟨here, ends⟩ := World.lastEntries_last mem
      exact last e (here.trans reports.thread) ends
  · intro e mem
    rcases List.mem_append.mp mem with mem | mem
    · exact Event.birth?_of_report? (World.reportEntries_report mem).2
    · rcases (World.lastEntries_last mem).2 with ends | ⟨o, ends⟩ <;> rw [ends] <;> rfl

/-- The end of the process is told. -/
theorem Falls.adds {v : World} (falls : Falls texts fatal a v) (sound : a.Sound others) :
    ∃ new, World.Adds texts fatal a.world v new := by
  cases falls with
  | @contract w message r h leads cause =>
    obtain ⟨new, tells⟩ := leads.tells sound
    have after := leads.sound sound
    have order : w.thread.InOrder .exec := after.thread.inOrder .exec fun _ => rfl
    exact tells.fall after.going after.thread.regular (w.reportFatal_reports message) ⟨rfl, rfl, rfl, rfl⟩
      (fun e here report => .failed (here ▸ order) cause report)
      fun e here ends => .last (.inl (here ▸ order)) ends
  | @fault w v id p h leads ok panics past =>
    obtain ⟨new, tells⟩ := leads.tells sound
    have after := leads.sound sound
    have order : w.thread.InOrder .except := after.thread.inOrder .except fun _ => rfl
    have task : w.thread.task? = some id := after.thread.task
    refine tells.fall after.going after.thread.regular (w.report_reports _) past ?_ ?_
    · intro e here report
      have plain : e.event.Plain texts := Event.plain_of_report? report ok
      rw [← here] at order task report
      exact .fair (.fault order task (Event.faultOf_of_report? report) plain)
    · intro e here ends
      rw [← here] at order task
      exact .last (.inr ⟨id, task, order⟩) ends

end

/-! ## 3. The steps of a machine -/

namespace Machine

variable {m v : Machine} {r : Option FiberId} {texts fatal : String → Prop}
variable {ends : FiberState → Prop}

/-- The threads of a machine, each in front of the one that it has started. -/
def threads (m : Machine) : List Thread :=
  m.spawners.reverse ++ [m.world.thread]

/-- What a step keeps that does not end the process. -/
structure Keeps (texts : String → Prop) (m v : Machine) (new : List Entry) : Prop where
  /-- As long as a thread lives, it has the same main fiber. -/
  threads : ∀ (i : Nat) (t u : Thread), m.threads[i]? = some t → v.threads[i]? = some u →
    t.KeepsMain u
  entries : ∀ u, v.threads[m.spawners.length]? = some u → ∀ e ∈ new, e.thread.KeepsMain u
  /-- An error output is that of a new demonstration, or the old one with more reports. -/
  errors : ∃ start reports, (start = m.world.process.errorOutput ∨ start = "") ∧
    (∀ text ∈ reports, texts text) ∧
    v.world.process.errorOutput = start ++ printed reports

theorem threads_running (m : Machine) : m.threads[m.spawners.length]? = some m.world.thread := by
  simp [Machine.threads]

/-- No thread is above the one that runs. -/
theorem threads_above (m : Machine) {d : Nat} (above : m.spawners.length < d) :
    m.threads[d]? = none := by
  refine List.getElem?_eq_none ?_
  rw [threads, List.length_append, List.length_reverse, List.length_singleton]
  exact above

/-- Only the last of some threads has changed. -/
theorem keeps_last (ts : List Thread) {t u : Thread} (keeps : t.KeepsMain u) (i : Nat)
    (a b : Thread) (before : (ts ++ [t])[i]? = some a) (after : (ts ++ [u])[i]? = some b) :
    a.KeepsMain b := by
  rcases Nat.lt_trichotomy i ts.length with below | rfl | above
  · rw [List.getElem?_append_left below] at before after
    obtain rfl : a = b := Option.some.inj (before.symm.trans after)
    exact fun _ isMain => isMain
  · rw [List.getElem?_concat_length] at before after
    cases before
    cases after
    exact keeps
  · have out : (ts ++ [t]).length ≤ i := by
      rw [List.length_append, List.length_singleton]
      exact above
    rw [List.getElem?_eq_none out] at before
    cases before

/-- A step in which no thread starts or ends. -/
theorem keeps_of_tells {w : World} {r' : Option FiberId} {s : FiberState} {h : List FiberId}
    {b : Bool} {new : List Entry} (tells : Tells texts (m.world.stage r) ⟨w, r', s, h⟩ new) :
    Keeps texts m ⟨w, m.spawners, b⟩ new where
  threads := keeps_last _ tells.main
  entries u isLast e mem := by
    have same := (threads_running ⟨w, m.spawners, b⟩).symm.trans isLast
    cases same
    exact tells.upTo e mem
  errors := tells.errors

theorem hear_main (t : Thread) (e : Ending) : (hear t e).main = t.main := by
  unfold hear
  split <;> rfl

/-- What a step adds to the trace, and what it keeps. -/
theorem Advances.adds (advances : m.Advances texts fatal ends r v)
    (sound : Stage.Sound m.others (m.world.stage r)) :
    ∃ new, World.Adds texts fatal m.world v.world new ∧
      (v.world.process.halted = false → Keeps texts m v new) := by
  cases advances with
  | on leads ready continues =>
    obtain ⟨new, tells⟩ := leads.tells sound
    exact ⟨new, tells.adds, fun _ => keeps_of_tells tells⟩
  | @fallen w falls =>
    obtain ⟨new, adds⟩ := falls.adds sound
    refine ⟨new, adds, ?_⟩
    intro goes
    cases falls with
    | contract leads cause => cases goes
    | fault leads ok panics past => cases past.1.symm.trans goes
  | @finished w e leads body alone =>
    have stays : Stays texts _ _ := finishFirst_stays m e body _
    obtain ⟨new, tells⟩ := (leads.trans stays.leads).tells sound
    exact ⟨new, tells.adds, fun _ => keeps_of_tells tells⟩
  | @returned w e parent rest leads body waiting =>
    have stays : Stays texts _ _ := ended_stays body _
    have whole := leads.trans stays.leads
    obtain ⟨new, tells⟩ := whole.tells sound
    obtain ⟨gone, more, retires⟩ :=
      World.retire_retires (whole.sound sound) (World.releaseSlots_slots w)
    refine ⟨new ++ more, tells.close retires.trace (fun e mem => .torn (retires.torn e mem))
      (fun e mem => (retires.torn e mem).regular)
      (fun e mem => (retires.torn e mem).birth?) (.inl retires.torn) retires.level retires.nextId,
      fun _ => ⟨?_, ?_, ?_⟩⟩
    · intro i t u before after
      have fewer : i < rest.length + 1 := by
        have := (List.getElem?_eq_some_iff.mp after).1
        simpa [Machine.threads] using this
      have parents : m.threads = rest.reverse ++ [parent] ++ [m.world.thread] := by
        simp [Machine.threads, waiting]
      rw [parents, List.getElem?_append_left (by simpa using fewer)] at before
      refine keeps_last rest.reverse ?_ i t u before after
      intro id isMain
      exact (hear_main parent e).trans isMain
    · intro u after
      rw [waiting, List.getElem?_eq_none (by simp [Machine.threads])] at after
      cases after
    · have same : w.releaseSlots.retire.process.errorOutput =
          w.releaseSlots.process.errorOutput := by
        rw [Process.errorOutput, retires.program]
        rfl
      obtain ⟨start, reports, from_m, allowed, output⟩ := tells.errors
      exact ⟨start, reports, from_m, allowed, same.trans output⟩
  | @started w r' kind ops k leads body frames =>
    obtain ⟨new, tells⟩ := leads.tells sound
    have adds : World.Adds texts fatal m.world w new := tells.adds
    have children : Machine.threads { m with
        world := ⟨w.process, World.child kind ops⟩, spawners := w.thread :: m.spawners } =
          m.spawners.reverse ++ [w.thread] ++ [World.child kind ops] := by
      simp [Machine.threads]
    refine ⟨new,
      ⟨adds.trace, adds.due, adds.regular, adds.level, adds.order, adds.births, adds.since, adds.steady⟩,
      fun _ => ⟨?_, ?_, tells.errors⟩⟩
    · intro i t u before after
      have below : i < m.spawners.length + 1 := by
        have := (List.getElem?_eq_some_iff.mp before).1
        simpa [Machine.threads] using this
      rw [children, List.getElem?_append_left (by simpa using below)] at after
      exact keeps_last m.spawners.reverse tells.main i t u before after
    · intro u after
      rw [children, List.getElem?_append_left (by simp),
        List.getElem?_append_right (by simp)] at after
      simp only [List.length_reverse, Nat.sub_self, List.getElem?_cons_zero,
        Option.some.injEq] at after
      subst after
      exact tells.upTo

/-- A step from a sound state that is not the last one. -/
theorem Sound.step_adds (sound : m.Sound) (goes : m.done = false) :
    ∃ new, World.Adds m.world.MayReport m.world.MayFail m.world m.step.world new ∧
      (m.step.world.process.halted = false → Keeps m.world.MayReport m m.step new) := by
  obtain ⟨r, here, advances⟩ := sound.advances goes
  exact advances.adds here

/-- The level of the log never changes. -/
theorem Sound.steps_level (sound : m.Sound) (n : Nat) :
    (m.steps n).world.process.level = m.world.process.level := by
  induction n with
  | zero => rfl
  | succ n ih =>
    cases goes : (m.steps n).done with
    | true => rw [steps_succ_of_done goes, ih]
    | false =>
      have here := (sound.steps n).resolve_right (by simp [halted_of_goes goes])
      obtain ⟨new, adds, -⟩ := here.step_adds goes
      rw [steps_succ_of_goes goes, adds.level, ih]

/-! ## 4. The history of a run -/

/-- Every entry of a run was written by a step from a sound state. -/
theorem history {level : Option Level} {hook : ReportHook} {script : List Op} {n : Nat} {e : Entry}
    (mem : e ∈ ((start level hook script).steps n).world.process.trace.toList) :
    ∃ k < n, ∃ new, e ∈ new ∧ ((start level hook script).steps k).done = false ∧
      ((start level hook script).steps k).Sound ∧
      World.Adds ((start level hook script).steps k).world.MayReport
        ((start level hook script).steps k).world.MayFail
        ((start level hook script).steps k).world
        ((start level hook script).steps (k + 1)).world new := by
  induction n with
  | zero => simp [steps, start, Process.start] at mem
  | succ n ih =>
    cases goes : ((start level hook script).steps n).done with
    | true =>
      rw [steps_succ_of_done goes] at mem
      obtain ⟨k, below, rest⟩ := ih mem
      exact ⟨k, Nat.lt_succ_of_lt below, rest⟩
    | false =>
      have sound := sound_of_goes goes
      obtain ⟨new, adds, -⟩ := sound.step_adds goes
      rw [← steps_succ_of_goes goes] at adds
      rw [adds.trace] at mem
      rcases List.mem_append.mp mem with mem | mem
      · obtain ⟨k, below, rest⟩ := ih mem
        exact ⟨k, Nat.lt_succ_of_lt below, rest⟩
      · exact ⟨n, Nat.lt_succ_self n, new, mem, goes, sound, adds⟩

end Machine

end FiberEngine
