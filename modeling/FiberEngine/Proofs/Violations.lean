/-
FiberEngine.Proofs.Violations — what ends a process, and what is reported.

The engine makes assertions about itself, and none of them ever fails: a process
ends by a violated contract, or by a hook that panics over the report of a fault.
A contract is violated by a trusted request whose checked form is refused, and
the cause is one that a caller can mend: `Violates.refusal`.

`World.Reported` and `World.Ends` list the causes of a report and of an end. The
main statement is `assertions_hold`, for every step of every run, also after a
hook has panicked over a fatal report.
-/
import FiberEngine.Proofs.Current

namespace FiberEngine

variable {others : List FiberId}

/-! ## 1. Causes of a violation -/

/-- The checked form of a request is not an early return. -/
theorem Op.checked?_request {op form : Op} (trusts : op.checked? = some form) (v : Datum) :
    form ≠ .leave v := by
  rintro rfl
  cases op with
  | resume m f => cases m <;> cases trusts
  | pause m f => cases m <;> cases trusts
  | reset m f body tag keep => cases m <;> cases trusts
  | park p => cases trusts
  | drive f max => cases trusts
  | _ => cases trusts

namespace World

variable {w v : World} {r : Option FiberId} {op : Op} {e : FiberError}

/-- A contract is violated for a cause that a caller can mend. -/
theorem Violates.refusal (violates : w.Violates op e) (sound : Stage.Sound others (w.stage r))
    (body : Body r w.thread.frames) : e.Refusal := by
  cases violates with
  | @refused _ form v s _ trusts calls refused =>
    have permits : w.Permits form (fun _ => True) fun _ => True :=
      ⟨fun _ => trivial, fun _ _ => trivial, fun _ _ => ⟨trivial, trivial⟩⟩
    have lands := perform_lands sound body (Op.checked?_request trusts) permits
    rw [refused] at lands
    cases lands with
    | done stays plain => exact plain
  | nested inside => trivial

/-- The world in which an operation starts. -/
theorem Starts.sound (starts : w.Starts op v) (sound : Stage.Sound others (w.stage r))
    (ready : w.thread.Ready r) :
    Stage.Sound others (v.stage r) ∧ Body r v.thread.frames := by
  obtain ⟨rest, k, frames, rfl⟩ := starts
  obtain ⟨below, -⟩ := (ready.code frames (by simp)).of_inner rfl
  have went : Leads (fun _ => False) (w.stage r) ((w.goOn (.ops rest :: k)).stage r) :=
    begun_leads frames below
  exact ⟨went.sound sound, .ops rest below⟩

/-! ## 2. Causes of a report, and of the end -/

/-- How the report of a fault reads, for a panic with a text and for any other one. -/
inductive TellsFault (id : FiberId) (thread : String) : Payload → String → Prop
  | text (s : String) : TellsFault id thread (.text s)
      ("Fiber Except: " ++ s ++ "  fiber id = " ++ toString id ++ " thread = " ++ thread ++
        "\n    <backtrace disabled>\n")
  | other : TellsFault id thread .other
      ("Fiber Except: " ++ "non-string panic payload" ++ "  fiber id = " ++ toString id ++
        " thread = " ++ thread ++ "\n    <backtrace disabled>\n")

theorem tellsFault_faultText (p : Payload) (id : FiberId) (thread : String) :
    TellsFault id thread p (faultText p id thread) := by
  cases p with
  | text s => exact .text s
  | other => exact .other

/-- Why a text is reported in a step. -/
inductive Reported (w : World) (text : String) : Prop
  /-- The default size of stacks is not available. -/
  | size (e : ConfigError) (same : text = unavailableText e)
  | asked {v : World} (starts : w.Starts (.report text) v)
  | fault (p : Payload) (id : FiberId) (name : String) (same : text = faultText p id name)
    (tells : TellsFault id name p text)
  | violated {op : Op} {v : World} {e : FiberError} (starts : w.Starts op v)
    (violates : v.Violates op e) (refusal : e.Refusal) (same : text = fatalText e.message)
    (tells : text = "ASSERTION: " ++ e.message ++ "\nbacktrace:\n" ++ "    <frames>\n")

/-- Why a step ends the process. -/
inductive Ends (w v : World) : Prop
  | violated {op : Op} {u x : World} {e : FiberError} {new : List Entry} (starts : w.Starts op u)
    (violates : u.Violates op e) (refusal : e.Refusal)
    (before : x.process.trace.toList = w.process.trace.toList ++ new)
    (ends : v = (x.reportFatal e.message).1.abort)
  /-- The hook panics over the report of the fault of the task that runs. -/
  | fault {x : World} {id : FiberId} {p : Payload} {new : List Entry}
    (before : x.process.trace.toList = w.process.trace.toList ++ new)
    (runs : x.thread.task? = some id)
    (panics : (x.report (faultText p id x.thread.name)).2 ≠ none)
    (ends : v.process.trace = (x.report (faultText p id x.thread.name)).1.abort.process.trace)

theorem reported_of_mayReport {text : String} (may : w.MayReport text)
    (sound : Stage.Sound others (w.stage r)) (ready : w.thread.Ready r) : w.Reported text := by
  cases may with
  | fault p id name => exact .fault p id name rfl (tellsFault_faultText p id name)
  | size e => exact .size e rfl
  | asked starts => exact .asked starts
  | violated starts violates =>
    obtain ⟨sound, body⟩ := starts.sound sound ready
    exact .violated starts violates (violates.refusal sound body) rfl rfl

theorem ends_of_falls (falls : Falls w.MayReport w.MayFail (w.stage r) v)
    (sound : Stage.Sound others (w.stage r)) (ready : w.thread.Ready r) : w.Ends v := by
  cases falls with
  | contract leads cause =>
    obtain ⟨new, tells⟩ := leads.tells sound
    cases cause with
    | violated starts violates =>
      obtain ⟨sound, body⟩ := starts.sound sound ready
      exact .violated starts violates (violates.refusal sound body) tells.trace rfl
  | fault leads ok panics past =>
    obtain ⟨new, tells⟩ := leads.tells sound
    exact .fault tells.trace (leads.sound sound).thread.task panics past.2.1

end World

/-- Whatever a step writes as a report has a cause. -/
theorem Entry.Due.reported {w : World} {r : Option FiberId} {e : Entry} {text : String}
    (due : e.Due w.MayReport w.MayFail) (report : e.event.report? = some text)
    (sound : Stage.Sound others (w.stage r)) (ready : w.thread.Ready r) : w.Reported text := by
  cases due with
  | fair fair => exact World.reported_of_mayReport (fair.allowed report) sound ready
  | torn torn =>
    obtain ⟨id, span, event⟩ := torn.torn
    rw [event] at report
    cases report
  | @failed message order cause fatal =>
    obtain rfl : text = fatalText message := Option.some.inj (report.symm.trans fatal)
    cases cause with
    | violated starts violates =>
      exact World.reported_of_mayReport (.violated starts violates) sound ready
  | last order last =>
    rcases last with last | ⟨o, last⟩ <;> rw [last] at report <;> cases report

/-- An answer never says that a context is missing. -/
theorem Entry.Due.plain {texts fatal : String → Prop} {e : Entry} (due : e.Due texts fatal)
    {name : String} {reply : Reply} (answers : e.event = .completed name reply) : reply.Plain := by
  cases due with
  | fair fair =>
    cases fair with
    | plain order plain =>
      rw [answers] at plain
      exact plain
    | birth order birth first =>
      rw [answers] at birth
      cases birth
    | fault order runs fault plain =>
      rw [answers] at fault
      exact fault.elim
  | torn torn =>
    obtain ⟨id, span, event⟩ := torn.torn
    rw [answers] at event
    cases event
  | failed order cause report =>
    rw [answers] at report
    cases report
  | last order last =>
    rw [answers] at last
    rcases last with last | ⟨o, last⟩ <;> cases last

/-! ## 3. Assertions of the engine -/

/-- What the engine asserts about itself, as it would be reported. -/
inductive Assertion : String → Prop
  /-- A fiber that was resumed has somewhere to go on. -/
  | context (id : FiberId) : Assertion ("never reach fiber_id = " ++ toString id)
  /-- A fiber that is entered has a callback. -/
  | callback (id : FiberId) :
    Assertion ("fiber " ++ toString id ++ " entered without a callback")
  /-- A fiber is destroyed only while no code is on it. -/
  | destruction {f : Fiber} {message : String} (fault : f.destructionFault? = some message) :
    Assertion message
  /-- A switch into a task finds a place for the code of the main fiber. -/
  | place : Assertion World.noMainFiber
  /-- A switch back finds the code of the main fiber. -/
  | main (id : FiberId) : Assertion (FiberError.missingContext id).message

/-- A text begins as its first part does. -/
theorem head?_append {s : String} {c : Char} (t : String) (h : s.toList.head? = some c) :
    (s ++ t).toList.head? = some c := by
  rw [String.toList_append, List.head?_append, h, Option.some_or]

/-- The last letters of a text, from the back. -/
def ending (s : String) : List Char :=
  s.toList.reverse.take 5

/-- A text ends as its last part does. -/
theorem ending_append {t : String} (s : String) (h : 5 ≤ t.toList.length) :
    ending (s ++ t) = ending t := by
  rw [ending, String.toList_append, List.reverse_append,
    List.take_append_of_le_length (by simpa using h), ending]

/-- What the messages of refusals have in common. -/
theorem FiberError.Refusal.text {e : FiberError} (refusal : e.Refusal) :
    e.message.toList.head? = some 'c' ∨ e.message.toList.head? = some 't' ∨
      e.message.toList.head? = some 'f' ∧
        (ending e.message = ending " owns no stack" ∨ ending e.message = ending " is running") := by
  cases e with
  | invalidState op id state =>
    exact .inl <| head?_append _ <| head?_append _ <| head?_append _ <| head?_append _ <|
      head?_append _ rfl
  | mainFiberYield id => exact .inr (.inl (head?_append _ (head?_append _ rfl)))
  | noStack id =>
    exact .inr (.inr ⟨head?_append _ (head?_append _ rfl), .inl (ending_append _ (by decide))⟩)
  | notOnMainFiber id current | notRunning id current =>
    exact .inr (.inr ⟨head?_append _ (head?_append _ (head?_append _ (head?_append _ rfl))),
      .inr (ending_append _ (by decide))⟩)
  | stackAlloc _ | stackTooSmall _ _ | missingContext _ => exact refusal.elim

theorem Fiber.head?_destructionFault {f : Fiber} {message : String}
    (fault : f.destructionFault? = some message) :
    message.toList.head? = some 'm' ∨ message.toList.head? = some 'd' := by
  unfold Fiber.destructionFault? at fault
  split at fault
  · split at fault
    · cases fault
      exact .inl (head?_append _ (head?_append _ rfl))
    · split at fault <;> cases fault
      exact .inr (head?_append _ (head?_append _ (head?_append _ rfl)))
  · split at fault <;> cases fault
    exact .inr (head?_append _ (head?_append _ (head?_append _ rfl)))

/-- What the messages of assertions have in common. -/
theorem Assertion.text {s : String} (h : Assertion s) :
    (∃ c ∈ ['s', 'n', 'm', 'd'], s.toList.head? = some c) ∨
      s.toList.head? = some 'f' ∧ (ending s = ending " entered without a callback" ∨
        ending s = ending " has no saved execution context") := by
  cases h with
  | place => exact .inl ⟨'s', by decide, rfl⟩
  | context id => exact .inl ⟨'n', by decide, head?_append _ rfl⟩
  | callback id =>
    exact .inr ⟨head?_append _ (head?_append _ rfl), .inl (ending_append _ (by decide))⟩
  | destruction fault =>
    rcases Fiber.head?_destructionFault fault with first | first
    · exact .inl ⟨'m', by decide, first⟩
    · exact .inl ⟨'d', by decide, first⟩
  | main id =>
    exact .inr ⟨head?_append _ (head?_append _ rfl), .inr (ending_append _ (by decide))⟩

/-- The message of a refusal is not that of an assertion. -/
theorem FiberError.Refusal.not_assertion {e : FiberError} (refusal : e.Refusal) :
    ¬ Assertion e.message := by
  intro h
  rcases h.text with ⟨c, mem, second⟩ | ⟨second, last'⟩
  · rcases refusal.text with first | first | ⟨first, -⟩ <;>
      obtain rfl := Option.some.inj (second.symm.trans first) <;> exact absurd mem (by decide)
  · rcases refusal.text with first | first | ⟨-, last⟩
    · rw [first] at second
      cases second
    · rw [first] at second
      cases second
    · rcases last with last | last <;> rcases last' with last' | last' <;> rw [last] at last' <;>
        exact absurd last' (by decide)

theorem fatalText_inj {s t : String} (h : fatalText s = fatalText t) : s = t := by
  simp only [fatalText, String.append_assoc] at h
  exact (String.append_left_inj _).mp ((String.append_right_inj _).mp h)

theorem head?_fatalText (message : String) : (fatalText message).toList.head? = some 'A' :=
  head?_append _ (head?_append _ (head?_append _ rfl))

theorem faultText_ne_fatalText (p : Payload) (id : FiberId) (name message : String) :
    faultText p id name ≠ fatalText message := by
  intro h
  have starts : (faultText p id name).toList.head? = some 'F' :=
    head?_append _ <| head?_append _ <| head?_append _ <| head?_append _ <| head?_append _ <|
      head?_append _ rfl
  rw [h, head?_fatalText] at starts
  cases starts

theorem unavailableText_ne_fatalText (e : ConfigError) (message : String) :
    World.unavailableText e ≠ fatalText message := by
  intro h
  have starts : (World.unavailableText e).toList.head? = some 'f' :=
    head?_append _ <| head?_append _ <| head?_append _ <| head?_append _ rfl
  rw [h, head?_fatalText] at starts
  cases starts

/-- An assertion is reported only as a text that a script asks to be reported. -/
theorem World.Reported.asked_of_assertion {w : World} {message : String}
    (reported : w.Reported (fatalText message)) (assertion : Assertion message) :
    ∃ v, w.Starts (.report (fatalText message)) v := by
  cases reported with
  | size e same => exact absurd same.symm (unavailableText_ne_fatalText e message)
  | asked starts => exact ⟨_, starts⟩
  | fault p id name same tells => exact absurd same.symm (faultText_ne_fatalText p id name message)
  | violated starts violates refusal same tells =>
    obtain rfl := fatalText_inj same
    exact absurd assertion refusal.not_assertion

/-! ## 4. Whole runs -/

namespace Machine

/-- No assertion of the engine ever fails. Whatever a run reports has a cause, no
answer says that a context is missing, a process ends for a cause, and what is
printed as a report has a cause, too. -/
theorem assertions_hold (level : Option Level) (hook : ReportHook) (script : List Op) (n : Nat) :
    (∀ e ∈ ((start level hook script).steps n).world.process.trace.toList,
      (∀ text, e.event.report? = some text → ∃ k < n,
        ((start level hook script).steps k).done = false ∧
        ((start level hook script).steps k).world.Reported text ∧
        ∀ message, Assertion message → text = fatalText message →
          ∃ v, ((start level hook script).steps k).world.Starts (.report text) v) ∧
      ∀ name reply, e.event = .completed name reply → reply.Plain) ∧
    (((start level hook script).steps n).done = false →
      (((start level hook script).steps n).step.world.process.halted = true →
        ((start level hook script).steps n).world.Ends
          ((start level hook script).steps n).step.world) ∧
      (((start level hook script).steps n).step.world.process.halted = false →
        ∃ before reports, (before = ((start level hook script).steps n).world.process.errorOutput ∨
          before = "") ∧
        (∀ text ∈ reports, ((start level hook script).steps n).world.Reported text) ∧
        ((start level hook script).steps n).step.world.process.errorOutput =
          before ++ printed reports)) := by
  refine ⟨fun e mem => ⟨?_, ?_⟩, ?_⟩
  · intro text report
    obtain ⟨k, below, new, mem, goes, sound, adds⟩ := history mem
    obtain ⟨r, here, ready⟩ := sound.running
    have reported := (adds.due e mem).reported report here (ready (finished_of_goes goes))
    refine ⟨k, below, goes, reported, ?_⟩
    intro message assertion same
    subst same
    exact reported.asked_of_assertion assertion
  · intro name reply answers
    obtain ⟨k, -, new, mem, -, -, adds⟩ := history mem
    exact (adds.due e mem).plain answers
  · intro goes
    obtain ⟨r, here, ready⟩ := (sound_of_goes goes).running
    have ready := ready (finished_of_goes goes)
    have advances := step_advances here ready
    refine ⟨?_, ?_⟩
    · intro halted
      exact World.ends_of_falls (advances.falls here halted) here ready
    · intro going
      obtain ⟨new, -, keeps⟩ := advances.adds here
      obtain ⟨before, reports, from_n, allowed, output⟩ := (keeps going).errors
      exact ⟨before, reports, from_n,
        fun text mem => World.reported_of_mayReport (allowed text mem) here ready, output⟩

end Machine

end FiberEngine
