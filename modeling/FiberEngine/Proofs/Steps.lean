/-
FiberEngine.Proofs.Steps — what one step of a thread comes to.

A step looks at the top frame. From there it is a request that lands somewhere,
a panic that unwinds, a body that is left or a frame that is done with, and each
is a path of moves to a stage in which code is ready to go on.

The main statement is `step_steps`: a step of ready code in a sound world leads
to such a stage, ends the script of the thread, starts another thread, or ends
the process for a cause. What it may report and what may end it is said by
`World.MayReport` and `World.MayFail`, which speak of the operation that the
step begins.
-/
import FiberEngine.Proofs.Requests

namespace FiberEngine

variable {texts fatal : String → Prop} {ends : FiberState → Prop} {others : List FiberId}

namespace World

variable {w : World} {r : Option FiberId} {h : List FiberId}

/-- What a step comes to. -/
inductive Steps (texts fatal : String → Prop) (ends : FiberState → Prop) (a : Stage) :
    World × Signal → Prop
  | running {w : World} (comes : Comes texts fatal ends a w) : Steps texts fatal ends a (w, .running)
  | ended {w : World} {e : Ending} (leads : Leads texts a (w.stage none))
    (body : Body none w.thread.frames) : Steps texts fatal ends a (w, .ended e)
  | started {w : World} {r : Option FiberId} {kind : ThreadKind} {ops : List Op} {k : List Frame}
    (leads : Leads texts a (w.stage r)) (body : Body r k)
    (frames : w.thread.frames = .waiting (.join kind none) :: k) :
    Steps texts fatal ends a (w, .started (child kind ops))

theorem Steps.after {a b : Stage} {x : World × Signal} (first : Leads texts a b)
    (same : b.runner = a.runner) (steps : Steps texts fatal ends b x) :
    Steps texts fatal ends a x := by
  cases steps with
  | running comes => exact .running (comes.after first same)
  | ended leads body => exact .ended (first.trans leads) body
  | started leads body frames => exact .started (first.trans leads) body frames

/-! ## 1. Leaving frames -/

/-- Other frames of the same body go on. -/
theorem goOn_leads {k : List Frame} (base : k.getLast? = w.thread.frames.getLast?)
    (same : Frame.allHandles k = h) : Leads texts ⟨w, r, .exec, h⟩ ((w.goOn k).stage r) := by
  subst same
  exact .move (.goOn k base)

/-- An operation that waited goes on, with the handles that it has kept. -/
theorem waiting_leads {p : Pending} {k : List Frame} (frames : w.thread.frames = .waiting p :: k)
    (body : Body r k) :
    Leads texts (w.stage r) ⟨w.goOn k, r, .exec, p.handles ++ Frame.allHandles k⟩ := by
  rw [stage, frames]
  exact .move (.goOn k (by rw [frames, body.getLast?_cons]))

/-- A frame between operations is left, and what is below it goes on. -/
theorem popped_leads {fr : Frame} {k : List Frame} (frames : w.thread.frames = fr :: k)
    (inner : fr.isInner) (rest : Body r k) : Leads texts (w.stage r) ((w.goOn k).stage r) :=
  goOn_leads (by rw [frames, rest.getLast?_cons]) (by rw [frames, Body.allHandles_cons inner])

/-- An operation begins, and the code goes on with those after it. -/
theorem begun_leads {op : Op} {rest : List Op} {k : List Frame}
    (frames : w.thread.frames = .ops (op :: rest) :: k) (body : Body r k) :
    Leads texts (w.stage r) ((w.goOn (.ops rest :: k)).stage r) :=
  goOn_leads (by rw [frames, body.getLast?_cons, body.getLast?_cons]) (by rw [frames]; rfl)

/-- Something that stays in place, and the code goes on. -/
theorem stays_steps {a : Stage} {v : World} (first : Leads texts a (w.stage r))
    (same : a.runner = r) (body : Body r w.thread.frames)
    (stays : Stays texts (w.stage r) ⟨v, r, .exec, Frame.allHandles w.thread.frames⟩) :
    Steps texts fatal ends a (v, .running) := by
  have leads := first.trans stays.leads
  have frames : v.thread.frames = w.thread.frames := stays.frames
  rw [← frames] at leads body
  exact .running (.on leads (.body body) (same ▸ continues_of_body body))

theorem endDemo_stays (d : Demo) (panic : Option Payload) :
    Stays texts ⟨w, r, .exec, h⟩ ⟨w.endDemo d panic, r, .exec, h⟩ := by
  have cleared : Stays texts ⟨w, r, .exec, h⟩
      ⟨w.onThread fun t => t.clearSlot .own, r, .exec, (w.thread.slot? .own).toList ++ h⟩ :=
    ⟨.move (.clearSlot .own), rfl, rfl⟩
  have released := cleared.trans (release_stays _)
  refine released.trans (.trans ?_ (.emit _ trivial rfl))
  exact .tune _ ⟨rfl, rfl, rfl, rfl, rfl, rfl, .inr rfl⟩

/-- A panic unwinds to the frame that stops it. -/
theorem unwind_steps (faults : ∀ p id name, texts (faultText p id name)) (ok : ends .except)
    (p : Payload) (sound : Stage.Sound others (w.stage r))
    (body : Body r w.thread.frames) : Steps texts fatal ends (w.stage r) (w.unwind p) := by
  have stop := body.unwind
  have suffix : (w.thread.frames.dropWhile fun f => !f.stopsPanic) <:+ w.thread.frames :=
    List.dropWhile_suffix _
  unfold unwind
  generalize w.thread.frames.dropWhile (fun f => !f.stopsPanic) = k at stop suffix
  have below : ∀ {fr k'}, k = fr :: k' → Body r k' → k'.getLast? = w.thread.frames.getLast? := by
    rintro fr k' rfl rest
    rw [← Body.getLast?_of_suffix suffix, rest.getLast?_cons]
  cases stop with
  | catching rest same =>
    exact stays_steps (goOn_leads (below rfl rest) same) rfl rest (.emit _ trivial rfl)
  | program rest same =>
    exact stays_steps (goOn_leads (below rfl rest) same) rfl rest (endDemo_stays _ _)
  | task mine same =>
    subst mine
    rw [stage, same] at sound ⊢
    have base := (Body.getLast?_of_suffix suffix).symm
    exact .running (finish_comes (.faulted p) faults ok base sound)
  | script mine same =>
    subst mine
    exact .ended (.refl _) body

/-- An early return leaves the body. -/
theorem leave_steps (faults : ∀ p id name, texts (faultText p id name)) (ok : ends .term)
    (v : Datum) (sound : Stage.Sound others (w.stage r))
    (body : Body r w.thread.frames) : Steps texts fatal ends (w.stage r) (w.leave v) := by
  have suffix : (w.thread.frames.dropWhile fun f => !f.isBase) <:+ w.thread.frames :=
    List.dropWhile_suffix _
  unfold leave
  rcases body.leave with ⟨f, tag, keep, rfl, same, base⟩ | ⟨rfl, base⟩
  · rw [stage, same] at sound ⊢
    rw [base] at suffix ⊢
    have base := (Body.getLast?_of_suffix suffix).symm
    exact .running (finish_comes (.returned v) faults ok base sound)
  · rw [base]
    exact .ended (.refl _) body

/-- An answer is recorded, or it is taken for a panic by a demonstration. -/
theorem conclude_steps (faults : ∀ p id name, texts (faultText p id name)) (ok : ends .except)
    (name : String) {reply : Reply} (plain : reply.Plain)
    (sound : Stage.Sound others (w.stage r)) (body : Body r w.thread.frames) :
    Steps texts fatal ends (w.stage r) (w.conclude name reply) := by
  unfold conclude
  split
  · exact stays_steps (.refl _) rfl body (.emit _ plain rfl)
  · split
    · exact .running (.on (.refl _) (.body body) (continues_of_body body))
    · exact unwind_steps faults ok _ sound body

/-- What a thread does after an operation. -/
theorem settle_steps {a : Stage} {x : World × Outcome} (name : String)
    (faults : ∀ p id name, texts (faultText p id name)) (ok : ends .except)
    (sound : a.Sound others) (body : Body a.runner a.world.thread.frames)
    (lands : Lands texts fatal a (Frame.allHandles a.world.thread.frames) x) :
    Steps texts fatal ends a (settle name x) := by
  cases lands with
  | @done v reply stays plain =>
    have frames : v.thread.frames = a.world.thread.frames := stays.frames
    rw [← frames] at stays body
    exact (conclude_steps faults ok name plain (stays.sound sound) body).after stays.leads rfl
  | @panicked v p stays =>
    have frames : v.thread.frames = a.world.thread.frames := stays.frames
    rw [← frames] at stays body
    exact (unwind_steps faults ok p (stays.sound sound) body).after stays.leads rfl
  | next leads ready continues => exact .running (.on leads ready (continues.mono fun _ => False.elim))
  | aborted falls => exact .running (.fallen falls)
  | started leads frames => exact .started leads body frames

/-! ## 2. The step -/

/-- The next step starts an operation, in a world whose code goes on behind it. -/
def Starts (w : World) (op : Op) (v : World) : Prop :=
  ∃ rest k, w.thread.frames = .ops (op :: rest) :: k ∧ v = w.goOn (.ops rest :: k)

/-- What the next step may report. -/
inductive MayReport (w : World) : String → Prop
  | fault (p : Payload) (id : FiberId) (name : String) : MayReport w (faultText p id name)
  | size (e : ConfigError) : MayReport w (unavailableText e)
  | asked {text : String} {v : World} (starts : w.Starts (.report text) v) : MayReport w text
  | violated {op : Op} {v : World} {e : FiberError} (starts : w.Starts op v)
    (violates : v.Violates op e) : MayReport w (fatalText e.message)

/-- The next step ends a callback by a return: no code of it is left, or it is
left early. -/
def Concludes (w : World) : Prop :=
  (∃ id tag keep k, w.thread.frames = .task id tag keep :: k) ∨ ∃ v u, w.Starts (.leave v) u

/-- The state of a fiber whose callback ends in the next step: only a callback
that returns ends well. -/
def MayEnd (w : World) (last : FiberState) : Prop :=
  last = .term ↔ w.Concludes

/-- What may be said when the next step ends the process. -/
inductive MayFail (w : World) : String → Prop
  | violated {op : Op} {v : World} {e : FiberError} (starts : w.Starts op v)
    (violates : v.Violates op e) : MayFail w e.message

theorem mayEnd_term (concludes : w.Concludes) : w.MayEnd .term :=
  iff_of_true rfl concludes

/-- Otherwise a callback that ends in the next step ends by a panic. -/
theorem mayEnd_except {fr : Frame} {k : List Frame} (frames : w.thread.frames = fr :: k)
    (goes : fr.owner? = none) (stays : ∀ v rest, fr ≠ .ops (.leave v :: rest)) :
    w.MayEnd .except := by
  refine iff_of_false (by decide) ?_
  rintro (⟨id, tag, keep, k', same⟩ | ⟨v, u, rest, k', same, -⟩)
  · cases frames.symm.trans same
    cases goes
  · cases frames.symm.trans same
    exact stays v rest rfl

theorem permits_of_starts {op : Op} {v : World} (starts : w.Starts op v) :
    v.Permits op w.MayReport w.MayFail where
  sizes := .size
  asked _ same := .asked (same ▸ starts)
  violated _ violates := ⟨.violated starts violates, .violated starts violates⟩

/-- An operation is begun. -/
theorem perform_steps {op : Op} {rest : List Op} {k : List Frame}
    (sound : Stage.Sound others (w.stage r)) (frames : w.thread.frames = .ops (op :: rest) :: k)
    (body : Body r k) : Steps w.MayReport w.MayFail w.MayEnd (w.stage r)
      (settle op.name ((w.goOn (.ops rest :: k)).perform op)) := by
  have went : Leads w.MayReport (w.stage r) ((w.goOn (.ops rest :: k)).stage r) :=
    begun_leads frames body
  have body : Body r (.ops rest :: k) := .ops rest body
  have sound := went.sound sound
  refine Steps.after went rfl ?_
  by_cases request : ∀ v, op ≠ .leave v
  · have permits := permits_of_starts (w := w) ⟨rest, k, frames, rfl⟩
    have ends : w.MayEnd .except := mayEnd_except frames rfl fun v rest' same => by
      cases same
      exact request v rfl
    exact settle_steps op.name .fault ends sound body (perform_lands sound body request permits)
  · obtain ⟨v, rfl⟩ : ∃ v, op = .leave v := by simpa using request
    have leaves : w.Concludes := .inr ⟨v, _, rest, k, frames, rfl⟩
    exact leave_steps .fault (mayEnd_term leaves) v sound body

/-- One step of a thread whose code is ready. -/
theorem step_steps (sound : Stage.Sound others (w.stage r)) (ready : w.thread.Ready r) :
    Steps w.MayReport w.MayFail w.MayEnd (w.stage r) w.step := by
  cases ready with
  | @behind p k frames body home =>
    simp only [step, frames]
    have went : Leads w.MayReport (w.stage r) _ := waiting_leads frames body
    have ends : w.MayEnd .except := mayEnd_except frames rfl fun v rest same => by cases same
    exact (settle_steps p.name .fault ends (went.sound sound) body
      (carryOn_lands (w := w.goOn k) (went.sound sound) body home)).after went rfl
  | body body =>
    -- the cases are those of the frame on top
    generalize frames : w.thread.frames = k at body
    cases body with
    | script =>
      simp only [step, frames]
      exact .ended (.refl _) (frames ▸ .script)
    | task f tag keep =>
      have account : w.stage (some f) = ⟨w, some f, .exec, f :: keep⟩ := by
        simp [stage, frames, Frame.handles]
      rw [account] at sound ⊢
      simp only [step, frames]
      have ends : w.MayEnd .term := mayEnd_term (.inl ⟨f, tag, keep, [], frames⟩)
      exact .running (finish_comes (.returned .null) .fault ends (by rw [frames]; rfl) sound)
    | @inner _ fr k hfr rest =>
      have went : Leads w.MayReport (w.stage r) ((w.goOn k).stage r) :=
        popped_leads frames hfr rest
      cases fr with
      | ops ops =>
        cases ops with
        | nil =>
          simp only [step, frames]
          exact .running (.on went (.body rest) (continues_of_body rest))
        | cons op ops =>
          simp only [step, frames]
          exact perform_steps sound frames rest
      | loop times ops =>
        cases times with
        | zero =>
          simp only [step, frames]
          exact .running (.on went (.body rest) (continues_of_body rest))
        | succ n =>
          have again : Body r (.ops ops :: .loop n ops :: k) := .ops ops (.loop n ops rest)
          have round : Leads w.MayReport (w.stage r)
              ((w.goOn (.ops ops :: .loop n ops :: k)).stage r) := by
            refine goOn_leads ?_ (by rw [frames]; rfl)
            rw [frames, (rest.loop n ops).getLast?_cons, rest.getLast?_cons, rest.getLast?_cons]
          simp only [step, frames]
          exact .running (.on round (.body again) (continues_of_body again))
      | catching =>
        simp only [step, frames]
        have plain : Reply.Plain .fine := trivial
        have ends : w.MayEnd .except := mayEnd_except frames rfl fun v rest same => by cases same
        exact (conclude_steps .fault ends _ plain (went.sound sound) rest).after went rfl
      | program d =>
        simp only [step, frames]
        exact stays_steps went rfl rest (endDemo_stays d none)
      | waiting p => cases hfr
      | task f tag keep => cases hfr
      | script => cases hfr

end World

end FiberEngine
