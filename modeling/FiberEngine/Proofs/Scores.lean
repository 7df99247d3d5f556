/-
FiberEngine.Proofs.Scores — what code does that concerns its own fiber alone.

A body that only says values, fails, catches, repeats, returns and suspends
itself asks nothing of the thread that it runs on. What it does is settled by its
text: `Op.score` lists the answers that it records and the places at which it
suspends itself, in order, and says how it is left. A suspension is where one
resume ends and the next one begins, so `Score.rounds` cuts a score into what
each resume brings.

`Frame.score` is the score of code that is under way, and `step_plays` says
that one step of such code plays no more than the next beat of its score.
-/
import FiberEngine.Proofs.Weights

namespace FiberEngine

/-! ## 1. Scores -/

/-- One thing that such code does. -/
inductive Beat where
  /-- It records the answer to an operation. -/
  | answer (op : String) (reply : Reply)
  /-- It suspends its fiber. -/
  | park (p : Parking)

/-- How code is left. -/
inductive Exit where
  | through
  | left (v : Datum)
  | panicked (p : Payload)

/-- What code does, and how it is left. -/
structure Score where
  beats : List Beat
  exit : Exit

namespace Score

/-- Nothing is done. -/
def idle : Score :=
  ⟨[], .through⟩

/-- One thing more, at the beginning. -/
def cons (b : Beat) (c : Score) : Score :=
  ⟨b :: c.beats, c.exit⟩

/-- Code goes on with other code, unless it is left before. -/
def andThen (c d : Score) : Score :=
  match c.exit with
  | .through => ⟨c.beats ++ d.beats, d.exit⟩
  | .left _ | .panicked _ => c

def times (c : Score) : Nat → Score
  | 0 => idle
  | n + 1 => c.andThen (c.times n)

/-- A caught block answers how it ended. An early return passes through it. -/
def caught (c : Score) : Score :=
  match c.exit with
  | .through => ⟨c.beats ++ [.answer (Op.attempt []).name .fine], .through⟩
  | .panicked p => ⟨c.beats ++ [.answer (Op.attempt []).name (.panicked p.text?)], .through⟩
  | .left _ => c

variable (b : Beat) (c d : Score)

@[simp]
theorem idle_andThen : idle.andThen c = c :=
  rfl

@[simp]
theorem andThen_idle : c.andThen idle = c := by
  obtain ⟨beats, exit⟩ := c
  cases exit <;> simp [andThen, idle]

@[simp]
theorem cons_andThen : (cons b c).andThen d = cons b (c.andThen d) := by
  obtain ⟨beats, exit⟩ := c
  cases exit <;> rfl

@[simp]
theorem cons_caught : (cons b c).caught = cons b c.caught := by
  obtain ⟨beats, exit⟩ := c
  cases exit <;> rfl

@[simp]
theorem idle_times (n : Nat) : idle.times n = idle := by
  induction n with
  | zero => rfl
  | succ n ih => rw [times, ih, andThen_idle]

end Score

/-! ## 2. Operations that concern their own fiber alone -/

mutual

/-- The operation asks nothing of the thread that it runs on. -/
def Op.solitary : Op → Bool
  | .say _ | .leave _ | .panic _ | .park _ => true
  | .loop _ body => Op.solitaryAll body
  | .attempt body => Op.solitaryAll body
  | _ => false

/-- All operations of the block are of this kind. -/
def Op.solitaryAll : List Op → Bool
  | [] => true
  | op :: rest => op.solitary && Op.solitaryAll rest

end

mutual

/-- What an operation of this kind does. -/
def Op.score : Op → Score
  | .say v => ⟨[.answer (Op.say v).name (.value v)], .through⟩
  | .leave v => ⟨[], .left v⟩
  | .panic p => ⟨[], .panicked p⟩
  | .park p => ⟨[.park p, .answer (Pending.park p).name .nothing], .through⟩
  | .loop times body => (Op.scoreAll body).times times
  | .attempt body => (Op.scoreAll body).caught
  | _ => .idle

/-- What a block of such operations does. -/
def Op.scoreAll : List Op → Score
  | [] => .idle
  | op :: rest => op.score.andThen (Op.scoreAll rest)

end

namespace Frame

/-- The code below a caught block, a loop or the rest of a block goes on when what
is above has been done. -/
def after (c : Score) : List Frame → Score
  | [] => c
  | .ops rest :: k => after (c.andThen (Op.scoreAll rest)) k
  | .loop times body :: k => after (c.andThen ((Op.scoreAll body).times times)) k
  | .catching :: k => after c.caught k
  | .waiting p :: k => after (c.andThen ⟨[.answer p.name .nothing], .through⟩) k
  | .program _ :: k | .task .. :: k | .script :: k => after c k

/-- What code does that is under way. -/
def score (k : List Frame) : Score :=
  after .idle k

/-- A frame that concerns its own fiber alone. -/
def solitary : Frame → Bool
  | .ops rest => Op.solitaryAll rest
  | .loop _ body => Op.solitaryAll body
  | .catching => true
  | .waiting (.park _) => true
  | _ => false

theorem after_cons (b : Beat) (c : Score) (k : List Frame) :
    after (c.cons b) k = (after c k).cons b := by
  induction k generalizing c with
  | nil => rfl
  | cons fr k ih =>
    cases fr with
    | ops rest => simp [after, ih]
    | loop times body => simp [after, ih]
    | catching => simp [after, ih]
    | waiting p => simp [after, ih]
    | program d => exact ih c
    | task f tag keep => exact ih c
    | script => exact ih c

/-- An early return passes through all code. -/
theorem after_left (v : Datum) (k : List Frame) : after ⟨[], .left v⟩ k = ⟨[], .left v⟩ := by
  induction k with
  | nil => rfl
  | cons fr k ih => cases fr <;> exact ih

end Frame

/-- The code of the callback of a fiber, all of which concerns this fiber alone. -/
inductive Solitary (x : FiberId) (tag : Option String) (keep : List FiberId) :
    List Frame → Prop
  | task : Solitary x tag keep [.task x tag keep]
  | cons {fr : Frame} {k : List Frame} (own : fr.solitary) (rest : Solitary x tag keep k) :
    Solitary x tag keep (fr :: k)

namespace Solitary

variable {x : FiberId} {tag : Option String} {keep : List FiberId} {k : List Frame}

theorem getLast? (h : Solitary x tag keep k) : k.getLast? = some (.task x tag keep) := by
  induction h with
  | task => rfl
  | @cons fr k own rest ih => cases rest <;> exact ih

theorem handles (h : Solitary x tag keep k) : Frame.allHandles k = x :: keep := by
  induction h with
  | task => simp [Frame.handles]
  | @cons fr k own rest ih =>
    have none : fr.handles = [] := by
      cases fr with
      | waiting p => cases p <;> first | rfl | cases own
      | ops rest => rfl
      | loop times body => rfl
      | catching => rfl
      | program d => cases own
      | task f tag keep => cases own
      | script => cases own
    rw [Frame.allHandles_cons, none, ih, List.nil_append]

/-- Where such code is left for good. -/
theorem leave (h : Solitary x tag keep k) :
    k.dropWhile (fun f => !f.isBase) = [.task x tag keep] := by
  induction h with
  | task => rfl
  | @cons fr k own rest ih => cases fr <;> first | exact ih | cases own

/-- Where a panic is stopped. -/
theorem unwind (h : Solitary x tag keep k) (p : Payload) :
    (∃ k', k.dropWhile (fun f => !f.stopsPanic) = .catching :: k' ∧ Solitary x tag keep k' ∧
      Frame.weights k' < Frame.weights k ∧ Frame.after ⟨[], .panicked p⟩ k =
        (Frame.score k').cons (.answer (Op.attempt []).name (.panicked p.text?))) ∨
    (k.dropWhile (fun f => !f.stopsPanic) = [.task x tag keep] ∧
      Frame.after ⟨[], .panicked p⟩ k = ⟨[], .panicked p⟩) := by
  induction h with
  | task => exact .inr ⟨rfl, rfl⟩
  | @cons fr k own rest ih =>
    have heavier : Frame.weights k ≤ Frame.weights (fr :: k) := by simp
    have passed : fr ≠ .catching →
        (fr :: k).dropWhile (fun f => !f.stopsPanic) = k.dropWhile (fun f => !f.stopsPanic) ∧
          Frame.after ⟨[], .panicked p⟩ (fr :: k) = Frame.after ⟨[], .panicked p⟩ k := by
      intro other
      cases fr <;> first | exact ⟨rfl, rfl⟩ | exact absurd rfl other | cases own
    by_cases stops : fr = .catching
    · subst stops
      refine .inl ⟨k, rfl, rest, by simp [Frame.weight], ?_⟩
      exact Frame.after_cons _ .idle k
    · obtain ⟨same, score⟩ := passed stops
      rw [same, score]
      refine ih.imp_left ?_
      rintro ⟨k', eq, own, less, tells⟩
      exact ⟨k', eq, own, Nat.lt_of_lt_of_le less heavier, tells⟩

end Solitary

/-! ## 3. Rounds -/

/-- What a fiber leaves in the trace. -/
inductive Mark where
  | answer (op : String) (reply : Reply)
  /-- The report of its fault. -/
  | fault (p : Payload)

/-- What one resume of a fiber brings: what it leaves in the trace, and the state
in which it leaves the fiber. -/
structure Round where
  marks : List Mark
  state : FiberState

/-- How the callback ends when its code is left. -/
def Exit.finish : Exit → World.Finish
  | .through => .returned .null
  | .left v => .returned v
  | .panicked p => .faulted p

/-- What the end of a callback leaves in the trace. -/
def World.Finish.marks : World.Finish → List Mark
  | .returned _ => []
  | .faulted p => [.fault p]

namespace Score

/-- The rounds of a score, when the callback ends as said. -/
def cut (e : World.Finish) : List Beat → List Round
  | [] => [⟨e.marks, e.state⟩]
  | .answer op reply :: rest =>
    (cut e rest).modifyHead fun r => { r with marks := .answer op reply :: r.marks }
  | .park p :: rest => ⟨[], p.state⟩ :: cut e rest

/-- What each resume brings. -/
def rounds (c : Score) : List Round :=
  cut c.exit.finish c.beats

theorem rounds_answer (op : String) (reply : Reply) (c : Score) :
    (c.cons (.answer op reply)).rounds =
      c.rounds.modifyHead fun r => { r with marks := .answer op reply :: r.marks } :=
  rfl

theorem rounds_park (p : Parking) (c : Score) :
    (c.cons (.park p)).rounds = ⟨[], p.state⟩ :: c.rounds :=
  rfl

theorem rounds_end (e : Exit) : rounds ⟨[], e⟩ = [⟨e.finish.marks, e.finish.state⟩] :=
  rfl

/-- Each round but the last one leaves the fiber suspended, and the last one ends it. -/
theorem cut_eq (e : World.Finish) (beats : List Beat) : ∃ before last,
    cut e beats = before ++ [last] ∧ (∀ r ∈ before, r.state.canResume) ∧ last.state = e.state := by
  induction beats with
  | nil => exact ⟨[], _, rfl, by simp, rfl⟩
  | cons b rest ih =>
    obtain ⟨before, last, eq, suspended, ended⟩ := ih
    cases b with
    | park p =>
      refine ⟨⟨[], p.state⟩ :: before, last, by simp [cut, eq], ?_, ended⟩
      rw [List.forall_mem_cons]
      exact ⟨by cases p <;> rfl, suspended⟩
    | answer op reply =>
      cases before with
      | nil =>
        refine ⟨[], { last with marks := .answer op reply :: last.marks }, ?_, by simp, ended⟩
        rw [cut, eq]
        rfl
      | cons r before =>
        rw [List.forall_mem_cons] at suspended
        refine ⟨{ r with marks := .answer op reply :: r.marks } :: before, last, ?_, ?_, ended⟩
        · rw [cut, eq]
          rfl
        · rw [List.forall_mem_cons]
          exact suspended

end Score

/-- What each resume of a fiber with this body brings. -/
def Op.rounds (body : List Op) : List Round :=
  (Op.scoreAll body).rounds

/-! ## 4. One step -/

namespace World

variable {w : World} {x : FiberId} {tag : Option String} {keep : List FiberId} {f : Fiber}

/-- What one step of such code comes to. -/
inductive Plays (w : World) (f : Fiber) (tag : Option String) (keep : List FiberId) :
    World × Signal → Prop
  | silent {k : List Frame} (own : Solitary f.id tag keep k)
    (same : Frame.score w.thread.frames = Frame.score k)
    (less : Frame.weights k < Frame.weights w.thread.frames) : Plays w f tag keep (w.goOn k, .running)
  | answers {k : List Frame} {op : String} {reply : Reply} (own : Solitary f.id tag keep k)
    (plays : Frame.score w.thread.frames = (Frame.score k).cons (.answer op reply))
    (less : Frame.weights k < Frame.weights w.thread.frames) :
    Plays w f tag keep ((w.goOn k).emit (.completed op reply), .running)
  | parks {k : List Frame} {p : Parking} (own : Solitary f.id tag keep k)
    (plays : Frame.score w.thread.frames =
      (Frame.score (.waiting (.park p) :: k)).cons (.park p)) :
    Plays w f tag keep (settle (Op.park p).name ((w.goOn k).suspend .trusted f p (.park p)))
  | ends {k : List Frame} {e : Exit} (base : k.getLast? = some (.task f.id tag keep))
    (plays : Frame.score w.thread.frames = ⟨[], e⟩) :
    Plays w f tag keep ((w.goOn k).finish f.id tag keep e.finish, .running)

/-- An answer is recorded, unless a demonstration goes on. -/
theorem conclude_of_calm (calm : w.process.program = none) (name : String) (r : Reply) :
    w.conclude name r = (w.emit (.completed name r), .running) := by
  simp only [conclude, calm]

/-- A panic is caught in the code, or it ends the callback. -/
theorem unwind_plays {p : Payload} (own : Solitary f.id tag keep w.thread.frames) {v : World}
    (score : Frame.score v.thread.frames = Frame.after ⟨[], .panicked p⟩ w.thread.frames)
    (same : ∀ k, w.goOn k = v.goOn k)
    (heavier : Frame.weights w.thread.frames ≤ Frame.weights v.thread.frames) :
    v.Plays f tag keep (w.unwind p) := by
  rcases own.unwind p with ⟨k, eq, rest, less, tells⟩ | ⟨eq, tells⟩
  · simp only [World.unwind, eq, same]
    exact .answers rest (score.trans tells) (Nat.lt_of_lt_of_le less heavier)
  · have here : w = v.goOn w.thread.frames := same w.thread.frames
    simp only [World.unwind, eq]
    rw [here]
    exact .ends (e := .panicked p) own.getLast? (score.trans tells)

/-- An early return ends the callback. -/
theorem leave_plays {value : Datum} (own : Solitary f.id tag keep w.thread.frames) {v : World}
    (score : Frame.score v.thread.frames = Frame.after ⟨[], .left value⟩ w.thread.frames)
    (same : w = v.goOn w.thread.frames) : v.Plays f tag keep (w.leave value) := by
  simp only [World.leave, own.leave]
  rw [same]
  exact .ends (e := .left value) own.getLast? (score.trans (Frame.after_left value _))

/-- One operation of such code is begun. -/
theorem perform_plays {op : Op} {rest : List Op} {k : List Frame}
    (calm : w.process.program = none) (current : w.thread.current = some f.id)
    (found : w.thread.fiber? f.id = some f) (frames : w.thread.frames = .ops (op :: rest) :: k)
    (single : op.solitary) (own : Solitary f.id tag keep (.ops rest :: k)) :
    w.Plays f tag keep (settle op.name ((w.goOn (.ops rest :: k)).perform op)) := by
  have score : Frame.score w.thread.frames = Frame.after op.score (.ops rest :: k) := by
    rw [frames]
    simp only [Frame.score, Frame.after, Op.scoreAll, Score.idle_andThen]
  have less : Frame.weights (.ops rest :: k) < Frame.weights w.thread.frames := by
    have := op.weight_pos
    rw [frames]
    simp only [Frame.weights_cons, Frame.weight, Op.weightAll]
    omega
  cases op with
  | say v =>
    have told : settle (Op.say v).name ((w.goOn (.ops rest :: k)).perform (.say v)) =
        ((w.goOn (.ops rest :: k)).emit (.completed (Op.say v).name (.value v)), .running) :=
      conclude_of_calm (w := w.goOn (.ops rest :: k)) calm _ _
    rw [told]
    exact .answers own (score.trans (Frame.after_cons _ .idle _)) less
  | leave v => exact leave_plays (w := w.goOn (.ops rest :: k)) own score rfl
  | panic p =>
    exact unwind_plays (w := w.goOn (.ops rest :: k)) own score (fun _ => rfl) (Nat.le_of_lt less)
  | park p =>
    have here : (w.goOn (.ops rest :: k)).currentFiber = (w.goOn (.ops rest :: k), f.id) := by
      simp [currentFiber, goOn, onThread, Thread.goOn, current]
    have found' : (w.goOn (.ops rest :: k)).thread.fiber? f.id = some f := found
    have parks : (w.goOn (.ops rest :: k)).perform (.park p) =
        (w.goOn (.ops rest :: k)).suspend .trusted f p (.park p) := by
      simp only [perform, here, found']
    rw [parks]
    exact .parks own (score.trans
      (Frame.after_cons (.park p) ⟨[.answer (Pending.park p).name .nothing], .through⟩ _))
  | loop times body =>
    by_cases none : body.isEmpty
    · obtain rfl := List.isEmpty_iff.mp none
      refine .silent own ?_ less
      rw [score, Op.score, Op.scoreAll, Score.idle_times, Frame.score]
    · have pushed : settle (Op.loop times body).name
          ((w.goOn (.ops rest :: k)).perform (.loop times body)) =
            (w.goOn (.loop times body :: .ops rest :: k), .running) := by
        simp only [perform, if_neg none]
        rfl
      rw [pushed]
      refine .silent (.cons single own) score ?_
      have rounds : times * (2 + Op.weightAll body) ≤ times * (4 + Op.weightAll body) :=
        Nat.mul_le_mul_left _ (by omega)
      rw [frames]
      simp only [Frame.weights_cons, Frame.weight, Op.weightAll, Op.weight]
      omega
  | attempt body =>
    refine .silent (k := .ops body :: .catching :: .ops rest :: k) (.cons single (.cons rfl own))
      score ?_
    rw [frames]
    simp only [Frame.weights_cons, Frame.weight, Op.weightAll, Op.weight]
    omega
  | _ => cases single

/-- One step of code that concerns its own fiber alone plays no more than the next
beat of its score. -/
theorem step_plays (calm : w.process.program = none) (current : w.thread.current = some f.id)
    (found : w.thread.fiber? f.id = some f) (own : Solitary f.id tag keep w.thread.frames) :
    w.Plays f tag keep w.step := by
  generalize frames : w.thread.frames = k at own
  cases own with
  | task =>
    simp only [step, frames]
    have here : w.goOn [.task f.id tag keep] = w := by
      rw [← frames]
      rfl
    have ends : w.Plays f tag keep
        ((w.goOn [.task f.id tag keep]).finish f.id tag keep (.returned .null), .running) :=
      .ends (e := .through) rfl (by rw [frames]; rfl)
    rwa [here] at ends
  | @cons fr k single rest =>
    have lighter : Frame.weights k < Frame.weights w.thread.frames := by
      have pos : 0 < fr.weight := fr.weight_pos
      rw [frames, Frame.weights_cons]
      omega
    cases fr with
    | ops ops =>
      cases ops with
      | nil =>
        simp only [step, frames]
        exact .silent rest (by rw [frames]; rfl) lighter
      | cons op ops =>
        obtain ⟨first, others⟩ := Bool.and_eq_true_iff.mp single
        simp only [step, frames]
        exact perform_plays calm current found frames first (.cons others rest)
    | loop times body =>
      cases times with
      | zero =>
        simp only [step, frames]
        exact .silent rest (by rw [frames]; rfl) lighter
      | succ n =>
        simp only [step, frames]
        refine .silent (.cons single (.cons single rest)) ?_ ?_
        · rw [frames]
          rfl
        · rw [frames]
          simp only [Frame.weights_cons, Frame.weight, Nat.succ_mul]
          omega
    | catching =>
      have told := conclude_of_calm (w := w.goOn k) calm (Op.attempt []).name .fine
      simp only [step, frames, told]
      exact .answers rest ((congrArg Frame.score frames).trans (Frame.after_cons _ .idle k)) lighter
    | waiting p =>
      cases p with
      | park p =>
        have told := conclude_of_calm (w := w.goOn k) calm (Pending.park p).name .nothing
        simp only [step, frames, carryOn, answer, settle, told]
        exact .answers rest ((congrArg Frame.score frames).trans (Frame.after_cons _ .idle k)) lighter
      | _ => cases single
    | program d => cases single
    | task f tag keep => cases single
    | script => cases single

end World

end FiberEngine
