/-
FiberEngine.Proofs.Standing — what holds of a thread between its operations.

At most one task of a thread runs. While it does, the main fiber is on hold with
its code parked; while none does, the main fiber runs. Every other fiber rests:
it has not begun, or it is suspended in its callback, or its callback has ended.
State, context and callback of a fiber follow from where it stands, and every
handle is accounted for.

`Thread.Sound` says all this. Its last arguments are the task that runs, the
state of that task, and the handles that the running code has. The last part of
the module says how soundness survives a change to some fibers: the account has
to balance, and the changed fibers have to stand somewhere.
-/
import FiberEngine.Proofs.Code

namespace FiberEngine

/-! ## 1. Where a fiber stands -/

/-- The operation waits for a fiber to switch back. -/
def Pending.Awaits (p : Pending) (f : FiberId) : Prop :=
  match p with
  | .resume _ g | .drive g _ _ | .entry _ _ g _ => g = f
  | _ => False

/-- The operation suspends a fiber. -/
def Pending.Pauses (p : Pending) (f : FiberId) : Prop :=
  match p with
  | .pause _ g => g = f
  | .park _ => True
  | _ => False

/-- An operation waits for one fiber at most. -/
theorem Pending.Awaits.eq {p : Pending} {f g : FiberId} (h : p.Awaits f) (h' : p.Awaits g) :
    f = g := by
  cases p <;> simp_all [Pending.Awaits]

theorem Pending.Awaits.handles {p : Pending} {f : FiberId} (h : p.Awaits f) : p.handles = [f] := by
  cases p <;> simp_all [Pending.Awaits, Pending.handles]

namespace Fiber

/-- A task fiber that does not run. -/
inductive Rests (f : Fiber) : Prop
  /-- It has not begun. -/
  | waiting {lease : StackLease} {cb : Callback} (onStack : f.lease = some lease)
    (state : f.state = .init) (context : f.context = some .fresh) (callback : f.pending = some cb)
  /-- It is suspended in its callback. -/
  | suspended {lease : StackLease} {p : Pending} {k : List Frame} (onStack : f.lease = some lease)
    (state : f.state = .ready ∨ f.state = .hold)
    (context : f.context = some (.suspended (.waiting p :: k))) (callback : f.pending = none)
    (body : Body (some f.id) k) (pauses : p.Pauses f.id)
  /-- Its callback has ended. -/
  | finished {lease : StackLease} (onStack : f.lease = some lease) (state : f.state.terminal)
    (context : f.context = some .spent) (callback : f.pending = none)

/-- A task fiber that runs. -/
structure Runs (state : FiberState) (f : Fiber) : Prop where
  onStack : f.lease ≠ none
  state : f.state = state
  context : f.context = none
  callback : f.pending = none

/-- A main fiber, at its own place or parked while a task runs. -/
inductive Presides : Option FiberId → Fiber → Prop
  | home {f : Fiber} (noStack : f.lease = none) (callback : f.pending = none)
    (state : f.state = .exec) (context : f.context = none) : Presides none f
  | parked {f : Fiber} {task : FiberId} {p : Pending} {k : List Frame} (noStack : f.lease = none)
    (callback : f.pending = none) (state : f.state = .hold)
    (context : f.context = some (.suspended (.waiting p :: k))) (body : Body none k)
    (awaits : p.Awaits task) : Presides (some task) f

/-- A fiber stands where it should, given which is the main fiber and which task
runs in which state. -/
def Fits (main runner : Option FiberId) (state : FiberState) (f : Fiber) : Prop :=
  if main = some f.id then f.Presides runner
  else if runner = some f.id then f.Runs state
  else f.Rests

variable {main runner : Option FiberId} {state : FiberState} {f : Fiber}

theorem Fits.presides (h : f.Fits main runner state) (mine : main = some f.id) :
    f.Presides runner := by
  simpa [Fits, mine] using h

theorem Fits.runs (h : f.Fits main runner state) (other : main ≠ some f.id)
    (mine : runner = some f.id) : f.Runs state := by
  rw [Fits, if_neg other, if_pos mine] at h
  exact h

theorem Fits.rests (h : f.Fits main runner state) (other : main ≠ some f.id)
    (another : runner ≠ some f.id) : f.Rests := by
  rw [Fits, if_neg other, if_neg another] at h
  exact h

theorem fits_of_presides (h : f.Presides runner) (mine : main = some f.id) :
    f.Fits main runner state := by
  simpa [Fits, mine] using h

theorem fits_of_runs (h : f.Runs state) (other : main ≠ some f.id) (mine : runner = some f.id) :
    f.Fits main runner state := by
  rw [Fits, if_neg other, if_pos mine]
  exact h

theorem fits_of_rests (h : f.Rests) (other : main ≠ some f.id) (another : runner ≠ some f.id) :
    f.Fits main runner state := by
  rw [Fits, if_neg other, if_neg another]
  exact h

theorem Presides.lease (h : f.Presides runner) : f.lease = none := by
  cases h <;> assumption

theorem Presides.pending (h : f.Presides runner) : f.pending = none := by
  cases h <;> assumption

/-- A parked main fiber has a handle to the task that runs. -/
theorem Presides.owns {task : FiberId} (h : f.Presides (some task)) : task ∈ f.owns := by
  cases h with
  | parked noStack callback state context body awaits =>
    simp [Fiber.owns, context, Context.handles, Frame.handles, awaits.handles]

theorem Rests.lease (h : f.Rests) : f.lease ≠ none := by
  cases h <;> simp_all

/-- A fiber bound to a callback that it is to enter. -/
def bound (cb : Callback) (f : Fiber) : Fiber :=
  { f with context := some .fresh, pending := some cb, state := .init }

/-- How many handles a fiber has does not matter to where it stands. -/
theorem fits_handles (n : Nat) :
    Fits main runner state { f with handles := n } ↔ f.Fits main runner state := by
  have rests : Rests { f with handles := n } ↔ f.Rests := by
    constructor <;> intro h <;> cases h with
    | waiting onStack state context callback => exact .waiting onStack state context callback
    | suspended onStack state context callback body pauses =>
      exact .suspended onStack state context callback body pauses
    | finished onStack state context callback => exact .finished onStack state context callback
  have runs : Runs state { f with handles := n } ↔ f.Runs state :=
    ⟨fun h => ⟨h.onStack, h.state, h.context, h.callback⟩,
      fun h => ⟨h.onStack, h.state, h.context, h.callback⟩⟩
  have presides : Presides runner { f with handles := n } ↔ f.Presides runner := by
    constructor <;> intro h <;> cases h with
    | home noStack callback state context => exact .home noStack callback state context
    | parked noStack callback state context body awaits =>
      exact .parked noStack callback state context body awaits
  simp only [Fits, rests, runs, presides]

end Fiber

/-! ## 2. A sound thread -/

/-- A thread in which every fiber stands where it should and every handle is
accounted for. The running code belongs to `runner`, or to the script of the
thread, and has the handles `held`. -/
structure Thread.Sound (t : Thread) (runner : Option FiberId) (state : FiberState)
    (held : List FiberId) : Prop where
  distinct : t.Distinct
  census : ∀ id, handlesTo t.fibers id = (t.kept ++ held).count id
  alive : ∀ f ∈ t.fibers, 0 < f.handles
  current : t.current = (runner <|> t.main)
  apart : ∀ id, runner = some id → t.main ≠ none ∧ t.main ≠ some id
  fits : ∀ f ∈ t.fibers, f.Fits t.main runner state
  task : t.task? = runner
  slots : t.slots.Ordered

namespace Thread.Sound

variable {t t' : Thread} {runner : Option FiberId} {state : FiberState} {held : List FiberId}

/-- Whatever there is a handle to is there. -/
theorem exists_of_mem (h : t.Sound runner state held) {id : FiberId} (mem : id ∈ t.kept ++ held) :
    ∃ f, t.fiber? id = some f := by
  have counted : 0 < handlesTo t.fibers id := by
    rw [h.census id]
    exact List.count_pos_iff.mpr mem
  exact exists_fiber? (exists_of_handlesTo_pos counted)

theorem exists_of_held (h : t.Sound runner state held) {id : FiberId} (mem : id ∈ held) :
    ∃ f, t.fiber? id = some f :=
  h.exists_of_mem (List.mem_append_right _ mem)

theorem mem_kept_of_main {id : FiberId} (mine : t.main = some id) : id ∈ t.kept := by
  simp [kept, mine]

theorem mem_kept_of_slot {name : SlotName} {id : FiberId} (there : t.slot? name = some id) :
    id ∈ t.kept := by
  obtain ⟨s, found, rfl⟩ := Option.map_eq_some_iff.mp there
  have := List.mem_of_find?_eq_some found
  simp only [kept, List.mem_append, List.mem_map]
  exact .inl (.inl ⟨s, this, rfl⟩)

theorem mem_kept_of_owns {f : Fiber} {id : FiberId} (there : f ∈ t.fibers) (mem : id ∈ f.owns) :
    id ∈ t.kept := by
  simp only [kept, List.mem_append, List.mem_flatMap]
  exact .inr ⟨f, there, mem⟩

/-- The main fiber of a thread that has one. -/
theorem main_presides (h : t.Sound runner state held) {id : FiberId} (mine : t.main = some id) :
    ∃ f, t.fiber? id = some f ∧ f.id = id ∧ f.Presides runner := by
  obtain ⟨f, found⟩ := h.exists_of_mem (List.mem_append_left _ (mem_kept_of_main mine))
  have same := id_of_fiber? found
  exact ⟨f, found, same, (h.fits f (mem_of_fiber? found)).presides (same ▸ mine)⟩

/-- The task that runs, with the main fiber that waits for it. -/
theorem runner_runs {id : FiberId} (h : t.Sound (some id) state held) :
    ∃ f, t.fiber? id = some f ∧ f.id = id ∧ f.Runs state := by
  obtain ⟨some_main, other⟩ := h.apart id rfl
  obtain ⟨main, mine⟩ := Option.ne_none_iff_exists'.mp some_main
  obtain ⟨g, foundMain, -, presides⟩ := h.main_presides mine
  have mem := mem_kept_of_owns (mem_of_fiber? foundMain) presides.owns
  obtain ⟨f, found⟩ := h.exists_of_mem (List.mem_append_left _ mem)
  have same := id_of_fiber? found
  exact ⟨f, found, same,
    (h.fits f (mem_of_fiber? found)).runs (same ▸ other) (congrArg some same.symm)⟩

/-- A fiber that is neither the main fiber nor the task that runs. -/
theorem rests (h : t.Sound runner state held) {id : FiberId} {f : Fiber}
    (found : t.fiber? id = some f) (other : t.main ≠ some id) (another : runner ≠ some id) :
    f.Rests := by
  have same := id_of_fiber? found
  exact (h.fits f (mem_of_fiber? found)).rests (same ▸ other) (same ▸ another)

/-! ## 3. Changes that keep a thread sound -/

/-- The order in which the running code has its handles does not matter. -/
theorem regroup {held' : List FiberId} (h : t.Sound runner state held) (perm : held.Perm held') :
    t.Sound runner state held' where
  distinct := h.distinct
  census id := by
    rw [h.census id, List.count_append, List.count_append, perm.count_eq]
  alive := h.alive
  current := h.current
  apart := h.apart
  fits := h.fits
  task := h.task
  slots := h.slots

/-- Other parts of a thread do not matter. -/
theorem congr (h : t.Sound runner state held) (fibers : t'.fibers = t.fibers)
    (slots : t'.slots = t.slots) (main : t'.main = t.main) (current : t'.current = t.current)
    (task : t'.task? = t.task?) : t'.Sound runner state held where
  distinct := by rw [Distinct, fibers]; exact h.distinct
  census id := by rw [fibers, h.census id, kept, kept, fibers, slots, main]
  alive := by rw [fibers]; exact h.alive
  current := by rw [current, main]; exact h.current
  apart := by rw [main]; exact h.apart
  fits := by rw [fibers, main]; exact h.fits
  task := task.trans h.task
  slots := by rw [slots]; exact h.slots

/-- Some fibers of a thread, `fs`, become `fs'`, and handles move. The thread
stays sound if the account balances and every fiber stands where it should. -/
theorem exchange {runner' : Option FiberId} {state' : FiberState} {held' : List FiberId}
    {rest : List Fiber} (h : t.Sound runner state held) (fs fs' : List Fiber)
    (old : t.fibers.Perm (fs ++ rest)) (new : t'.fibers.Perm (fs' ++ rest)) (distinct : t'.Distinct)
    (balance : ∀ x, handlesTo fs' x +
        (t.slots.map Prod.snd ++ t.main.toList ++ fs.flatMap Fiber.owns ++ held).count x =
      handlesTo fs x +
        (t'.slots.map Prod.snd ++ t'.main.toList ++ fs'.flatMap Fiber.owns ++ held').count x)
    (alive : ∀ f ∈ fs', 0 < f.handles) (current : t'.current = (runner' <|> t'.main))
    (apart : ∀ id, runner' = some id → t'.main ≠ none ∧ t'.main ≠ some id)
    (fits : ∀ f ∈ fs', f.Fits t'.main runner' state')
    (others : ∀ f ∈ rest, f.Fits t.main runner state → f.Fits t'.main runner' state')
    (task : t'.task? = runner') (slots : t'.slots.Ordered) : t'.Sound runner' state' held' where
  distinct := distinct
  census x := by
    have total := h.census x
    have balance := balance x
    rw [handlesTo_perm old, handlesTo_append, kept] at total
    rw [handlesTo_perm new, handlesTo_append, kept]
    simp only [List.count_append, (old.flatMap_right Fiber.owns).count_eq,
      (new.flatMap_right Fiber.owns).count_eq, List.flatMap_append] at total balance ⊢
    omega
  alive f mem := by
    rcases List.mem_append.mp (new.mem_iff.mp mem) with mem | mem
    · exact alive f mem
    · exact h.alive f (old.mem_iff.mpr (List.mem_append_right _ mem))
  current := current
  apart := apart
  fits f mem := by
    rcases List.mem_append.mp (new.mem_iff.mp mem) with mem | mem
    · exact fits f mem
    · exact others f mem (h.fits f (old.mem_iff.mpr (List.mem_append_right _ mem)))
  task := task
  slots := slots

/-- One fiber of a thread is changed. -/
theorem change {held' : List FiberId} {id : FiberId} {f : Fiber} {c : Fiber → Fiber}
    (h : t.Sound runner state held) (found : t.fiber? id = some f)
    (keeps : ∀ g, (c g).id = g.id) (alive : 0 < (c f).handles)
    (fits : (c f).Fits t.main runner state)
    (balance : ∀ x, (if id = x then (c f).handles else 0) + (f.owns ++ held).count x =
      (if id = x then f.handles else 0) + ((c f).owns ++ held').count x) :
    (t.update id c).Sound runner state held' := by
  have same := id_of_fiber? found
  refine h.exchange [f] [c f] (fibers_perm h.distinct found)
    (update_perm c h.distinct found) ((distinct_update c keeps).mpr h.distinct) ?_
    (by simpa using alive) h.current h.apart (by simpa [update] using fits) (fun _ _ fit => fit)
    h.task h.slots
  intro x
  have balance := balance x
  simp only [update, handlesTo_cons, handlesTo_nil, keeps, same, List.count_append,
    List.flatMap_cons, List.flatMap_nil, List.append_nil] at balance ⊢
  omega

end Thread.Sound

end FiberEngine
