/-
FiberEngine.Proofs.Callbacks — a callback is used once.

A callback is bound to a fiber when the fiber is created or reset. From then on
it is pending, until its fiber enters it, is bound to another one or is
destroyed; a callback that was entered runs or is suspended until it ends, and
it is destroyed then. `Callback.Fares` says how a callback fares by the acts
since it was bound, and `Life.fares` that every callback that was bound fares
like that. It is destroyed once: the callbacks that were bound to a fiber are,
in this order, those that were destroyed and the one that the fiber has now
(`Life.bindings`).

A callback that no fiber takes is destroyed by the request that it was passed
to: `createTask_takes` and `reset_takes`.
-/
import FiberEngine.Proofs.Lifecycle

namespace FiberEngine

/-! ## 1. Bindings and disposals -/

/-- The fiber that an act binds to a callback, with the callback. -/
def Act.binding? : Act → Option (FiberId × Callback)
  | .equipped id _ cb | .reset id cb _ => some (id, cb)
  | _ => none

/-- What is left of a callback when its code does not matter. -/
abbrev Belongings := Option String × List FiberId

/-- The tag and the handles of a callback. -/
def Callback.belongings (cb : Callback) : Belongings :=
  (cb.tag, cb.keep)

/-- What an act binds a fiber to. -/
def Act.bound? (id : FiberId) : Act → Option Belongings
  | .equipped other _ cb | .reset other cb _ => if other = id then some cb.belongings else none
  | _ => none

/-- The callback of a fiber that an act destroys. -/
def Act.unbound? (id : FiberId) : Act → Option Belongings
  | .reset other _ (some old) => if other = id then some old.belongings else none
  | .shed other tag keep => if other = id then some (tag, keep) else none
  | .abandoned other cb => if other = id then some cb.belongings else none
  | _ => none

/-- What has become of a callback. -/
inductive Fate where
  /-- Its fiber has not entered it. -/
  | pending
  /-- It runs or is suspended. -/
  | entered
  /-- Its fiber is being destroyed and has not entered it. -/
  | dying
  /-- It has ended and is destroyed. -/
  | finished
  /-- It is destroyed, and its fiber is bound to another one. -/
  | replaced
  /-- It is destroyed together with its fiber. -/
  | abandoned

/-- The callback is destroyed. -/
def Fate.past : Fate → Bool
  | finished | replaced | abandoned => true
  | _ => false

/-- The callback that a fiber has in a phase, with its fate. -/
def Phase.fate? : Phase → Option (Callback × Fate)
  | .waiting _ cb => some (cb, .pending)
  | .running _ cb | .parked _ cb _ => some (cb, .entered)
  | .dead _ (some cb) | .orphaned cb => some (cb, .dying)
  | _ => none

theorem Phase.fate_of_lasts {phase : Phase} {cb : Callback} {fate : Fate} (lasts : phase.lasts)
    (has : phase.fate? = some (cb, fate)) : fate ≠ .dying := by
  rintro rfl
  cases phase <;> simp_all [Phase.lasts, Phase.fate?]

/-- What a fiber in a phase is bound to. -/
def Phase.bound (phase : Phase) : List Belongings :=
  (phase.fate?.map fun p => p.1.belongings).toList

variable {id : FiberId} {acts : List Act} {phase next : Phase} {act : Act} {cb : Callback}

/-- An act about other fibers binds and unbinds others. -/
theorem Act.other_of_subject (about : act.subject? ≠ some id) :
    act.bound? id = none ∧ act.unbound? id = none := by
  cases act with
  | reset other cb old => cases old <;> simp_all [Act.subject?, Act.bound?, Act.unbound?]
  | _ => simp_all [Act.subject?, Act.bound?, Act.unbound?]

/-- An act destroys the callback that the fiber has, and binds it to another one if
it has none then. -/
theorem Phase.Turns.bound (turns : phase.Turns id act next) :
    phase.bound ++ (act.bound? id).toList = (act.unbound? id).toList ++ next.bound := by
  cases turns <;> simp [Phase.bound, Phase.fate?, Act.bound?, Act.unbound?, Callback.belongings]

/-- The callbacks that were bound to a fiber are those that were destroyed, in
order, and the one that it has now. -/
theorem Life.bindings (life : Life id acts phase) :
    acts.filterMap (Act.bound? id) = acts.filterMap (Act.unbound? id) ++ phase.bound := by
  induction life with
  | start => rfl
  | other before about ih =>
    obtain ⟨bound, unbound⟩ := Act.other_of_subject about
    simpa [List.filterMap_append, bound, unbound] using ih
  | @turn acts phase next act before turns ih =>
    have one : ∀ f : Act → Option Belongings, [act].filterMap f = (f act).toList := by
      intro f
      cases same : f act <;> simp [same]
    rw [List.filterMap_append, List.filterMap_append, one, one, ih, List.append_assoc,
      turns.bound, List.append_assoc]

/-! ## 2. How a callback fares -/

/-- What may become of a callback that a fiber was bound to. -/
inductive Fate.Turns (id : FiberId) (cb : Callback) : Fate → Act → Fate → Prop
  | entered : Turns id cb .pending (.resumed id .init) .entered
  | yielded (p : Parking) : Turns id cb .entered (.yielded id p.state) .entered
  | resumed (p : Parking) : Turns id cb .entered (.resumed id p.state) .entered
  | finished : Turns id cb .entered (.shed id cb.tag cb.keep) .finished
  | replaced (new : Callback) : Turns id cb .pending (.reset id new (some cb)) .replaced
  | unused : Turns id cb .pending (.destroyed id .init) .dying
  | returned (lease : StackLease) (current : Option FiberId) :
    Turns id cb .dying (.returned id lease current) .dying
  | abandoned : Turns id cb .dying (.abandoned id cb) .abandoned
  /-- What happens to the fiber later is about other callbacks. -/
  | past {fate : Fate} {act : Act} (past : fate.past) (about : act.subject? = some id) :
    Turns id cb fate act fate

theorem Fate.orderly (id : FiberId) (cb : Callback) : Orderly id (Fate.Turns id cb) where
  unique {fate next next' act} turns turns' := by
    generalize same : act = act' at turns'
    cases turns with
    | past past about => cases turns' <;> first | rfl | cases past
    | _ =>
      cases turns' with
      | past past about => cases past
      | _ => first | rfl | cases same
  subject turns := by cases turns <;> first | rfl | assumption

/-- How a callback fares by the acts since a fiber was bound to it. -/
abbrev Callback.Fares (id : FiberId) (cb : Callback) : List Act → Fate → Prop :=
  Course id (Fate.Turns id cb) .pending

/-- A callback is entered before it ends, and nothing comes after its end. -/
def Fate.rank : Fate → Nat
  | pending => 0
  | entered | dying => 1
  | finished | replaced | abandoned => 2

theorem Fate.Turns.onward {fate later : Fate} (turns : Fate.Turns id cb fate act later) :
    later = fate ∨ fate.rank < later.rank := by
  cases turns <;> simp [Fate.rank]

/-- A callback never has a fate again that it has left. -/
theorem Callback.Fares.onward {first rest : List Act} {fate later : Fate}
    (before : cb.Fares id first fate) (after : cb.Fares id (first ++ rest) later) :
    later = fate ∨ fate.rank < later.rank := by
  generalize whole : first ++ rest = all at after
  induction after generalizing rest with
  | start =>
    obtain ⟨rfl, rfl⟩ := List.append_eq_nil_iff.mp whole
    exact .inl (Course.start.unique (Fate.orderly id cb) before)
  | @other all later last after about ih =>
    rcases rest.eq_nil_or_concat with rfl | ⟨rest, last', rfl⟩
    · rw [List.append_nil] at whole
      exact .inl ((after.other about).unique (Fate.orderly id cb) (whole ▸ before))
    · rw [List.concat_eq_append, ← List.append_assoc] at whole
      exact ih (List.append_inj' whole rfl).1
  | @turn all between later last after turns ih =>
    rcases rest.eq_nil_or_concat with rfl | ⟨rest, last', rfl⟩
    · rw [List.append_nil] at whole
      exact .inl ((after.turn turns).unique (Fate.orderly id cb) (whole ▸ before))
    · rw [List.concat_eq_append, ← List.append_assoc] at whole
      rcases ih (List.append_inj' whole rfl).1, turns.onward with ⟨rfl | less, rfl | less'⟩
      · exact .inl rfl
      · exact .inr less'
      · exact .inr less
      · exact .inr (Nat.lt_trans less less')

/-- An act that takes a fiber to its next phase takes its callback along. -/
theorem Phase.Turns.fate {fate : Fate} (turns : phase.Turns id act next)
    (has : phase.fate? = some (cb, fate)) : ∃ later, Fate.Turns id cb fate act later ∧
      (later.past ∨ act.bound? id = none ∧ next.fate? = some (cb, later)) := by
  cases turns with
  | replaced _ _ new =>
    cases has
    exact ⟨_, .replaced new, .inl rfl⟩
  | entered =>
    cases has
    exact ⟨_, .entered, .inr ⟨rfl, rfl⟩⟩
  | yielded _ _ p =>
    cases has
    exact ⟨_, .yielded p, .inr ⟨rfl, rfl⟩⟩
  | resumed _ _ p =>
    cases has
    exact ⟨_, .resumed p, .inr ⟨rfl, rfl⟩⟩
  | shed =>
    cases has
    exact ⟨_, .finished, .inl rfl⟩
  | unused =>
    cases has
    exact ⟨_, .unused, .inr ⟨rfl, rfl⟩⟩
  | bereft lease =>
    cases has
    exact ⟨_, .returned lease _, .inr ⟨rfl, rfl⟩⟩
  | abandoned =>
    cases has
    exact ⟨_, .abandoned, .inl rfl⟩
  | _ => cases has

/-- A fiber that is bound to a callback waits with it. -/
theorem Phase.Turns.pending_of_binding (turns : phase.Turns id act next)
    (binds : act.binding? = some (id, cb)) : next.fate? = some (cb, .pending) := by
  cases turns <;> cases binds <;> rfl

/-- Every callback that a fiber was bound to has a fate. Unless it is destroyed, it
is the last one that the fiber was bound to, and the fiber has it. -/
theorem Life.fares (life : Life id acts phase) {before after : List Act}
    (whole : acts = before ++ act :: after) (binds : act.binding? = some (id, cb)) :
    ∃ fate, cb.Fares id after fate ∧
      (fate.past ∨ (∀ a ∈ after, a.bound? id = none) ∧ phase.fate? = some (cb, fate)) := by
  induction life generalizing after with
  | start => simp at whole
  | @other acts phase last life about ih =>
    rcases after.eq_nil_or_concat with rfl | ⟨after, last', rfl⟩
    · obtain ⟨-, same⟩ := List.append_inj' whole rfl
      obtain rfl := List.singleton_inj.mp same
      cases last <;> cases binds <;> exact absurd rfl about
    · rw [List.concat_eq_append, ← List.cons_append, ← List.append_assoc] at whole
      obtain ⟨shorter, same⟩ := List.append_inj' whole rfl
      obtain rfl := List.singleton_inj.mp same
      obtain ⟨fate, fares, past | ⟨latest, has⟩⟩ := ih shorter
      · exact ⟨fate, by simpa using fares.other about, .inl past⟩
      · refine ⟨fate, by simpa using fares.other about, .inr ⟨?_, has⟩⟩
        simpa [or_imp, forall_and] using ⟨latest, (Act.other_of_subject about).1⟩
  | @turn acts phase next last life turns ih =>
    rcases after.eq_nil_or_concat with rfl | ⟨after, last', rfl⟩
    · obtain ⟨-, same⟩ := List.append_inj' whole rfl
      obtain rfl := List.singleton_inj.mp same
      exact ⟨.pending, .start, .inr ⟨by simp, turns.pending_of_binding binds⟩⟩
    · rw [List.concat_eq_append, ← List.cons_append, ← List.append_assoc] at whole
      obtain ⟨shorter, same⟩ := List.append_inj' whole rfl
      obtain rfl := List.singleton_inj.mp same
      obtain ⟨fate, fares, past | ⟨latest, has⟩⟩ := ih shorter
      · exact ⟨fate, by simpa using fares.turn (.past past turns.subject), .inl past⟩
      · obtain ⟨later, turns', past | ⟨unbound, has'⟩⟩ := turns.fate has
        · exact ⟨later, by simpa using fares.turn turns', .inl past⟩
        · refine ⟨later, by simpa using fares.turn turns', .inr ⟨?_, has'⟩⟩
          simpa [or_imp, forall_and] using ⟨latest, unbound⟩

/-- A callback that a fiber has in a phase was just bound to it, or the fiber had it
before. -/
theorem Phase.Turns.fate_before {fate : Fate} (turns : phase.Turns id act next)
    (has : next.fate? = some (cb, fate)) :
    act.binding? = some (id, cb) ∧ fate = .pending ∨
      ∃ before, phase.fate? = some (cb, before) ∧ Fate.Turns id cb before act fate := by
  cases turns with
  | equipped | replaced | renewed =>
    cases has
    exact .inl ⟨rfl, rfl⟩
  | entered =>
    cases has
    exact .inr ⟨_, rfl, .entered⟩
  | yielded _ _ p =>
    cases has
    exact .inr ⟨_, rfl, .yielded p⟩
  | resumed _ _ p =>
    cases has
    exact .inr ⟨_, rfl, .resumed p⟩
  | unused =>
    cases has
    exact .inr ⟨_, rfl, .unused⟩
  | bereft lease =>
    cases has
    exact .inr ⟨_, rfl, .returned lease _⟩
  | _ => cases has

/-- The callback that a fiber has was bound to it at some time, and this is its fate
since. -/
theorem Life.binding (life : Life id acts phase) {fate : Fate}
    (has : phase.fate? = some (cb, fate)) : ∃ before act after, acts = before ++ act :: after ∧
      act.binding? = some (id, cb) ∧ cb.Fares id after fate := by
  induction life generalizing fate with
  | start => cases has
  | @other acts phase last life about ih =>
    obtain ⟨before, act, after, rfl, binds, fares⟩ := ih has
    exact ⟨before, act, after ++ [last], by simp, binds, fares.other about⟩
  | @turn acts phase next last life turns ih =>
    obtain ⟨binds, rfl⟩ | ⟨fate', has', turns'⟩ := turns.fate_before has
    · exact ⟨acts, last, [], rfl, binds, .start⟩
    · obtain ⟨before, act, after, rfl, binds, fares⟩ := ih has'
      exact ⟨before, act, after ++ [last], by simp, binds, fares.turn turns'⟩

/-! ## 3. The callback of a fiber -/

/-- A fiber has a callback of some fate. Once it has entered it, its code ends with
the callback; the frame at the end of the code that runs is `base`. -/
inductive Fiber.Has (base : Option Frame) (f : Fiber) (cb : Callback) : Fate → Prop
  | pending (state : f.state = .init) (callback : f.pending = some cb) : Has base f cb .pending
  | running (state : f.state = .exec) (callback : f.pending = none)
    (code : base = some (.task f.id cb.tag cb.keep)) : Has base f cb .entered
  | suspended {k : List Frame} (state : f.state = .ready ∨ f.state = .hold)
    (callback : f.pending = none) (context : f.context = some (.suspended k))
    (code : k.getLast? = some (.task f.id cb.tag cb.keep)) : Has base f cb .entered

theorem Fiber.In.has {base : Option Frame} {f : Fiber} {fate : Fate} (looks : f.In base phase)
    (has : phase.fate? = some (cb, fate)) : f.Has base cb fate := by
  cases looks with
  | main noStack => cases has
  | waiting onStack state context callback =>
    cases has
    exact .pending state callback
  | running onStack state callback code =>
    cases has
    exact .running state callback code
  | @parked _ _ p q k onStack state callback context parks code =>
    cases has
    refine .suspended ?_ callback context ?_
    · cases p <;> simp [state, Parking.state]
    · rw [List.getLast?_cons_of_ne_nil, code]
      rintro rfl
      cases code
  | finished => cases has

namespace Machine

variable {m : Machine} {story : List Act}

/-- A fiber that has a callback is alive. -/
theorem Lived.has (lived : m.Lived story) (first : 0 < id) (life : Life id story phase)
    {fate : Fate} (has : phase.fate? = some (cb, fate)) :
    ∃ p ∈ m.places, p.2.id = id ∧ p.2.Has p.1 cb fate := by
  by_cases next : m.world.process.nextId ≤ id
  · obtain rfl := life.unique (Phase.orderly id) (lived.unborn id next)
    cases has
  by_cases present : id ∈ m.ids
  · rw [← idsOf_places] at present
    obtain ⟨p, mem, rfl⟩ := List.mem_map.mp present
    obtain ⟨phase', life', looks⟩ := lived.alive p mem
    obtain rfl := life.unique (Phase.orderly _) life'
    exact ⟨p, mem, rfl, looks.has has⟩
  · obtain rfl := life.unique (Phase.orderly id)
      (lived.gone id first (Nat.lt_of_not_le next) present)
    cases has

/-- The code of a task that runs is that of a callback that was bound to it and has
been entered. -/
theorem Lived.runs {others : List FiberId} (lived : m.Lived story)
    (sound : m.stage.Sound others) (ran : m.world.thread.task? = some id) :
    0 < id ∧ ∃ before act after cb, story = before ++ act :: after ∧ act.binding? = some (id, cb) ∧
      cb.Fares id after .entered ∧
      m.world.thread.frames.getLast? = some (.task id cb.tag cb.keep) := by
  have here : Stage.Sound others (m.world.stage (some id)) := ran ▸ sound
  obtain ⟨f, found, same, runs⟩ := here.thread.runner_runs
  obtain ⟨phase, life, looks⟩ := lived.stage.here f (Thread.mem_of_fiber? found) (by simp)
  obtain ⟨lease, cb, rfl, -, code⟩ := looks.of_runs runs
  have mem : f.id ∈ m.world.thread.ids := List.mem_map_of_mem (Thread.mem_of_fiber? found)
  have first := (sound.numbered f.id (List.mem_append_left _ mem)).1
  rw [same] at life code first
  obtain ⟨before, act, after, whole, binds, fares⟩ := life.binding rfl
  exact ⟨first, before, act, after, cb, whole, binds, fares, code⟩

end Machine

/-! ## 4. Requests -/

namespace World

variable {w v : World} {others h : List FiberId} {r : Option FiberId} {f : Fiber}

/-- What a request for a new fiber does with the callback: the fiber waits with it, or
there is none and the callback is destroyed. -/
def Takes (w : World) (cb : Callback) (v : World) : Except Refusal FiberId → Prop
  | .ok id => id = w.process.nextId ∧
      ∃ f, v.thread.fiber? id = some f ∧ f.state = .init ∧ f.pending = some cb
  | .error _ => ∃ u : World, u.thread.fibers = w.thread.fibers ∧
      v = u.dropCallback cb.tag cb.keep

theorem createTask_takes {a : Allocator} {asked : Nat} {result : Except Refusal FiberId}
    (sound : Stage.Sound others ⟨w, r, .exec, cb.keep ++ h⟩)
    (answer : w.createTask a asked cb = (v, result)) : w.Takes cb v result := by
  cases result with
  | ok id =>
    obtain ⟨new, -, lease, -, -, found⟩ := createTask_new sound answer
    exact ⟨new, _, found, rfl, rfl⟩
  | error why =>
    obtain ⟨u, stock, dropped⟩ := createTask_none answer
    exact ⟨u, stock.fibers, dropped⟩

/-- A fiber that is bound to a callback waits with it. -/
theorem bound_of_rebind {g : Fiber} (found : w.thread.fiber? f.id = some f)
    (there : (w.rebind f cb).thread.fiber? f.id = some g) :
    g.state = .init ∧ g.pending = some cb := by
  have keeps : ∀ (state : FiberState) (x : Fiber), { x with state }.id = x.id := fun _ _ => rfl
  have keeps' : ∀ x : Fiber, { x with context := some .fresh, pending := some cb }.id = x.id :=
    fun _ => rfl
  unfold rebind at there
  simp only [(log_same _ _).thread, onThread, Thread.setState,
    Thread.fiber?_update _ _ _ _ (keeps .init)] at there
  obtain ⟨x, between, rfl⟩ := Option.map_eq_some_iff.mp there
  rw [if_pos trivial]
  refine ⟨rfl, ?_⟩
  have bound : ∀ y, (w.onThread fun t => t.update f.id fun f =>
      { f with context := some .fresh, pending := some cb }).thread.fiber? f.id = some y →
        y.pending = some cb := by
    intro y same
    simp only [onThread, Thread.fiber?_update _ _ _ _ keeps', found, Option.map_some, if_true,
      Option.some.injEq] at same
    rw [← same]
  split at between
  · obtain ⟨y, before, same⟩ := fiber?_release between
    rw [dropTag_thread] at before
    rw [same]
    exact bound y before
  · exact bound x between

/-- A reset that is refused destroys the callback, and one that is accepted binds the
fiber to it. -/
theorem reset_takes {m : Manner} (sound : Stage.Sound others ⟨w, r, .exec, cb.keep ++ h⟩)
    (found : w.thread.fiber? f.id = some f) (mine : f.id ∈ h) :
    match f.resetRefusal? with
    | some e => w.reset m f cb = (w.dropCallback cb.tag cb.keep).reject m f.id e
    | none => ∃ g, (w.reset m f cb).1.thread.fiber? f.id = some g ∧ g.state = .init ∧
        g.pending = some cb := by
  cases refused : f.resetRefusal? with
  | some e => simp only [reset, refused]
  | none =>
    have stays : Stays (fun _ => True) _ _ :=
      rebind_stays sound found (canReset_of_reset refused)
    obtain ⟨g, there⟩ := (stays.sound sound).thread.exists_of_held mine
    simp only [reset, refused]
    exact ⟨g, there, bound_of_rebind found there⟩

/-- A resume that is not refused enters the callback of a fiber that waits with it. -/
theorem resume_enters {m : Manner} {p : Pending}
    (sound : Stage.Sound others ⟨w, r, .exec, f.id :: h⟩) (found : w.thread.fiber? f.id = some f)
    (waits : f.pending = some cb) (accepted : (w.resumeRefusal f).2 = none) :
    (w.resume m f p).2 = .next ∧
      (w.resume m f p).1.thread.frames = [.ops cb.body, .task f.id cb.tag cb.keep] := by
  obtain ⟨rfl, can, same⟩ := accepted_of_resume sound accepted
  obtain ⟨rests, -⟩ := rests_of_canResume sound.thread found can
  have resumed : w.resume m f p = (w.currentFiber.1.switchTo f p, .next) := by
    unfold resume
    split
    · rename_i refused
      rw [refused] at accepted
      cases accepted
    · rename_i eq
      rw [← same, eq]
  rw [resumed]
  refine ⟨rfl, ?_⟩
  cases rests with
  | waiting onStack state context callback =>
    cases waits.symm.trans callback
    exact frames_switchTo_fresh context callback
  | suspended onStack state context callback => cases waits.symm.trans callback
  | finished onStack state context callback => cases waits.symm.trans callback

end World

/-! ## 5. Runs -/

/-- An entry that tells of the end of a callback. -/
def Event.isDropped : Event → Bool
  | .dropped _ => true
  | _ => false

/-- A callback is destroyed while the fibers of its thread are as they are while code
runs. -/
theorem Entry.Due.order_of_dropped {texts fatal : String → Prop} {e : Entry}
    (due : e.Due texts fatal) (dropped : e.event.isDropped) : e.thread.InOrder .exec := by
  obtain ⟨t, event⟩ := e
  cases event <;> cases dropped
  cases due with
  | fair fair =>
    cases fair with
    | plain order plain => exact order
    | birth order birth first => exact order
    | fault order runs fault plain => cases fault
  | torn torn => exact torn.order
  | failed order cause report => exact order
  | last order last => rcases last with last | ⟨o, last⟩ <;> cases last

namespace Machine

variable {m : Machine} {story after : List Act} {fate : Fate}

/-- A callback has a fate, by the acts since a fiber was bound to it. -/
structure Traces (m : Machine) (id : FiberId) (cb : Callback) (after : List Act) (fate : Fate) :
    Prop where
  fares : cb.Fares id after fate
  only : ∀ other, cb.Fares id after other → other = fate
  /-- What it has left behind does not come back. -/
  onward : ∀ first rest before, after = first ++ rest → cb.Fares id first before →
    fate = before ∨ before.rank < fate.rank
  /-- Unless it is destroyed, no other callback was bound to the fiber since, and the
  fiber has it. -/
  held : fate.past ∨ (∀ a ∈ after, a.bound? id = none) ∧ fate ≠ .dying ∧
    (m.world.process.halted = false → ∃ p ∈ m.places, p.2.id = id ∧ p.2.Has p.1 cb fate)

theorem Lived.traces (lived : m.world.process.halted = false → m.Lived story) (first : 0 < id)
    (life : Life id story phase) (lasts : phase.lasts) {before : List Act}
    (whole : story = before ++ act :: after) (binds : act.binding? = some (id, cb)) :
    ∃ fate, m.Traces id cb after fate := by
  obtain ⟨fate, fares, held⟩ := life.fares whole binds
  refine ⟨fate, fares, fun other fares' => fares'.unique (Fate.orderly id cb) fares, ?_, ?_⟩
  · rintro left rest early rfl fares'
    exact fares'.onward fares
  · rcases held with past | ⟨latest, has⟩
    · exact .inl past
    · exact .inr ⟨latest, Phase.fate_of_lasts lasts has, fun going => (lived going).has first life has⟩

variable {level : Option Level} {hook : ReportHook} {script : List Op} {n : Nat}

/-- Every callback that a fiber was bound to is used once. It is pending, entered or
destroyed, and comes to that by the acts since. The callbacks that were bound to a
fiber are destroyed in this order, but for the one that it has. The trace shows
which ones were destroyed. Code that runs in a task is that of a callback that was
entered and not destroyed. A request that is given a callback binds a fiber to it or
destroys it, and a fiber enters it with all of its code to come. -/
theorem callbacks_used_once (level : Option Level) (hook : ReportHook) (script : List Op)
    (n : Nat) :
    let m := (start level hook script).steps n
    ((∃ acts, Story (start level hook script) n acts) ∧
      ∀ acts, Story (start level hook script) n acts →
        (∀ id cb before act after, 0 < id → acts = before ++ act :: after →
          act.binding? = some (id, cb) → ∃ fate, m.Traces id cb after fate) ∧
        (∀ id, 0 < id → ∃ now : Option Belongings,
          acts.filterMap (Act.bound? id) = acts.filterMap (Act.unbound? id) ++ now.toList) ∧
        m.world.process.disposed = acts.filterMap Act.entry? ∧
        (m.done = false → ∀ id, m.world.thread.task? = some id →
          ∃ before act after cb, acts = before ++ act :: after ∧
            act.binding? = some (id, cb) ∧ m.Traces id cb after .entered ∧
            m.world.thread.frames.getLast? = some (.task id cb.tag cb.keep))) ∧
    (∀ e ∈ m.world.process.trace.toList, e.event.isDropped → e.thread.InOrder .exec) ∧
    ∀ (others : List FiberId) (w : World) (r : Option FiberId) (cb : Callback),
      (∀ h a asked, Stage.Sound others ⟨w, r, .exec, cb.keep ++ h⟩ →
        w.Takes cb (w.createTask a asked cb).1 (w.createTask a asked cb).2) ∧
      (∀ h m f, Stage.Sound others ⟨w, r, .exec, cb.keep ++ h⟩ →
        w.thread.fiber? f.id = some f → f.id ∈ h →
        match f.resetRefusal? with
        | some e => w.reset m f cb = (w.dropCallback cb.tag cb.keep).reject m f.id e
        | none => ∃ g, (w.reset m f cb).1.thread.fiber? f.id = some g ∧ g.state = .init ∧
            g.pending = some cb) ∧
      (∀ h m f p, Stage.Sound others ⟨w, r, .exec, f.id :: h⟩ →
        w.thread.fiber? f.id = some f → f.pending = some cb → (w.resumeRefusal f).2 = none →
        (w.resume m f p).2 = .next ∧
          (w.resume m f p).1.thread.frames = [.ops cb.body, .task f.id cb.tag cb.keep]) ∧
      ∀ tag ids more, w.dropCallback tag (ids ++ more) = (w.dropCallback tag ids).release more := by
  intro m
  refine ⟨⟨steps_story level hook script n, fun acts story => ⟨?_, ?_, story.disposes, ?_⟩⟩, ?_, ?_⟩
  · intro id cb before act after first whole binds
    obtain ⟨phase, life, lasts⟩ := story.begins first
    exact Lived.traces story.lived first life lasts whole binds
  · intro id first
    obtain ⟨phase, life, -⟩ := story.begins first
    exact ⟨_, life.bindings⟩
  · intro goes id ran
    obtain ⟨first, before, act, after, cb, whole, binds, fares, code⟩ :=
      (story.lived (halted_of_goes goes)).runs (stage_sound goes) ran
    obtain ⟨phase, life, lasts⟩ := story.begins first
    obtain ⟨fate, traces⟩ := Lived.traces story.lived first life lasts whole binds
    obtain rfl := traces.only .entered fares
    exact ⟨before, act, after, cb, whole, binds, traces, code⟩
  · intro e mem dropped
    obtain ⟨k, -, new, there, -, -, adds⟩ := history mem
    exact (adds.due e there).order_of_dropped dropped
  · intro others w r cb
    refine ⟨fun h a asked sound => World.createTask_takes sound rfl,
      fun h m f sound found mine => World.reset_takes sound found mine,
      fun h m f p sound found waits accepted => World.resume_enters sound found waits accepted,
      fun tag ids more => World.release_append _ ids more⟩

end Machine

end FiberEngine
