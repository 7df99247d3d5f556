/-
FiberEngine.Proofs.Order — what a run writes, and how its threads stand then.

`Thread.InOrder` is the law of switching: a thread without a main fiber has no
current fiber; while no task runs, the main fiber is the current one and in
`exec`; while a task runs, it is the current fiber, and the main fiber is on
hold. No other fiber is ever in `exec`.

`Entry.Fair` says which entries a path may write, and `Tells` what a path adds
to the trace: fair entries only, and at level `debug` one entry for each fiber
that is created, in the order of ids. The main statement is `Leads.tells`.
-/
import FiberEngine.Proofs.Steps

namespace FiberEngine

variable {texts : String → Prop} {others : List FiberId}

/-! ## 1. Threads in order -/

/-- A task that neither runs nor is a main fiber. -/
def Fiber.Idle (f : Fiber) : Prop :=
  f.isMain = false ∧ f.state ≠ .exec

/-- A thread in order, in which the running task, if there is one, is in a state. -/
inductive Thread.InOrder (t : Thread) (state : FiberState) : Prop
  /-- It has no main fiber. -/
  | bare (noMain : t.main = none) (noTask : t.task? = none) (current : t.currentId = 0)
    (others : ∀ f ∈ t.fibers, f.Idle)
  /-- It has one, and no task runs. -/
  | home {main : Fiber} (there : main ∈ t.fibers) (isMain : t.main = some main.id)
    (noTask : t.task? = none) (current : t.currentId = main.id) (mainly : main.isMain)
    (runs : main.state = .exec) (others : ∀ f ∈ t.fibers, f ≠ main → f.Idle)
  /-- A task runs. -/
  | away {main task : Fiber} (there : main ∈ t.fibers) (isMain : t.main = some main.id)
    (mainly : main.isMain) (parked : main.state = .hold) (present : task ∈ t.fibers)
    (isTask : t.task? = some task.id) (current : t.currentId = task.id)
    (minor : task.isMain = false) (runs : task.state = state)
    (others : ∀ f ∈ t.fibers, f ≠ main → f ≠ task → f.Idle)

theorem Fiber.Rests.idle {f : Fiber} (h : f.Rests) : f.Idle := by
  have onStack : f.isMain = false := by
    rw [isMain, Option.isNone_eq_false_iff]
    exact Option.isSome_iff_ne_none.mpr h.lease
  refine ⟨onStack, ?_⟩
  cases h with
  | waiting _ state _ _ => simp [state]
  | suspended _ state _ _ _ _ => rcases state with state | state <;> simp [state]
  | finished _ state _ _ =>
    intro exec
    simp [exec, FiberState.terminal] at state

/-- Fibers of one id are one fiber. -/
theorem Thread.Distinct.eq_of_id {t : Thread} (distinct : t.Distinct) {f g : Fiber}
    (hf : f ∈ t.fibers) (hg : g ∈ t.fibers) (same : f.id = g.id) : f = g := by
  have found := fiber?_of_mem distinct hf
  rw [same, fiber?_of_mem distinct hg] at found
  exact (Option.some.inj found).symm

/-- A sound thread is in order. -/
theorem Thread.Sound.inOrder {t : Thread} {r : Option FiberId} {s : FiberState}
    {held : List FiberId} (h : t.Sound r s held) (state : FiberState)
    (same : r ≠ none → s = state) : t.InOrder state := by
  cases r with
  | none =>
    have current : t.current = t.main := h.current
    cases main : t.main with
    | none =>
      refine .bare main h.task (by simp [currentId, current, main]) ?_
      intro f mem
      exact ((h.fits f mem).rests (by simp [main]) (by simp)).idle
    | some id =>
      obtain ⟨g, found, rfl, presides⟩ := h.main_presides main
      have mem := mem_of_fiber? found
      cases presides with
      | home noStack callback state context =>
        refine .home mem main h.task (by simp [currentId, current, main])
          (by simp [Fiber.isMain, noStack]) state ?_
        intro f there other
        have apart : g.id ≠ f.id := fun same => other (h.distinct.eq_of_id there mem same.symm)
        exact ((h.fits f there).rests (by simpa [main] using apart) (by simp)).idle
  | some task =>
    obtain rfl := same (by simp)
    obtain ⟨f, found, rfl, runs⟩ := h.runner_runs
    obtain ⟨some_main, other⟩ := h.apart f.id rfl
    obtain ⟨id, isMain⟩ := Option.ne_none_iff_exists'.mp some_main
    obtain ⟨g, foundMain, rfl, presides⟩ := h.main_presides isMain
    have minor : f.isMain = false := by
      rw [Fiber.isMain, Option.isNone_eq_false_iff]
      exact Option.isSome_iff_ne_none.mpr runs.onStack
    have current : t.current = some f.id := h.current
    cases presides with
    | parked noStack callback state context body awaits =>
      refine .away (mem_of_fiber? foundMain) isMain (by simp [Fiber.isMain, noStack]) state
        (mem_of_fiber? found) h.task (by simp [currentId, current]) minor runs.state ?_
      intro x mem notMain notTask
      have apart : g.id ≠ x.id := fun same =>
        notMain (h.distinct.eq_of_id mem (mem_of_fiber? foundMain) same.symm)
      have apart' : f.id ≠ x.id := fun same =>
        notTask (h.distinct.eq_of_id mem (mem_of_fiber? found) same.symm)
      exact ((h.fits x mem).rests (by simpa [isMain] using apart) (by simpa using apart')).idle

/-- The fibers of a thread have ids of their own, and a thread with a main fiber has a
current one. -/
structure Thread.Regular (t : Thread) : Prop where
  distinct : t.Distinct
  current : t.current = none ↔ t.main = none

theorem Thread.Sound.regular {t : Thread} {r : Option FiberId} {s : FiberState}
    {held : List FiberId} (h : t.Sound r s held) : t.Regular := by
  refine ⟨h.distinct, ?_⟩
  have current := h.current
  cases r with
  | none => rw [show t.current = t.main from current]
  | some task => simp [show t.current = some task from current, (h.apart task rfl).1]

/-! ## 2. Entries -/

/-- The fiber whose creation an entry tells of. -/
def Event.birth? : Event → Option FiberId
  | .logged (.fiberCreated id _) _ | .logged (.mainCreated id) _ => some id
  | _ => none

/-- The text that an entry reports. -/
def Event.report? : Event → Option String
  | .reported text _ | .logged (.reported text) _ => some text
  | _ => none

/-- An entry that an operation may write, in a thread as it stands then. -/
inductive Entry.Fair (texts : String → Prop) (e : Entry) : Prop
  | plain (order : e.thread.InOrder .exec) (plain : e.event.Plain texts)
  /-- A fiber is created. A main fiber is created in a thread that has none. -/
  | birth {id : FiberId} (order : e.thread.InOrder .exec) (birth : e.event.birth? = some id)
    (first : ∀ span, e.event = .logged (.mainCreated id) span → e.thread.main = none)
  /-- The task that runs has ended by a panic, and its fault is reported. -/
  | fault {id : FiberId} (order : e.thread.InOrder .except) (runs : e.thread.task? = some id)
    (fault : e.event.FaultOf e.thread id) (plain : e.event.Plain texts)

theorem Event.Plain.birth? {e : Event} (h : e.Plain texts) : e.birth? = none := by
  cases e with
  | logged n span => cases n <;> simp_all [Event.Plain, Notice.Plain, Event.birth?]
  | _ => rfl

/-! ## 3. What a path adds -/

/-- Texts as they are printed to an error output. -/
def printed (reports : List String) : String :=
  String.join (reports.map fun text => "[report] " ++ text ++ "\n")

/-- If a thread has a main fiber, it still has it later on. -/
def Thread.KeepsMain (t u : Thread) : Prop :=
  ∀ id, t.main = some id → u.main = some id

/-- What a path from one stage to another leaves behind: the entries that are new. -/
structure Tells (texts : String → Prop) (a b : Stage) (new : List Entry) : Prop where
  trace : b.world.process.trace.toList = a.world.process.trace.toList ++ new
  fair : ∀ e ∈ new, e.Fair texts
  regular : ∀ e ∈ new, e.thread.Regular
  level : b.world.process.level = a.world.process.level
  leaked : b.world.process.leaked = a.world.process.leaked
  /-- The main fiber of a thread is never replaced. -/
  main : a.world.thread.KeepsMain b.world.thread
  since : ∀ e ∈ new, a.world.thread.KeepsMain e.thread
  upTo : ∀ e ∈ new, e.thread.KeepsMain b.world.thread
  steady : new.Pairwise fun e e' => e.thread.KeepsMain e'.thread
  order : a.world.process.nextId ≤ b.world.process.nextId
  /-- At level `debug` and finer, every creation is told, in the order of ids. -/
  births : Level.admits a.world.process.level .debug →
    new.filterMap (fun e => e.event.birth?) =
      List.range' a.world.process.nextId (b.world.process.nextId - a.world.process.nextId)
  /-- An error output is that of a new demonstration, or the old one with more reports. -/
  errors : ∃ start reports, (start = a.world.process.errorOutput ∨ start = "") ∧
    (∀ text ∈ reports, texts text) ∧
    b.world.process.errorOutput = start ++ printed reports

namespace Tells

variable {a b c : Stage} {new more : List Entry}

theorem printed_append (xs ys : List String) : printed (xs ++ ys) = printed xs ++ printed ys := by
  simp [printed]

theorem refl (a : Stage) : Tells texts a a [] where
  trace := by simp
  fair := by simp
  regular := by simp
  level := rfl
  leaked := rfl
  main _ h := h
  since := by simp
  upTo := by simp
  steady := List.Pairwise.nil
  order := Nat.le_refl _
  births _ := by simp
  errors := ⟨_, [], .inl rfl, by simp, by simp [printed]⟩

theorem trans (first : Tells texts a b new) (second : Tells texts b c more) :
    Tells texts a c (new ++ more) where
  trace := by rw [second.trace, first.trace, List.append_assoc]
  fair e mem := by
    rcases List.mem_append.mp mem with mem | mem
    · exact first.fair e mem
    · exact second.fair e mem
  regular e mem := by
    rcases List.mem_append.mp mem with mem | mem
    · exact first.regular e mem
    · exact second.regular e mem
  level := second.level.trans first.level
  leaked := second.leaked.trans first.leaked
  main id h := second.main id (first.main id h)
  since e mem id h := by
    rcases List.mem_append.mp mem with mem | mem
    · exact first.since e mem id h
    · exact second.since e mem id (first.main id h)
  upTo e mem id h := by
    rcases List.mem_append.mp mem with mem | mem
    · exact second.main id (first.upTo e mem id h)
    · exact second.upTo e mem id h
  steady := List.pairwise_append.mpr ⟨first.steady, second.steady, fun e mem e' mem' id h =>
    second.since e' mem' id (first.upTo e mem id h)⟩
  order := Nat.le_trans first.order second.order
  births admits := by
    rw [List.filterMap_append, first.births admits, second.births (first.level ▸ admits)]
    exact range'_append_range' first.order second.order
  errors := by
    obtain ⟨start, reports, from_a, allowed, output⟩ := first.errors
    obtain ⟨start', reports', from_b, allowed', output'⟩ := second.errors
    rcases from_b with rfl | rfl
    · refine ⟨start, reports ++ reports', from_a, ?_, ?_⟩
      · intro text mem
        rcases List.mem_append.mp mem with mem | mem
        · exact allowed text mem
        · exact allowed' text mem
      · rw [output', output, printed_append, String.append_assoc]
    · exact ⟨"", reports', .inr rfl, allowed', output'⟩

/-- Who runs and which handles the running code has does not matter. -/
theorem restage {w v : World} {r r' q q' : Option FiberId} {s s' u u' : FiberState}
    {h h' g g' : List FiberId} (tells : Tells texts ⟨w, r, s, h⟩ ⟨v, r', s', h'⟩ new) :
    Tells texts ⟨w, q, u, g⟩ ⟨v, q', u', g'⟩ new :=
  ⟨tells.trace, tells.fair, tells.regular, tells.level, tells.leaked, tells.main, tells.since, tells.upTo,
    tells.steady, tells.order, tells.births, tells.errors⟩

/-- Nothing is written. -/
theorem silent (trace : b.world.process.trace = a.world.process.trace)
    (nextId : b.world.process.nextId = a.world.process.nextId)
    (level : b.world.process.level = a.world.process.level)
    (leaked : b.world.process.leaked = a.world.process.leaked)
    (main : b.world.thread.main = a.world.thread.main)
    (errors : b.world.process.errorOutput = a.world.process.errorOutput ∨
      b.world.process.errorOutput = "") : Tells texts a b [] where
  trace := by simp [trace]
  fair := by simp
  regular := by simp
  level := level
  leaked := leaked
  main _ h := main.trans h
  since := by simp
  upTo := by simp
  steady := List.Pairwise.nil
  order := Nat.le_of_eq nextId.symm
  births _ := by simp [nextId]
  errors := ⟨b.world.process.errorOutput, [], errors, by simp, by simp [printed]⟩

/-- One entry is written, and no fiber is created. -/
theorem one {w : World} {r : Option FiberId} {s : FiberState} {h : List FiberId} {e : Event}
    (going : w.process.halted = false) (fair : Entry.Fair texts ⟨w.thread, e⟩)
    (regular : w.thread.Regular) (none : e.birth? = none) :
    Tells texts ⟨w, r, s, h⟩ ⟨w.emit e, r, s, h⟩ [⟨w.thread, e⟩] := by
  rw [World.emit_of_going going]
  exact {
    trace := by simp
    fair := by simpa using fair
    regular := by simpa using regular
    level := rfl
    leaked := rfl
    main := fun _ h => h
    since := by simp [Thread.KeepsMain]
    upTo := by simp [Thread.KeepsMain]
    steady := List.pairwise_singleton _ _
    order := Nat.le_refl _
    births := fun _ => by simp [none]
    errors := ⟨_, [], .inl rfl, by simp, by simp [printed, Process.errorOutput]⟩ }

end Tells

/-- A fiber that is created is told of at level `debug`, by one entry at most. -/
theorem log_birth (texts : String → Prop) {w : World} {n : Notice} {id : FiberId}
    (level : n.level = .debug) (birth : ∀ span, (Event.logged n span).birth? = some id)
    (first : n = .mainCreated id → w.thread.main = none) (going : w.process.halted = false)
    (order : w.thread.InOrder .exec) :
    ∃ new, (w.log n).process.trace.toList = w.process.trace.toList ++ new ∧
      (∀ e ∈ new, e.Fair texts ∧ e.thread = w.thread) ∧
      new.Pairwise (fun e e' => e.thread.KeepsMain e'.thread) ∧
      (Level.admits w.process.level .debug → new.filterMap (fun e => e.event.birth?) = [id]) := by
  by_cases admits : Level.admits w.process.level .debug
  · refine ⟨[⟨w.thread, .logged n w.span?⟩], ?_, ?_, List.pairwise_singleton _ _,
      fun _ => by simp [birth]⟩
    · rw [World.log, level, if_pos admits, World.emit_of_going going]
      simp
    · simpa using .birth order (birth _) fun _ same => first (Event.logged.inj same).1
  · refine ⟨[], ?_, by simp, List.Pairwise.nil, fun h => absurd h admits⟩
    rw [World.log, level, if_neg admits, List.append_nil]

/-- A fiber is created under the next id. -/
theorem Tells.born {w v : World} {r r' : Option FiberId} {s s' : FiberState}
    {h h' : List FiberId} {n : Notice} (level : n.level = .debug)
    (birth : ∀ span, (Event.logged n span).birth? = some w.process.nextId)
    (first : n = .mainCreated w.process.nextId → w.thread.main = none)
    (going : w.process.halted = false) (order : w.thread.InOrder .exec)
    (regular : w.thread.Regular) (process : v.process = ((w.count.1).log n).process)
    (main : w.thread.KeepsMain v.thread) :
    ∃ new, Tells texts ⟨w, r, s, h⟩ ⟨v, r', s', h'⟩ new := by
  have same := (w.count.1).log_same n
  obtain ⟨new, trace, fair, steady, births⟩ := log_birth texts (w := w.count.1) level birth
    first going order
  have here : ∀ e ∈ new, e.thread = w.thread := fun e mem => (fair e mem).2
  have nextId : v.process.nextId = w.process.nextId + 1 := by rw [process, same.nextId]; rfl
  exact ⟨new, {
    trace := by
      rw [process, trace]
      rfl
    fair := fun e mem => (fair e mem).1
    regular := fun e mem => by
      rw [here e mem]
      exact regular
    level := by
      rw [process, same.level]
      rfl
    leaked := by
      rw [process, same.leaked]
      rfl
    main := main
    since := fun e mem id h => by rw [here e mem]; exact h
    upTo := fun e mem id h => by rw [here e mem] at h; exact main id h
    steady := steady
    order := by
      rw [nextId]
      exact Nat.le_succ _
    births := fun admits => by
      rw [births admits, nextId, Nat.add_sub_cancel_left]
      rfl
    errors := ⟨w.process.errorOutput, [], .inl rfl, by simp, by
      rw [process, Process.errorOutput, same.program]
      simp [World.count, Process.errorOutput, printed]⟩ }⟩

/-! ### Switches leave the main fiber what it is -/

theorem Thread.setMainState_main (t : Thread) (state : FiberState) :
    (t.setMainState state).main = t.main := by
  unfold setMainState
  split <;> rfl

theorem World.depart_main (w : World) (task : FiberId) (p : Pending) :
    (w.depart task p).thread.main = w.thread.main := by
  have kept : ∀ v : World, v.parkMain.thread.main = v.thread.main := by
    intro v
    unfold World.parkMain
    split
    · rfl
    · rw [World.fatalInside_thread]
  rw [depart, kept]
  exact Thread.setMainState_main _ _

theorem World.comeBack_main (w : World) (task main : FiberId) (context : Context) (k : List Frame) :
    (w.comeBack task main context k).thread.main = w.thread.main :=
  Thread.setMainState_main _ _

/-! ### The end of fibers and callbacks -/

section

variable {w : World} {r r' : Option FiberId} {s : FiberState} {h held : List FiberId}

/-- An entry that is written while no task has just ended. -/
theorem emit_tells {e : Event} (thread : w.thread.Sound r' .exec held)
    (going : w.process.halted = false) (plain : e.Plain texts) :
    ∃ new, Tells texts ⟨w, r, s, h⟩ ⟨w.emit e, r, s, h⟩ new :=
  ⟨_, .one going (.plain (thread.inOrder .exec fun _ => rfl) plain) thread.regular plain.birth?⟩

theorem log_tells {n : Notice} (thread : w.thread.Sound r' .exec held)
    (going : w.process.halted = false) (plain : n.Plain texts) :
    ∃ new, Tells texts ⟨w, r, s, h⟩ ⟨w.log n, r, s, h⟩ new := by
  rcases w.log_cases n with same | same
  · rw [same]
    exact ⟨[], .refl _⟩
  · rw [same]
    exact emit_tells thread going plain

theorem dropTag_tells (tag : Option String) (thread : w.thread.Sound r' .exec held)
    (going : w.process.halted = false) :
    ∃ new, Tells texts ⟨w, r, s, h⟩ ⟨w.dropTag tag, r, s, h⟩ new := by
  cases tag with
  | none => exact ⟨[], .refl _⟩
  | some tag => exact emit_tells thread going trivial

theorem deallocate_tells (lease : StackLease) (thread : w.thread.Sound r' .exec held)
    (going : w.process.halted = false) :
    ∃ new, Tells texts ⟨w, r, s, h⟩ ⟨w.deallocate lease.allocator lease.block, r, s, h⟩ new := by
  have taken : Tells texts ⟨w, r, s, h⟩ ⟨w.onThread fun t => t.takeBack lease, r, s, h⟩ [] :=
    .silent rfl rfl rfl rfl (Thread.takeBack_main ..) (.inl rfl)
  have thread : (w.thread.takeBack lease).Sound r' .exec held :=
    thread.alike (w.thread.takeBack_alike lease)
  rw [World.deallocate_eq]
  split
  · obtain ⟨new, told⟩ := emit_tells (w := w.onThread fun t => t.takeBack lease)
      (e := .deallocated lease.block.size) thread going trivial
    exact ⟨_, taken.trans told⟩
  · exact ⟨_, taken⟩

/-- The end of a fiber is told with the end of its stack and its callback. -/
theorem destroy_tells {id : FiberId} {f : Fiber}
    (sound : Stage.Sound others ⟨w, r, .exec, id :: held⟩) (found : w.thread.fiber? id = some f)
    (last : f.handles ≤ 1) : ∃ new, Tells texts ⟨w, r, s, h⟩ ⟨(w.destroy f).1, r, s, h⟩ new := by
  obtain ⟨can, lease, onStack⟩ := sound.thread.leased_last found last
  obtain rfl : f.id = id := Thread.id_of_fiber? found
  let buried := (w.onThread fun t => t.erase f.id).uncount
  have given := buried.deallocate_same lease
  have thread : buried.thread.Sound r .exec (f.pending.elim [] Callback.keep ++ held) :=
    sound.thread.bury found last
  have after : (buried.deallocate lease.allocator lease.block).thread.Sound r .exec
      (f.pending.elim [] Callback.keep ++ held) := by
    rw [given.thread]
    exact thread.alike (buried.thread.takeBack_alike lease)
  have gone : Tells texts ⟨w, r, s, h⟩ ⟨buried, r, s, h⟩ [] :=
    .silent rfl rfl rfl rfl rfl (.inl rfl)
  obtain ⟨_, first⟩ : ∃ new, Tells texts ⟨buried, r, s, h⟩ _ new :=
    deallocate_tells lease thread sound.going
  obtain ⟨_, second⟩ : ∃ new, Tells texts _ ⟨World.log _ (.fiberDestroyed f.id f.state), r, s, h⟩ new :=
    log_tells after (given.halted.trans sound.going) trivial
  have logged := (buried.deallocate lease.allocator lease.block).log_same
    (.fiberDestroyed f.id f.state)
  obtain ⟨_, third⟩ : ∃ new, Tells texts _ ⟨World.dropTag _ _, r, s, h⟩ new :=
    dropTag_tells (f.pending.bind Callback.tag) (by rw [logged.thread]; exact after)
      (logged.halted.trans (given.halted.trans sound.going))
  rw [World.destroy_eq onStack can]
  exact ⟨_, ((gone.trans first).trans second).trans third⟩

theorem release_tells (ids : List FiberId)
    (sound : Stage.Sound others ⟨w, r, .exec, ids ++ held⟩) :
    ∃ new, Tells texts ⟨w, r, s, h⟩ ⟨w.release ids, r, s, h⟩ new := by
  have rounds := World.release_rounds (P := fun v rest _ =>
    Stage.Sound others ⟨v, r, .exec, rest ++ held⟩ ∧
      ∃ new, Tells texts ⟨w, r, s, h⟩ ⟨v, r, s, h⟩ new) w ids [] ⟨sound, [], .refl _⟩ ?_ ?_ ?_
  · exact rounds.2
  · rintro v id rest acts ⟨before, told⟩ none
    obtain ⟨f, found⟩ := before.thread.exists_of_held (by simp : id ∈ id :: rest ++ held)
    exact absurd found (by simp [none])
  · rintro v id rest acts f ⟨before, _, told⟩ found last
    obtain ⟨_, more⟩ : ∃ new, Tells texts _ ⟨(v.destroy f).1, r, s, h⟩ new :=
      destroy_tells before found last
    rw [List.append_assoc]
    exact ⟨(before.destroy found last).sound, _, told.trans more⟩
  · rintro v id rest acts f ⟨before, _, told⟩ found more
    have less : Move texts ⟨v, r, .exec, id :: (rest ++ held)⟩ [] _ := .giveUp found more
    exact ⟨(less.follows before).sound, _, told.trans (.silent rfl rfl rfl rfl rfl (.inl rfl))⟩

end

/-! ### Every move -/

theorem Move.tells {a b : Stage} {acts : List Act} (m : Move texts a acts b)
    (h : a.Sound others) : ∃ new, Tells texts a b new := by
  cases m with
  | @write w r s held e plain keeps fits =>
    rcases fits with rfl | ⟨rfl, id, rfl, fault⟩
    · exact ⟨_, .one h.going (.plain (h.thread.inOrder .exec fun _ => rfl) plain) h.thread.regular
        plain.birth?⟩
    · have order := h.thread.inOrder .except fun _ => rfl
      exact ⟨_, .one h.going (.fault order h.thread.task fault plain) h.thread.regular plain.birth?⟩
  | @complain w r s held text ok fits =>
    refine ⟨[], { Tells.refl ⟨w, r, s, held⟩ with errors := ?_ }⟩
    cases program : w.process.program with
    | none =>
      exact ⟨"", [], .inr rfl, by simp,
        by simp [World.printError, World.onProgram, Process.errorOutput, program, printed]⟩
    | some p =>
      exact ⟨w.process.errorOutput, [text], .inl rfl, by simpa using ok,
        by simp [World.printError, World.onProgram, Process.errorOutput, program, printed,
          String.append_assoc]⟩
  | tune p alike =>
    exact ⟨[], .silent alike.trace alike.nextId alike.level alike.leaked rfl alike.errors⟩
  | equip t alike blocks => exact ⟨[], .silent rfl rfl rfl rfl alike.main (.inl rfl)⟩
  | @bearMain w held missing =>
    have current := h.current_of_missing missing
    refine Tells.born (n := .mainCreated w.process.nextId) rfl (fun _ => rfl) (fun _ => missing)
      h.going (h.thread.inOrder .exec fun _ => rfl) h.thread.regular ?_ ?_
    · simp only [World.currentFiber, current, missing]
      rfl
    · intro id isMain
      simp [missing] at isMain
  | @bearTask w r held alloc n size cb =>
    have out : Tells texts ⟨w, r, .exec, cb.keep ++ held⟩
        ⟨(w.handOut alloc n).1, r, .exec, cb.keep ++ held⟩ [] :=
      .silent rfl rfl rfl rfl rfl (.inl rfl)
    have thread := h.thread.alike (w.handOut_alike alloc n)
    obtain ⟨_, told⟩ := Tells.born (w := (w.handOut alloc n).1)
      (v := ((w.handOut alloc n).1.insertTask alloc (w.handOut alloc n).2 size cb).1)
      (n := .fiberCreated w.process.nextId size) rfl (fun _ => rfl) (fun other => by cases other)
      h.going (thread.inOrder .exec fun _ => rfl) thread.regular rfl fun id isMain => by
        rw [World.insertTask_thread]
        exact isMain
    exact ⟨_, out.trans told⟩
  | release ids =>
    obtain ⟨_, told⟩ := release_tells (s := .exec) (h := []) ids h
    exact ⟨_, told.restage⟩
  | @freeBlock w r held b name a kept =>
    have cleared : Tells texts ⟨w, r, .exec, held⟩
        ⟨w.onThread fun t => t.clearBlock name, r, .exec, held⟩ [] :=
      .silent rfl rfl rfl rfl rfl (.inl rfl)
    have thread : (w.thread.clearBlock name).Sound r .exec held :=
      h.thread.alike ⟨rfl, rfl, rfl, rfl, rfl⟩
    obtain ⟨_, told⟩ := deallocate_tells (w := w.onThread fun t => t.clearBlock name) ⟨b, a⟩ thread
      h.going
    exact ⟨_, cleared.trans told⟩
  | refuse cb => exact dropTag_tells cb.tag h.thread h.going
  | @install w r held id f cb found can =>
    have bound : Tells texts ⟨w, r, .exec, cb.keep ++ held⟩
        ⟨w.onThread fun t => t.update id (Fiber.bound cb), r, .exec,
          f.pending.elim [] Callback.keep ++ held⟩ [] :=
      .silent rfl rfl rfl rfl rfl (.inl rfl)
    obtain ⟨_, told⟩ := dropTag_tells (w := w.onThread fun t => t.update id (Fiber.bound cb))
      (f.pending.bind Callback.tag) (h.thread.install found can) h.going
    exact ⟨_, bound.trans told⟩
  | @conclude w id tag keep last terminal base =>
    have quiet : Quiet [.shed id tag keep] := ⟨rfl, rfl⟩
    have dropped := (h.dropTag tag quiet).sound
    obtain ⟨_, first⟩ := dropTag_tells (r := some id) (s := .exec) (h := keep ++ [id]) tag
      h.thread h.going
    obtain ⟨_, second⟩ := release_tells (s := .exec) (h := keep ++ [id]) keep dropped
    exact ⟨_, (first.trans second).trans (.silent rfl rfl rfl rfl rfl (.inl rfl))⟩
  | @enter w id main f p cb isMain =>
    have process : ((w.depart id p).begin id cb).process = w.process :=
      World.depart_process isMain id p
    exact ⟨[], .silent (by rw [process]) (by rw [process]) (by rw [process]) (by rw [process])
      (w.depart_main id p) (.inl (by rw [process]))⟩
  | @resume w id main f p k isMain =>
    have process : ((w.depart id p).goOn k).process = w.process :=
      World.depart_process isMain id p
    exact ⟨[], .silent (by rw [process]) (by rw [process]) (by rw [process]) (by rw [process])
      (w.depart_main id p) (.inl (by rw [process]))⟩
  | yield next isMain parked body pauses parks =>
    exact ⟨[], .silent rfl rfl rfl rfl (World.comeBack_main _ _ _ _ _) (.inl rfl)⟩
  | leave isMain parked terminal =>
    exact ⟨[], .silent rfl rfl rfl rfl (World.comeBack_main _ _ _ _ _) (.inl rfl)⟩
  | regroup | goOn | hold | giveUp | setSlot | clearSlot | clearSlots | allocBlock | saveBlock =>
    exact ⟨[], .silent rfl rfl rfl rfl rfl (.inl rfl)⟩

theorem Path.tells {a b : Stage} {acts : List Act} (path : Path texts a acts b)
    (h : a.Sound others) : ∃ new, Tells texts a b new := by
  induction path with
  | nil => exact ⟨[], .refl _⟩
  | snoc path move ih =>
    obtain ⟨new, first⟩ := ih
    obtain ⟨more, second⟩ := move.tells (path.sound h)
    exact ⟨new ++ more, first.trans second⟩

/-- Whatever one stage leads to, it tells of. -/
theorem Leads.tells {a b : Stage} (leads : Leads texts a b) (h : a.Sound others) :
    ∃ new, Tells texts a b new := by
  obtain ⟨_, path⟩ := leads
  exact path.tells h

end FiberEngine
