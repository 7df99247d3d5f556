/-
FiberEngine.Proofs.Constructing — a construction that fails produces nothing.

A task fiber is made in three steps: the size of its stack is settled, a block is got for
it, and the fiber is entered under the next id. The first two can turn the construction
away, and then the callback, which has been handed over by then, is destroyed. Where the
block comes from does not matter to this: `createBy` is the construction from any supply of
blocks, with any errors of its own, and each kind of allocator is a supply. `Idle` says that
the engine has done nothing, which is all that it has done before the callback is destroyed.

The main statement is `failed_construct_inert`.
-/
import FiberEngine.Proofs.Poisoning

namespace FiberEngine

namespace World

variable {w v u x : World} {a : Allocator} {asked size : Nat} {cb : Callback}

/-! ## 1. An idle engine -/

/-- The engine has done nothing: the fibers are the same, in the same states, on the same
blocks and under the same handles, and so is what is current and what runs. The tunables may
differ, and the trace, and what allocators keep for themselves. -/
structure Idle (w v : World) : Prop where
  nextId : v.process.nextId = w.process.nextId
  live : v.process.live = w.process.live
  leaked : v.process.leaked = w.process.leaked
  hook : v.process.hook = w.process.hook
  halted : v.process.halted = w.process.halted
  fibers : v.thread.fibers = w.thread.fibers
  current : v.thread.current = w.thread.current
  main : v.thread.main = w.thread.main
  slots : v.thread.slots = w.thread.slots
  blocks : v.thread.blocks = w.thread.blocks
  frames : v.thread.frames = w.thread.frames

theorem Idle.refl (w : World) : Idle w w :=
  ⟨rfl, rfl, rfl, rfl, rfl, rfl, rfl, rfl, rfl, rfl, rfl⟩

theorem Idle.trans (first : Idle w v) (second : Idle v u) : Idle w u where
  nextId := second.nextId.trans first.nextId
  live := second.live.trans first.live
  leaked := second.leaked.trans first.leaked
  hook := second.hook.trans first.hook
  halted := second.halted.trans first.halted
  fibers := second.fibers.trans first.fibers
  current := second.current.trans first.current
  main := second.main.trans first.main
  slots := second.slots.trans first.slots
  blocks := second.blocks.trans first.blocks
  frames := second.frames.trans first.frames

theorem SameButTrace.idle (same : SameButTrace w v) : Idle w v where
  nextId := same.nextId
  live := same.live
  leaked := same.leaked
  hook := same.hook
  halted := same.halted
  fibers := congrArg Thread.fibers same.thread
  current := congrArg Thread.current same.thread
  main := congrArg Thread.main same.thread
  slots := congrArg Thread.slots same.thread
  blocks := congrArg Thread.blocks same.thread
  frames := congrArg Thread.frames same.thread

theorem report_idle (w : World) (text : String) : Idle w (w.report text).1 := by
  unfold report
  split
  · exact (w.log_same _).idle
  · exact (w.emit_same _).idle
  · exact ⟨rfl, rfl, rfl, rfl, rfl, rfl, rfl, rfl, rfl, rfl, rfl⟩

theorem withDefaultSize_idle (w : World) (d : DefaultSize) : Idle w (w.withDefaultSize d) :=
  ⟨rfl, rfl, rfl, rfl, rfl, rfl, rfl, rfl, rfl, rfl, rfl⟩

theorem lookup_idle (w : World) (name : String) (default : Config.Value) (description : String) :
    Idle w (w.lookup name default description).1 := by
  unfold lookup
  split
  · exact (w.log_same _).idle
  · exact (w.log_same _).idle
  · exact (w.log_same _).idle
  · exact ⟨rfl, rfl, rfl, rfl, rfl, rfl, rfl, rfl, rfl, rfl, rfl⟩

/-! ## 2. The size of the stack -/

/-- What is left of the first search for the default size, if no panic leaves it: the
tunable has been looked up, or it has been reported that its name is taken. -/
inductive Searched (w : World) : World → Prop
  | registered (fits : ¬ w.process.registry.SizeTaken) :
    Searched w ((w.lookup stackSizeName stackSizeDefault
      "fiber stack size").1.withDefaultSize .bound)
  | reported (taken : w.process.registry.SizeTaken) :
    Searched w (((w.log (.lookupFound stackSizeName)).report
      (unavailableText (.typeMismatch stackSizeName))).1.withDefaultSize .unavailable)

theorem Searched.idle (searched : w.Searched v) : Idle w v := by
  cases searched with
  | registered => exact (w.lookup_idle _ _ _).trans (withDefaultSize_idle _ _)
  | reported =>
    exact ((w.log_same _).idle.trans (report_idle _ _)).trans (withDefaultSize_idle _ _)

/-- With a hook that returns, the first search finds a size. -/
theorem bindDefaultSize_searched (returns : w.process.hook.panics = false) :
    ∃ u size, w.bindDefaultSize = (u, .ok size) ∧ w.Searched u := by
  by_cases taken : w.process.registry.SizeTaken
  · have told := report_returns (w := w.log (.lookupFound stackSizeName))
      (by rwa [(w.log_same _).hook]) (unavailableText (.typeMismatch stackSizeName))
    have searched := Searched.reported taken
    rw [bindDefaultSize_of_taken taken]
    rcases reported : (w.log (.lookupFound stackSizeName)).report
      (unavailableText (.typeMismatch stackSizeName)) with ⟨u, _ | p⟩
    · rw [reported] at searched
      exact ⟨_, _, rfl, searched⟩
    · rw [reported] at told
      cases told
  · obtain ⟨x, bound, -⟩ := bindDefaultSize_of_fits taken
    exact ⟨_, _, bound, .registered taken⟩

/-- Whatever comes of it, the engine does nothing while a size is settled. -/
theorem stackSize_idle (w : World) (asked : Nat) : Idle w (w.stackSize asked).1 := by
  have bound : Idle w w.bindDefaultSize.1 := by
    have looked := w.lookup_idle stackSizeName stackSizeDefault "fiber stack size"
    unfold bindDefaultSize
    split <;> rename_i eq <;> rw [eq] at looked
    · exact looked.trans (withDefaultSize_idle _ _)
    · rename_i v e
      have told := v.report_idle (stackSizeName ++ " unavailable, using " ++
        toString defaultStackSize ++ ": " ++ e.message)
      dsimp only
      split <;> rename_i reported <;> rw [reported] at told
      · exact (looked.trans told).trans (withDefaultSize_idle _ _)
      · exact (looked.trans told).trans (withDefaultSize_idle _ _)
  unfold stackSize World.defaultSize
  split
  · split
    · exact bound
    · exact .refl w
    · exact .refl w
    · exact .refl w
  · exact .refl w

/-- How the size of a stack is settled: it is the one that was asked for, or the default
size, which may have to be searched for first. -/
structure Sized (w : World) (asked : Nat) (v : World) (size : Nat) : Prop where
  settled : w.stackSize asked = (v, .ok size)
  given : asked ≠ 0 → size = asked
  kept : asked ≠ 0 ∨ w.process.defaultSize ≠ .unbound → v = w
  first : asked = 0 → w.process.defaultSize = .unbound → w.Searched v

theorem Sized.idle (sized : w.Sized asked v size) : Idle w v := by
  by_cases first : asked = 0 ∧ w.process.defaultSize = .unbound
  · exact (sized.first first.1 first.2).idle
  · rw [not_and_or] at first
    rw [sized.kept first]
    exact .refl w

/-- A size is settled unless a search has failed, or the hook panics. -/
theorem exists_sized (sane : w.process.defaultSize ≠ .poisoned)
    (returns : w.process.hook.panics = false) (asked : Nat) :
    ∃ v size, w.Sized asked v size := by
  by_cases zero : asked = 0
  · subst zero
    cases kept : w.process.defaultSize with
    | unbound =>
      obtain ⟨v, size, bound, searched⟩ := bindDefaultSize_searched returns
      have settled := (stackSize_of_unbound kept).trans bound
      exact ⟨v, size, settled, absurd rfl, by simp [kept], fun _ _ => searched⟩
    | bound =>
      have settled : w.stackSize 0 = (w, .ok w.boundSize) := by
        simp [stackSize, World.defaultSize, kept]
      exact ⟨w, _, settled, absurd rfl, fun _ => rfl, by simp [kept]⟩
    | unavailable =>
      exact ⟨w, _, stackSize_of_unavailable kept, absurd rfl, fun _ => rfl, by simp [kept]⟩
    | poisoned => exact absurd kept sane
  · exact ⟨w, asked, if_neg zero, fun _ => rfl, fun _ => rfl, fun default => absurd default zero⟩

/-! ## 3. Supplies of blocks -/

/-- Where blocks come from: what it comes to that one of some size is asked for. -/
def Supply : Type :=
  World → Nat → World × Except FiberError Block

/-- A supply leaves the engine and the tunables alone, and it hands out nothing when it
fails. -/
structure Supply.Modest (supply : Supply) : Prop where
  idle : ∀ w size, Idle w (supply w size).1
  settings : ∀ w size, (supply w size).1.settings = w.settings
  withholds : ∀ w size x e, supply w size = (x, .error e) → SameStock w x

/-- The blocks of one kind of allocator. -/
def supplyOf (a : Allocator) : Supply :=
  fun w size => w.allocate a size

theorem recordAlloc_idle (w : World) (a : Allocator) (size : Nat) :
    Idle w (w.recordAlloc a size) := by
  unfold recordAlloc
  split
  · refine .trans ?_ (emit_same _ _).idle
    exact ⟨rfl, rfl, rfl, rfl, rfl, rfl, rfl, rfl, rfl, rfl, rfl⟩
  · refine .trans ?_ (emit_same _ _).idle
    exact ⟨rfl, rfl, rfl, rfl, rfl, rfl, rfl, rfl, rfl, rfl, rfl⟩
  · exact .refl w

theorem allocate_idle (w : World) (a : Allocator) (size : Nat) :
    Idle w (w.allocate a size).1 := by
  have recorded := w.recordAlloc_idle a size
  unfold allocate
  cases a.grant size with
  | ok n => exact recorded.trans ⟨rfl, rfl, rfl, rfl, rfl, rfl, rfl, rfl, rfl, rfl, rfl⟩
  | error e =>
    simp only
    split
    · exact recorded.trans (log_same _ _).idle
    · exact recorded

theorem supplyOf_modest (a : Allocator) : (supplyOf a).Modest where
  idle w size := w.allocate_idle a size
  settings w size := settings_of_veiled (congrArg Prod.fst (w.allocate_veiled w.settings.veil a size))
  withholds w size x e refused := by
    obtain ⟨v, stock, -, ⟨n, granted⟩ | ⟨e', refused'⟩⟩ :=
      @allocate_cases (fun _ => True) w none [] a size
    · cases refused.symm.trans granted
    · cases refused.symm.trans refused'
      exact stock

/-! ## 4. Constructions -/

/-- Create a task fiber on a block from a supply, which it will go back to by way of an
allocator. -/
def createBy (w : World) (supply : Supply) (a : Allocator) (asked : Nat) (cb : Callback) :
    World × Except Refusal FiberId :=
  match w.stackSize asked with
  | (w, .error p) => (w.dropCallback cb.tag cb.keep, .error (.panic p))
  | (w, .ok size) =>
    if size < minStackSize then
      (w.dropCallback cb.tag cb.keep, .error (.error (.stackTooSmall size minStackSize)))
    else match supply w size with
      | (w, .error e) => (w.dropCallback cb.tag cb.keep, .error (.error e))
      | (w, .ok b) =>
        let (w, id) := w.insertTask a b size cb
        (w, .ok id)

/-- The construction that the engine makes gets its block from the allocator itself. -/
theorem createTask_eq (w : World) (a : Allocator) (asked : Nat) (cb : Callback) :
    w.createTask a asked cb = w.createBy (supplyOf a) a asked cb := by
  unfold createTask createBy allocateStack supplyOf
  rcases w.stackSize asked with ⟨v, p | size⟩
  · rfl
  · by_cases small : size < minStackSize
    · simp only [small, if_true]
    · rcases granted : v.allocate a size with ⟨x, e | b⟩ <;>
        simp only [small, if_false, granted]

section

variable {supply : Supply} {e : FiberError} {b : Block}

theorem createBy_of_small (settled : w.stackSize asked = (v, .ok size))
    (small : size < minStackSize) : w.createBy supply a asked cb =
      (v.dropCallback cb.tag cb.keep, .error (.error (.stackTooSmall size minStackSize))) := by
  simp [createBy, settled, small]

theorem createBy_of_refused (settled : w.stackSize asked = (v, .ok size))
    (enough : minStackSize ≤ size) (refused : supply v size = (x, .error e)) :
    w.createBy supply a asked cb =
      (x.dropCallback cb.tag cb.keep, .error (.error e)) := by
  simp [createBy, settled, Nat.not_lt.mpr enough, refused]

theorem createBy_of_granted (settled : w.stackSize asked = (v, .ok size))
    (enough : minStackSize ≤ size) (granted : supply v size = (x, .ok b)) :
    w.createBy supply a asked cb =
      ((x.insertTask a b size cb).1, .ok x.process.nextId) := by
  simp [createBy, settled, Nat.not_lt.mpr enough, granted, insertTask, count]

end

/-- One fiber more, which is as it was made, and nothing else. -/
structure Gains (w v : World) (id : FiberId) (f : Fiber) : Prop where
  next : id = w.process.nextId
  nextId : v.process.nextId = w.process.nextId + 1
  live : v.process.live = w.process.live + 1
  leaked : v.process.leaked = w.process.leaked
  fibers : v.thread.fibers = w.thread.fibers ++ [f]
  found : v.thread.fiber? id = some f
  current : v.thread.current = w.thread.current
  main : v.thread.main = w.thread.main
  slots : v.thread.slots = w.thread.slots
  blocks : v.thread.blocks = w.thread.blocks

theorem insertTask_gains (idle : Idle w x)
    (fresh : ∀ g ∈ w.thread.fibers, g.id ≠ w.process.nextId) (a : Allocator) (b : Block)
    (size : Nat) (cb : Callback) :
    Gains w (x.insertTask a b size cb).1 w.process.nextId
      (Fiber.task w.process.nextId ⟨b, a⟩ cb) := by
  have same := (x.count.1).log_same (.fiberCreated x.process.nextId size)
  have thread := x.insertTask_thread a b size cb
  rw [idle.nextId] at thread
  have fibers : (x.insertTask a b size cb).1.thread.fibers =
      w.thread.fibers ++ [Fiber.task w.process.nextId ⟨b, a⟩ cb] := by
    rw [thread, ← idle.fibers]
    rfl
  have missing : x.thread.fiber? w.process.nextId = none := by
    refine List.find?_eq_none.mpr fun g mem => ?_
    simpa using fresh g (idle.fibers ▸ mem)
  exact {
    next := rfl
    nextId := same.nextId.trans (congrArg (· + 1) idle.nextId)
    live := same.live.trans (congrArg (· + 1) idle.live)
    leaked := same.leaked.trans idle.leaked
    fibers := fibers
    found := by
      rw [thread, Thread.fiber?_insert, missing]
      simp [Fiber.task]
    current := by rw [thread]; exact idle.current
    main := by rw [thread]; exact idle.main
    slots := by rw [thread]; exact idle.slots
    blocks := by rw [thread]; exact idle.blocks }

/-- A construction that is turned away, by an error or by a panic, has done nothing but to
destroy the callback. -/
theorem createTask_inert {why : Refusal} (refused : w.createTask a asked cb = (v, .error why)) :
    ∃ x, Idle w x ∧ v = x.dropCallback cb.tag cb.keep := by
  have sized := w.stackSize_idle asked
  rw [createTask_eq] at refused
  unfold createBy at refused
  split at refused <;> rename_i eq <;> rw [eq] at sized
  · cases refused
    exact ⟨_, sized, rfl⟩
  · rename_i u size
    split at refused
    · cases refused
      exact ⟨_, sized, rfl⟩
    · have supplied := (supplyOf_modest a).idle u size
      split at refused <;> rename_i eq <;> rw [eq] at supplied
      · cases refused
        exact ⟨_, sized.trans supplied, rfl⟩
      · cases refused

/-- A construction that succeeds adds one fiber, and that is all that it does. -/
theorem createTask_gains (fresh : ∀ g ∈ w.thread.fibers, g.id ≠ w.process.nextId)
    {id : FiberId} (created : w.createTask a asked cb = (v, .ok id)) :
    ∃ b, w.Gains v id (Fiber.task id ⟨b, a⟩ cb) := by
  have sized := w.stackSize_idle asked
  rw [createTask_eq] at created
  unfold createBy at created
  split at created <;> rename_i eq <;> rw [eq] at sized
  · cases created
  · rename_i u size
    split at created
    · cases created
    · have supplied := (supplyOf_modest a).idle u size
      split at created <;> rename_i eq <;> rw [eq] at supplied
      · cases created
      · rename_i y b
        have idle := sized.trans supplied
        have gains := insertTask_gains idle fresh a b size cb
        obtain rfl : (y.insertTask a b size cb).1 = v := congrArg Prod.fst created
        obtain rfl : id = w.process.nextId :=
          (Except.ok.inj (congrArg Prod.snd created)).symm.trans idle.nextId
        exact ⟨b, gains⟩

/-- What a construction comes to, when its stack is to have some size and the world is `u` by
then. -/
structure Constructs (w u : World) (supply : Supply) (a : Allocator) (size : Nat) (cb : Callback)
    (made : World × Except Refusal FiberId) : Prop where
  /-- It fails because the size is too small, or because the supply does. -/
  fails : ∀ e, made.2 = .error (.error e) ↔
    (size < minStackSize ∧ e = .stackTooSmall size minStackSize) ∨
      (minStackSize ≤ size ∧ (supply u size).2 = .error e)
  calm : ∀ p, made.2 ≠ .error (.panic p)
  /-- If it fails, all that is done is to destroy the callback. The supply is asked once, for
  just that size, and not at all if the size is too small. -/
  inert : ∀ e, made.2 = .error (.error e) → ∃ x, Idle w x ∧ SameStock w x ∧
    x.settings = u.settings ∧ x = (if size < minStackSize then u else (supply u size).1) ∧
      made.1 = x.dropCallback cb.tag cb.keep
  /-- If it succeeds, there is one fiber more, on the block that the supply has handed out. -/
  gains : ∀ id, made.2 = .ok id → ∃ b, (supply u size).2 = .ok b ∧
    w.Gains made.1 id (Fiber.task id ⟨b, a⟩ cb)

theorem createBy_constructs {supply : Supply} (modest : supply.Modest)
    (sized : w.Sized asked u size)
    (fresh : ∀ g ∈ w.thread.fibers, g.id ≠ w.process.nextId) :
    w.Constructs u supply a size cb (w.createBy supply a asked cb) := by
  have stock : SameStock w u := by
    have same := w.stackSize_stock asked
    rwa [sized.settled] at same
  rcases Nat.lt_or_ge size minStackSize with small | enough
  · rw [createBy_of_small sized.settled small]
    exact {
      fails e := by simp [small, Nat.not_le.mpr small, eq_comm]
      calm p := by simp
      inert e _ := ⟨u, sized.idle, stock, rfl, (if_pos small).symm, rfl⟩
      gains id made := by simp at made }
  · have large := Nat.not_lt.mpr enough
    have idle := modest.idle u size
    have withholds := modest.withholds u size
    have settings := modest.settings u size
    rcases asks : supply u size with ⟨x, e | b⟩
    · rw [asks] at idle settings
      rw [createBy_of_refused sized.settled enough asks]
      exact {
        fails e' := by simp [large, enough, asks]
        calm p := by simp
        inert e' _ := ⟨x, sized.idle.trans idle, stock.trans (withholds x e asks), settings,
          by rw [if_neg large, asks], rfl⟩
        gains id made := by simp at made }
    · rw [asks] at idle
      have whole := sized.idle.trans idle
      rw [createBy_of_granted sized.settled enough asks, whole.nextId]
      exact {
        fails e := by simp [large, asks]
        calm p := by simp
        inert e failed := by simp at failed
        gains id made := by
          cases made
          exact ⟨b, congrArg Prod.snd asks, insertTask_gains whole fresh a b size cb⟩ }

/-- What is created is created by a sound stage. -/
theorem Creates.sound {others : List FiberId} {r : Option FiberId} (creates : w.Creates v a asked cb)
    (sound : Stage.Sound others (w.stage r)) (ready : w.thread.Ready r) :
    ∃ h, Stage.Sound others ⟨v, r, .exec, h⟩ := by
  cases creates with
  | @create _ _ _ _ _ _ keep starts =>
    have before := (starts.sound sound ready).1
    have held : Stays (fun _ => True) _ _ := holdAll_stays keep before
    exact ⟨_, held.sound before⟩
  | entry starts =>
    have before := (starts.sound sound ready).1
    have there : Stays (fun _ => True) _ _ := currentFiber_stays before
    exact ⟨_, there.sound before⟩

end World

namespace Machine

/-- **A failed construction produces nothing.** Let step `n` of a run create a fiber, in a
world where no search for the default size has failed and the hook returns. Then a size is
settled for its stack. Whatever the blocks come from, the construction fails if and only if
this size is too small or the supply of blocks fails when it is asked for just that size,
and it fails with the error of the one or the other. In both cases the engine has done
nothing when the callback is destroyed. If it succeeds, there is one fiber more, which has
the next id and is as it was made, and no main fiber. The allocator that the run names is a
supply of this kind. -/
theorem failed_construct_inert (level : Option Level) (hook : ReportHook) (script : List Op)
    {n : Nat} {v : World} {a : Allocator} {asked : Nat} {cb : Callback}
    (creates : (start level hook script).Creates n v a asked cb)
    (sane : v.process.defaultSize ≠ .poisoned) (returns : v.process.hook.panics = false) :
    ∃ u size, v.Sized asked u size ∧
      (∀ supply : World.Supply, supply.Modest →
        v.Constructs u supply a size cb (v.createBy supply a asked cb)) ∧
      v.Constructs u (World.supplyOf a) a size cb (v.createTask a asked cb) := by
  obtain ⟨r, here, ready⟩ := (sound_of_goes creates.1).running
  obtain ⟨h, sound⟩ := creates.2.sound here (ready (finished_of_goes creates.1))
  obtain ⟨u, size, sized⟩ := World.exists_sized sane returns asked
  have constructs : ∀ supply : World.Supply, supply.Modest →
      v.Constructs u supply a size cb (v.createBy supply a asked cb) :=
    fun _ modest => World.createBy_constructs modest sized sound.fresh
  refine ⟨u, size, sized, constructs, ?_⟩
  rw [World.createTask_eq]
  exact constructs _ (World.supplyOf_modest a)

/-- An allocator that refuses, asked for the stack of a callback that holds the main fiber: the
callback is all that goes. -/
theorem refused_construct_inert : ∃ v ids x,
    (start none .sink [.create (.named "f") minStackSize .refusing [] (some "t")
      [.current]]).Creates 0 v .refusing minStackSize ⟨[], some "t", ids⟩ ∧
    v.process.defaultSize ≠ .poisoned ∧ v.process.hook.panics = false ∧
    v.Idle x ∧ v.createTask .refusing minStackSize ⟨[], some "t", ids⟩ =
      (x.dropCallback (some "t") ids, .error (.error (.noStack refusedId))) := by
  have starts : (start none .sink [.create (.named "f") minStackSize .refusing [] (some "t")
      [.current]]).world.Starts (.create (.named "f") minStackSize .refusing [] (some "t")
        [.current]) _ := ⟨[], [.script], rfl, rfl⟩
  have creates : (start none .sink [.create (.named "f") minStackSize .refusing [] (some "t")
      [.current]]).Creates 0 _ .refusing minStackSize ⟨[], some "t", _⟩ := ⟨rfl, .create starts⟩
  obtain ⟨u, size, sized, -, constructs⟩ :=
    failed_construct_inert none .sink _ creates (by decide) rfl
  obtain rfl : size = minStackSize := sized.given (by decide)
  have failed := (constructs.fails (.noStack refusedId)).mpr (.inr ⟨Nat.le_refl _, rfl⟩)
  obtain ⟨x, idle, -, -, -, world⟩ := constructs.inert _ failed
  exact ⟨_, _, x, creates, by decide, rfl, idle, Prod.ext world failed⟩

end Machine

end FiberEngine
