/-
FiberEngine.Proofs.Poisoning — a panic out of the search for the default size.

The first search for the default size reports it if the name of the tunable is taken for
another kind. A hook that panics over this report ends the search for good: what the
process keeps then is not that there is no tunable, but that the search has failed. Every
later stack of the default size is lost to a panic, whatever hook is installed by then and
whatever thread asks, while a hook that returns would have left the built-in size behind.

The main statement is `failed_search_lasts`, and `panic_outlives_hook` is a run in which
the hook that panicked has been replaced by one that returns.
-/
import FiberEngine.Proofs.DefaultSizes
import FiberEngine.Proofs.Parking

namespace FiberEngine

namespace World

variable {w v : World} {a : Allocator} {asked : Nat} {cb : Callback}

/-! ## 1. One search -/

/-- With which panic a search is left once one has failed. -/
def failedSearch : Payload :=
  .text "LazyLock instance has previously been poisoned"

theorem stackSize_of_poisoned (kept : w.process.defaultSize = .poisoned) :
    w.stackSize 0 = (w, .error failedSearch) := by
  simp [stackSize, defaultSize, kept, failedSearch]

/-- The report of a search for a size whose name is taken. -/
theorem report_taken_panics (w : World) :
    ((w.log (.lookupFound stackSizeName)).report
      (unavailableText (.typeMismatch stackSizeName))).2.isSome = w.process.hook.panics :=
  (report_panics _ _).trans (congrArg ReportHook.panics (w.log_same _).hook)

/-- Where the name is taken, the hook decides what the search comes to, -/
theorem bindDefaultSize_panics (taken : w.process.registry.SizeTaken) :
    (∃ p, w.bindDefaultSize.2 = .error p) ↔ w.process.hook.panics = true := by
  rw [bindDefaultSize_of_taken taken, ← w.report_taken_panics]
  rcases (w.log (.lookupFound stackSizeName)).report
    (unavailableText (.typeMismatch stackSizeName)) with ⟨u, _ | p⟩ <;> simp

/-- and with it what is kept of the search. -/
theorem defaultSize_of_taken (taken : w.process.registry.SizeTaken) :
    w.bindDefaultSize.1.process.defaultSize =
      if w.process.hook.panics then .poisoned else .unavailable := by
  rw [bindDefaultSize_of_taken taken, ← w.report_taken_panics]
  rcases (w.log (.lookupFound stackSizeName)).report
    (unavailableText (.typeMismatch stackSizeName)) with ⟨u, _ | p⟩ <;> rfl

/-- A creation is left by a panic if and only if the search for the size is. -/
theorem createTask_panics (w : World) (a : Allocator) (asked : Nat) (cb : Callback) :
    (∃ p, (w.createTask a asked cb).2 = .error (.panic p)) ↔
      ∃ p, (w.stackSize asked).2 = .error p := by
  rcases sized : w.stackSize asked with ⟨v, p | size⟩
  · simp [createTask_of_panic sized]
  · simp [createTask_of_size sized, createSized_ne_panic]

theorem Creates.hook (creates : w.Creates v a asked cb) : v.process.hook = w.process.hook := by
  cases creates with
  | create starts =>
    obtain ⟨rest, k, -, rfl⟩ := starts
    exact (holdAll_holds _ _).hook
  | entry starts =>
    obtain ⟨rest, k, -, rfl⟩ := starts
    exact (currentFiber_holds _).hook

/-- A step creates one fiber at most. -/
theorem Creates.unique {v' : World} {a' : Allocator} {asked' : Nat} {cb' : Callback}
    (creates : w.Creates v a asked cb) (creates' : w.Creates v' a' asked' cb') :
    v' = v ∧ a' = a ∧ asked' = asked ∧ cb' = cb := by
  cases creates with
  | create starts =>
    obtain ⟨rest, k, frames, rfl⟩ := starts
    cases creates' with
    | create starts' =>
      obtain ⟨rest', k', frames', rfl⟩ := starts'
      cases frames.symm.trans frames'
      exact ⟨rfl, rfl, rfl, rfl⟩
    | entry starts' =>
      obtain ⟨rest', k', frames', rfl⟩ := starts'
      cases frames.symm.trans frames'
  | entry starts =>
    obtain ⟨rest, k, frames, rfl⟩ := starts
    cases creates' with
    | create starts' =>
      obtain ⟨rest', k', frames', rfl⟩ := starts'
      cases frames.symm.trans frames'
    | entry starts' =>
      obtain ⟨rest', k', frames', rfl⟩ := starts'
      cases frames.symm.trans frames'
      exact ⟨rfl, rfl, rfl, rfl⟩

end World

/-! ## 2. Runs -/

namespace Machine

variable {level : Option Level} {hook : ReportHook} {script : List Op} {k n : Nat}
  {v : World} {a : Allocator} {asked : Nat} {cb : Callback}

/-- Nothing is kept about the default size when it is first asked for. -/
theorem Clashes.unbound (clashes : (start level hook script).Clashes k) :
    ((start level hook script).steps k).world.process.defaultSize = .unbound := by
  have bound := bound_steps level hook script k
  generalize ((start level hook script).steps k).world.process.defaultSize = d at bound
  cases bound with
  | unbound => rfl
  | bound earlier =>
    obtain ⟨j, past, defaults⟩ := earlier
    exact absurd defaults (clashes.first j past)
  | @unavailable j past clashes' => exact absurd clashes'.asks (clashes.first j past)
  | @poisoned j past raises =>
    obtain ⟨i, le, clashes'⟩ := exists_clashes raises
    exact absurd clashes'.asks (clashes.first i (Nat.lt_of_le_of_lt le past))

/-- The creation that finds the name taken makes the first search. -/
theorem Clashes.search (clashes : (start level hook script).Clashes k)
    (creates : (start level hook script).Creates k v a 0 cb) :
    v.stackSize 0 = v.bindDefaultSize ∧ v.process.registry.SizeTaken := by
  have kept : v.process.defaultSize = .unbound :=
    (congrArg Settings.defaultSize creates.settings).trans clashes.unbound
  have registry := World.registry_of_settings creates.settings
  exact ⟨World.stackSize_of_unbound kept, registry ▸ clashes.taken⟩

/-- A panic leaves that creation if and only if the hook panics. -/
theorem Clashes.raises_iff (clashes : (start level hook script).Clashes k) :
    (start level hook script).Raises k ↔
      ((start level hook script).steps k).world.process.hook.panics = true := by
  obtain ⟨v, a, cb, creates⟩ := clashes.asks
  obtain ⟨search, taken⟩ := clashes.search creates
  have panics := World.createTask_panics v a 0 cb
  rw [search, World.bindDefaultSize_panics taken, creates.2.hook] at panics
  refine Iff.trans ⟨?_, fun left => ?_⟩ panics
  · rintro ⟨v', a', asked', cb', p, creates', left⟩
    obtain ⟨rfl, rfl, rfl, rfl⟩ := creates.2.unique creates'.2
    exact ⟨p, left⟩
  · obtain ⟨p, left⟩ := left
    exact ⟨v, a, 0, cb, p, creates, left⟩

/-- From then on the process keeps what the hook has made of the search. -/
theorem Clashes.kept (clashes : (start level hook script).Clashes k) (later : k < n) :
    ((start level hook script).steps n).world.process.defaultSize =
      if ((start level hook script).steps k).world.process.hook.panics then .poisoned
      else .unavailable := by
  have next : ∀ {n : Nat} {v : World} {a : Allocator} {cb : Callback},
      (start level hook script).Creates n v a 0 cb →
      ((start level hook script).steps (n + 1)).world.process.defaultSize =
        (v.stackSize 0).1.process.defaultSize :=
    fun creates => congrArg Settings.defaultSize creates.settings_next
  -- the first search settles it, and no later one changes what is settled
  induction n, later using Nat.le_induction with
  | base =>
    obtain ⟨v, a, cb, creates⟩ := clashes.asks
    obtain ⟨search, taken⟩ := clashes.search creates
    rw [next creates, search, World.defaultSize_of_taken taken, creates.2.hook]
  | succ n _ ih =>
    by_cases asks : (start level hook script).Defaults n
    · obtain ⟨v, a, cb, creates⟩ := asks
      have here : v.process.defaultSize = _ := congrArg Settings.defaultSize creates.settings
      have settled : v.process.defaultSize ≠ .unbound := by
        rw [here, World.settings, ih]
        split <;> simp
      rw [next creates, World.stackSize_of_kept settled, here, World.settings, ih]
    · rw [defaultSize_next asks, ih]

/-- If the hook has panicked, so does every later creation of a fiber of the default size. -/
theorem Clashes.fails (clashes : (start level hook script).Clashes k) (later : k < n)
    (creates : (start level hook script).Creates n v a 0 cb)
    (raises : (start level hook script).Raises k) :
    v.createTask a 0 cb =
      (v.dropCallback cb.tag cb.keep, .error (.panic World.failedSearch)) := by
  have kept : v.process.defaultSize = _ :=
    (congrArg Settings.defaultSize creates.settings).trans (clashes.kept later)
  rw [if_pos (clashes.raises_iff.mp raises)] at kept
  exact World.createTask_of_panic (World.stackSize_of_poisoned kept) a cb

/-- If it has returned, the later fiber gets a stack of the built-in size. -/
theorem Clashes.serves (clashes : (start level hook script).Clashes k) (later : k < n)
    (creates : (start level hook script).Creates n v a 0 cb)
    (calm : ¬ (start level hook script).Raises k) :
    v.createTask a 0 cb = v.createSized a defaultStackSize cb := by
  have kept : v.process.defaultSize = _ :=
    (congrArg Settings.defaultSize creates.settings).trans (clashes.kept later)
  rw [if_neg fun panics => calm (clashes.raises_iff.mpr panics)] at kept
  exact World.createTask_of_size (World.stackSize_of_unavailable kept) a cb

/-! ## 3. A hook that panics once -/

/-- The name of the default size is taken, and a hook panics over the first stack of that
size. The next stack is asked for under another hook. -/
def panickingOnce : List Op :=
  [.lookup World.stackSizeName World.visitDefault "", .setHook (.tagged "t" true),
    .attempt [.create (.named "f") 0 .heap [] none []], .setHook .sink,
    .create (.named "f") 0 .heap [] none []]

theorem panickingOnce_clashes : (start none .sink panickingOnce).Clashes 3 where
  asks := by
    have starts : ((start none .sink panickingOnce).steps 3).world.Starts
      (.create (.named "f") 0 .heap [] none []) _ := ⟨_, _, rfl, rfl⟩
    exact ⟨_, _, _, rfl, .create starts⟩
  first := by
    have plain : ∀ j < 3, ∃ op,
        ((start none .sink panickingOnce).steps j).world.next? = some op ∧ op.sizes = false := by
      intro j lt
      obtain rfl | rfl | rfl : j = 0 ∨ j = 1 ∨ j = 2 := by omega
      · exact ⟨_, rfl, rfl⟩
      · exact ⟨_, rfl, rfl⟩
      · exact ⟨_, rfl, rfl⟩
    rintro j lt ⟨v, a, cb, -, creates⟩
    obtain ⟨op, next, sizes⟩ := plain j lt
    cases creates with
    | create starts | entry starts =>
      cases starts.next.symm.trans next
      cases sizes
  taken := ⟨⟨World.stackSizeName, "", World.visitDefault⟩, by decide +kernel, by decide⟩

/-- The panic is caught, -/
theorem panickingOnce_caught : ∃ x, (start none .sink panickingOnce).steps 4 = ⟨x, [], false⟩ ∧
    x.process.halted = false ∧ x.process.program = none ∧
      x.thread.frames = [.ops (panickingOnce.drop 3), .script] := by
  let v := ((start none .sink panickingOnce).steps 3).world.goOn
    [.ops [], .catching, .ops (panickingOnce.drop 3), .script]
  have taken : v.process.registry.SizeTaken := panickingOnce_clashes.taken
  obtain ⟨u, left, going, program, frames⟩ :
      ∃ u, v.stackSize 0 = (u, .error (World.hookPanic "t")) ∧ u.process.halted = false ∧
        u.process.program = none ∧ u.thread.frames = v.thread.frames := by
    rw [World.stackSize_of_unbound rfl, World.bindDefaultSize_of_taken taken]
    exact ⟨_, rfl, rfl, rfl, rfl⟩
  have created : v.create (.named "f") 0 .heap ⟨[], none, []⟩ =
      (u, .panicked (World.hookPanic "t")) := by
    rw [World.create, World.createTask_of_panic left]
    simp only [World.dropCallback, World.dropTag, World.release]
  have stepped : ((start none .sink panickingOnce).steps 3).world.step =
      ((u.goOn [.ops (panickingOnce.drop 3), .script]).emit
        (.completed "catch" (.panicked (World.hookPanic "t").text?)), .running) := by
    change World.settle "new" (v.create (.named "f") 0 .heap ⟨[], none, []⟩) = _
    rw [created]
    change u.unwind _ = _
    rw [World.unwind, frames]
    rfl
  have same := World.emit_same (u.goOn [.ops (panickingOnce.drop 3), .script])
    (.completed "catch" (.panicked (World.hookPanic "t").text?))
  exact ⟨_, (steps_succ_of_goes rfl).trans (step_of_running stepped), same.halted.trans going,
    same.program.trans program, congrArg Thread.frames same.thread⟩

/-- and the script goes on under another hook. -/
theorem panickingOnce_creates : ∃ v, v.process.hook.panics = false ∧
    (start none .sink panickingOnce).Creates 5 v .heap 0 ⟨[], none, []⟩ := by
  obtain ⟨x, fourth, going, program, frames⟩ := panickingOnce_caught
  let y := ((x.goOn [.ops (panickingOnce.drop 4), .script]).perform (.setHook .sink)).1
  have stepped : x.step = (y.emit (.completed (Op.setHook .sink).name .nothing), .running) := by
    have programs : y.process.program = none := program
    rw [World.step, frames]
    change y.conclude _ _ = _
    rw [World.conclude, programs]
  have fifth : (start none .sink panickingOnce).steps 5 =
      ⟨y.emit (.completed (Op.setHook .sink).name .nothing), [], false⟩ :=
    steps_of_running fourth going stepped
  have same := y.emit_same (.completed (Op.setHook .sink).name .nothing)
  have goes : ((start none .sink panickingOnce).steps 5).done = false := by
    rw [fifth, done, same.halted]
    exact going
  have starts : ((start none .sink panickingOnce).steps 5).world.Starts
      (.create (.named "f") 0 .heap [] none []) _ :=
    ⟨[], [.script], by rw [fifth, same.thread]; rfl, rfl⟩
  refine ⟨_, ?_, goes, .create starts⟩
  rw [fifth]
  exact congrArg ReportHook.panics same.hook

/-! ## 4. What a failed search leaves behind -/

/-- **A search that has failed once fails for ever.** Let the name of the tunable be taken
when step `k` of a run is the first to need the default size, and let step `n`, later and on
whatever thread, ask for a stack of the default size. It gets one of the built-in size if
and only if no panic left step `k`, which is to say that the hook installed then did not
panic over the report. If it did, the later creation is left by a panic as well, before an
allocator is asked, and whatever hook is installed by then. -/
theorem failed_search_lasts (level : Option Level) (hook : ReportHook) (script : List Op)
    {k n : Nat} {v : World} {a : Allocator} {cb : Callback}
    (clashes : (start level hook script).Clashes k) (later : k < n)
    (creates : (start level hook script).Creates n v a 0 cb) :
    ((start level hook script).Raises k ↔
      ((start level hook script).steps k).world.process.hook.panics = true) ∧
    (v.createTask a 0 cb = v.createSized a defaultStackSize cb ↔
      ¬ (start level hook script).Raises k) ∧
    ((start level hook script).Raises k → v.createTask a 0 cb =
      (v.dropCallback cb.tag cb.keep, .error (.panic World.failedSearch))) := by
  refine ⟨clashes.raises_iff, ⟨fun same raises => ?_, clashes.serves later creates⟩,
    clashes.fails later creates⟩
  have left := same.symm.trans (clashes.fails later creates raises)
  exact World.createSized_ne_panic v a defaultStackSize cb _ (congrArg Prod.snd left)

/-- The second creation of that run is left by a panic as the first one was. -/
theorem search_stays_failed : ∃ v, (start none .sink panickingOnce).Clashes 3 ∧ 3 < 5 ∧
    (start none .sink panickingOnce).Creates 5 v .heap 0 ⟨[], none, []⟩ ∧
    v.createTask .heap 0 ⟨[], none, []⟩ =
      (v.dropCallback none [], .error (.panic World.failedSearch)) := by
  obtain ⟨v, -, creates⟩ := panickingOnce_creates
  obtain ⟨panics, -, fails⟩ :=
    failed_search_lasts none .sink panickingOnce panickingOnce_clashes (by decide) creates
  exact ⟨v, panickingOnce_clashes, by decide, creates, fails (panics.mpr rfl)⟩

/-- The hook that panicked is replaced by one that returns, and the allocator has room, but
there is no fiber of the default size any more. -/
theorem panic_outlives_hook : ∃ v, v.process.hook.panics = false ∧
    (start none .sink panickingOnce).Clashes 3 ∧ (start none .sink panickingOnce).Raises 3 ∧
    (start none .sink panickingOnce).Creates 5 v .heap 0 ⟨[], none, []⟩ ∧
    (v.createSized .heap defaultStackSize ⟨[], none, []⟩).2 = .ok v.process.nextId ∧
    (v.createTask .heap 0 ⟨[], none, []⟩).2 = .error (.panic World.failedSearch) := by
  obtain ⟨v, returns, creates⟩ := panickingOnce_creates
  have clashes := panickingOnce_clashes
  have raises := clashes.raises_iff.mpr rfl
  exact ⟨v, returns, clashes, raises, creates, rfl,
    congrArg Prod.snd (clashes.fails (by decide) creates raises)⟩

end Machine

end FiberEngine
