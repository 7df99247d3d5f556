/-
FiberEngine.Proofs.Turns — the changes that a thread goes through.

Whatever the engine does to the fibers of a thread is one of a few changes: a
handle is taken or given up, the last handle to a fiber goes and the fiber with
it, a fiber is added, a slot is filled or cleared, a callback is bound to a
fiber, the callback of the running task ends, and control passes to a task or
back to the main fiber. Each keeps a thread sound, and each says what becomes of
the handles of the running code.
-/
import FiberEngine.Proofs.Standing

namespace FiberEngine.Thread

/-! ## 1. Frames -/

/-- A change of a fiber after another one is one change. -/
theorem update_update (t : Thread) (id : FiberId) (c d : Fiber → Fiber)
    (keeps : ∀ f, (c f).id = f.id) :
    (t.update id c).update id d = t.update id fun f => d (c f) := by
  simp only [update, List.map_map]
  congr 1
  apply List.map_congr_left
  intro f _
  by_cases h : f.id = id <;> simp [h, keeps]

namespace Sound

variable {t t' : Thread} {runner : Option FiberId} {state : FiberState} {held : List FiberId}
variable {id : FiberId} {f : Fiber}

/-- Other code of the same body goes on. -/
theorem goOn (h : t.Sound runner state held) {k : List Frame}
    (same : k.getLast?.bind Frame.owner? = runner) : (t.goOn k).Sound runner state held :=
  h.congr rfl rfl rfl rfl (same.trans h.task.symm)

/-! ## 2. Handles -/

/-- One more handle to a fiber. -/
theorem hold (h : t.Sound runner state held) (found : t.fiber? id = some f) :
    (t.hold id).Sound runner state (id :: held) := by
  refine h.change found (fun _ => rfl) (Nat.succ_pos _) ?_ ?_
  · exact (Fiber.fits_handles _).mpr (h.fits f (mem_of_fiber? found))
  · intro x
    simp only [Fiber.owns, List.count_append, List.count_cons, beq_iff_eq]
    split <;> omega

/-- One handle less to a fiber that has more. -/
theorem giveUp (h : t.Sound runner state (id :: held)) (found : t.fiber? id = some f)
    (more : 1 < f.handles) :
    (t.update id fun f => { f with handles := f.handles - 1 }).Sound runner state held := by
  refine h.change found (fun _ => rfl) (Nat.sub_pos_of_lt more) ?_ ?_
  · exact (Fiber.fits_handles _).mpr (h.fits f (mem_of_fiber? found))
  · intro x
    simp only [Fiber.owns, List.count_append, List.count_cons, beq_iff_eq]
    split <;> omega

/-- The only handle to a fiber is nowhere else. -/
theorem count_last (h : t.Sound runner state (id :: held)) (found : t.fiber? id = some f)
    (last : f.handles ≤ 1) : id ∉ t.kept := by
  have total := h.census id
  have same := id_of_fiber? found
  rw [handlesTo_perm (fibers_perm h.distinct found), handlesTo_cons, if_pos same,
    handlesTo_eq_zero fun g mem => (mem_erase.mp mem).2] at total
  have none_else : t.kept.count id = 0 := by
    simp only [List.count_append, List.count_cons_self] at total
    omega
  exact List.count_eq_zero.mp none_else

/-- A fiber with one handle left, which the running code has, is neither the main
fiber nor the task that runs. -/
theorem rests_last (h : t.Sound runner state (id :: held)) (found : t.fiber? id = some f)
    (last : f.handles ≤ 1) : t.main ≠ some id ∧ runner ≠ some id ∧ f.Rests := by
  have nowhere := h.count_last found last
  have notMain : t.main ≠ some id := fun mine => nowhere (mem_kept_of_main mine)
  have notRunner : runner ≠ some id := by
    intro mine
    subst mine
    obtain ⟨some_main, -⟩ := h.apart id rfl
    obtain ⟨main, is_main⟩ := Option.ne_none_iff_exists'.mp some_main
    obtain ⟨g, foundMain, -, presides⟩ := h.main_presides is_main
    exact nowhere (mem_kept_of_owns (mem_of_fiber? foundMain) presides.owns)
  exact ⟨notMain, notRunner, h.rests found notMain notRunner⟩

/-- Such a fiber is not suspended either: it would have a handle to itself. What
it owns are the handles of a callback that it never entered. -/
theorem owns_last (h : t.Sound runner state (id :: held)) (found : t.fiber? id = some f)
    (last : f.handles ≤ 1) : f.state.canReset ∧ f.owns = f.pending.elim [] Callback.keep := by
  obtain ⟨-, -, rests⟩ := h.rests_last found last
  cases rests with
  | waiting onStack state context callback =>
    exact ⟨by simp [state, FiberState.canReset], by simp [Fiber.owns, context, Context.handles]⟩
  | suspended onStack state context callback body pauses =>
    have self : f.id ∈ f.owns := by
      simp only [Fiber.owns, context, Option.elim_some, Context.handles, Frame.allHandles_cons,
        List.mem_append]
      exact .inl (.inr body.mem_handles)
    rw [id_of_fiber? found] at self
    exact absurd (mem_kept_of_owns (mem_of_fiber? found) self) (h.count_last found last)
  | finished onStack state context callback =>
    exact ⟨FiberState.canReset_of_terminal state,
      by simp [Fiber.owns, context, Context.handles]⟩

/-- Such a fiber is a task that may end: it has a stack to give back. -/
theorem leased_last (h : t.Sound runner state (id :: held)) (found : t.fiber? id = some f)
    (last : f.handles ≤ 1) : f.state.canReset ∧ ∃ lease, f.lease = some lease := by
  obtain ⟨-, -, rests⟩ := h.rests_last found last
  obtain ⟨can, -⟩ := h.owns_last found last
  exact ⟨can, Option.ne_none_iff_exists'.mp rests.lease⟩

/-- The last handle to a fiber goes, and the fiber with it. The handles of a
callback that it never entered come free. -/
theorem bury (h : t.Sound runner state (id :: held)) (found : t.fiber? id = some f)
    (last : f.handles ≤ 1) :
    (t.erase id).Sound runner state (f.pending.elim [] Callback.keep ++ held) := by
  obtain ⟨notMain, notRunner, -⟩ := h.rests_last found last
  obtain ⟨-, owns⟩ := h.owns_last found last
  have same := id_of_fiber? found
  have pos := h.alive f (mem_of_fiber? found)
  refine h.exchange [f] [] (fibers_perm h.distinct found) (List.Perm.refl _)
    (distinct_erase id h.distinct) ?_ (by simp) h.current h.apart (by simp)
    (fun _ _ fit => fit) h.task h.slots
  intro x
  have one : f.handles = 1 := by omega
  simp only [erase, handlesTo_nil, handlesTo_cons, same, one, owns, List.flatMap_cons,
    List.flatMap_nil, List.append_nil, List.count_append, List.count_cons, beq_iff_eq]
  omega

/-! ## 3. New fibers -/

theorem ne_of_fresh (h : t.Sound runner state held) (fresh : ∀ g ∈ t.fibers, g.id ≠ id) :
    t.main ≠ some id ∧ runner ≠ some id := by
  constructor
  · intro mine
    obtain ⟨g, found, same, -⟩ := h.main_presides mine
    exact fresh g (mem_of_fiber? found) same
  · intro mine
    subst mine
    obtain ⟨g, found, same, -⟩ := h.runner_runs
    exact fresh g (mem_of_fiber? found) same

theorem distinct_insert (h : t.Sound runner state held) (fresh : ∀ g ∈ t.fibers, g.id ≠ f.id) :
    (t.insert f).Distinct := by
  rw [Distinct, insert, List.map_append, List.map_singleton, List.nodup_append]
  refine ⟨h.distinct, by simp, ?_⟩
  intro a ha b hb
  obtain ⟨g, mem, rfl⟩ := List.mem_map.mp ha
  rw [List.mem_singleton.mp hb]
  exact fresh g mem

/-- A task fiber is added. It takes the handles of its callback, and the running
code gets the first handle to it. -/
theorem insertTask {lease : StackLease} {cb : Callback}
    (h : t.Sound runner state (cb.keep ++ held)) (fresh : ∀ g ∈ t.fibers, g.id ≠ id) :
    (t.insert (Fiber.task id lease cb)).Sound runner state (id :: held) := by
  obtain ⟨notMain, notRunner⟩ := h.ne_of_fresh fresh
  refine h.exchange [] [Fiber.task id lease cb] (List.Perm.refl _)
    List.perm_append_comm (h.distinct_insert fresh) ?_ (by simp [Fiber.task]) h.current
    h.apart ?_ (fun _ _ fit => fit) h.task h.slots
  · intro x
    simp only [insert, Fiber.task, Fiber.owns, handlesTo_nil, handlesTo_cons, List.flatMap_cons,
      List.flatMap_nil, List.append_nil, List.count_append, List.count_cons, Option.elim_some,
      Context.handles, List.count_nil, beq_iff_eq]
    omega
  · intro g mem
    rw [List.mem_singleton.mp mem]
    exact Fiber.fits_of_rests (.waiting rfl rfl rfl rfl) notMain notRunner

/-- A thread without a main fiber gets one. -/
theorem insertMain (h : t.Sound none state held) (missing : t.main = none)
    (fresh : ∀ g ∈ t.fibers, g.id ≠ id) :
    Sound { t.insert (Fiber.main id) with main := some id, current := some id } none state
      held := by
  refine h.exchange [] [Fiber.main id] (List.Perm.refl _)
    List.perm_append_comm (h.distinct_insert fresh) ?_ (by simp [Fiber.main]) rfl
    (by simp) ?_ ?_ h.task h.slots
  · intro x
    simp only [insert, missing, Fiber.main, Fiber.owns, handlesTo_nil, handlesTo_cons,
      List.flatMap_cons, List.flatMap_nil, List.append_nil, List.count_append, List.count_cons,
      Option.elim_none, Option.toList_none, Option.toList_some, List.count_nil, beq_iff_eq]
    omega
  · intro g mem
    rw [List.mem_singleton.mp mem]
    exact Fiber.fits_of_presides (.home rfl rfl rfl rfl) rfl
  · intro g mem fit
    have other : g.id ≠ id := fresh g mem
    exact Fiber.fits_of_rests (fit.rests (by simp [missing]) (by simp))
      (by simpa using other.symm) (by simp)

/-! ## 4. Slots -/

/-- The running code puts a handle into a slot and gets the one that was there. -/
theorem setSlot (h : t.Sound runner state (id :: held)) (name : SlotName) :
    (t.setSlot name id).Sound runner state ((t.slot? name).toList ++ held) := by
  refine h.exchange [] [] (List.Perm.refl _) (List.Perm.refl _) h.distinct
    ?_ (by simp) h.current h.apart (by simp) (fun _ _ fit => fit) h.task
    (Slots.ordered_insert name id h.slots)
  intro x
  have moved := Slots.count_insert name id h.slots x
  simp only [Thread.setSlot, Thread.slot?, List.count_append, List.count_cons, List.count_nil,
    List.flatMap_nil] at moved ⊢
  omega

/-- The running code gets the handle that was in a slot. -/
theorem clearSlot (h : t.Sound runner state held) (name : SlotName) :
    (t.clearSlot name).Sound runner state ((t.slot? name).toList ++ held) := by
  refine h.exchange [] [] (List.Perm.refl _) (List.Perm.refl _) h.distinct
    ?_ (by simp) h.current h.apart (by simp) (fun _ _ fit => fit) h.task
    (Slots.ordered_erase name h.slots)
  intro x
  have moved := Slots.count_erase name h.slots x
  simp only [Thread.clearSlot, Thread.slot?, List.count_append, List.flatMap_nil,
    List.count_nil] at moved ⊢
  omega

/-- The running code gets the handles of all slots. -/
theorem clearSlots (h : t.Sound runner state held) :
    Sound { t with slots := [] } runner state (t.slots.map Prod.snd ++ held) := by
  refine h.exchange [] [] (List.Perm.refl _) (List.Perm.refl _) h.distinct
    ?_ (by simp) h.current h.apart (by simp) (fun _ _ fit => fit) h.task
    List.Pairwise.nil
  intro x
  simp only [List.count_append, List.flatMap_nil, List.count_nil, List.map_nil]
  omega

/-! ## 5. Callbacks -/

/-- A fiber whose state allows a reset rests, and it owns no more than a callback
that it never entered. -/
theorem rests_of_canReset (h : t.Sound runner .exec held) (found : t.fiber? id = some f)
    (can : f.state.canReset) : t.main ≠ some id ∧ runner ≠ some id ∧ f.lease ≠ none ∧
      f.owns = f.pending.elim [] Callback.keep := by
  have notMain : t.main ≠ some id := by
    intro mine
    obtain ⟨g, foundMain, -, presides⟩ := h.main_presides mine
    obtain rfl : f = g := by simpa [found] using foundMain
    cases presides <;> simp_all [FiberState.canReset]
  have notRunner : runner ≠ some id := by
    intro mine
    subst mine
    obtain ⟨g, foundRunner, -, runs⟩ := h.runner_runs
    obtain rfl : f = g := by simpa [found] using foundRunner
    simp [runs.state, FiberState.canReset] at can
  refine ⟨notMain, notRunner, ?_⟩
  cases h.rests found notMain notRunner with
  | waiting onStack state context callback =>
    exact ⟨by simp [onStack], by simp [Fiber.owns, context, Context.handles]⟩
  | suspended onStack state context callback body pauses =>
    rcases state with state | state <;> simp [state, FiberState.canReset] at can
  | finished onStack state context callback =>
    exact ⟨by simp [onStack], by simp [Fiber.owns, context, Context.handles]⟩

/-- A fiber is bound to a new callback. The handles of one that it never entered
come free. -/
theorem install {cb : Callback} (h : t.Sound runner .exec (cb.keep ++ held))
    (found : t.fiber? id = some f) (can : f.state.canReset) :
    (t.update id (Fiber.bound cb)).Sound runner .exec
      (f.pending.elim [] Callback.keep ++ held) := by
  obtain ⟨notMain, notRunner, onStack, owns⟩ := h.rests_of_canReset found can
  obtain ⟨lease, onStack⟩ := Option.ne_none_iff_exists'.mp onStack
  have same := id_of_fiber? found
  refine h.change found (fun _ => rfl) (h.alive f (mem_of_fiber? found)) ?_ ?_
  · exact Fiber.fits_of_rests (.waiting onStack rfl rfl rfl) (same ▸ notMain) (same ▸ notRunner)
  · intro x
    rw [owns]
    simp only [Fiber.bound, Fiber.owns, Option.elim_some, Context.handles, List.nil_append,
      List.count_append]
    omega

/-- The callback of the task that runs has ended. -/
theorem conclude (h : t.Sound (some id) .exec held) (last : FiberState) :
    (t.setState id last).Sound (some id) last held := by
  obtain ⟨f, found, same, runs⟩ := h.runner_runs
  obtain ⟨-, other⟩ := h.apart id rfl
  have distinct : (t.setState id last).Distinct :=
    (distinct_update (fun f => { f with state := last }) fun _ => rfl).mpr h.distinct
  refine h.exchange [f] [{ f with state := last }]
    (fibers_perm h.distinct found) (update_perm _ h.distinct found) distinct ?_
    (by simpa using h.alive f (mem_of_fiber? found)) h.current h.apart ?_ ?_ h.task h.slots
  · intro x
    simp only [setState, update, handlesTo_cons, handlesTo_nil, Fiber.owns, List.flatMap_cons,
      List.flatMap_nil, List.append_nil]
  · intro g mem
    rw [List.mem_singleton.mp mem]
    exact Fiber.fits_of_runs ⟨runs.onStack, rfl, runs.context, runs.callback⟩ (same ▸ other)
      (congrArg some same.symm)
  · intro g mem fit
    have another : g.id ≠ id := (mem_erase.mp mem).2
    by_cases mine : t.main = some g.id
    · exact Fiber.fits_of_presides (fit.presides mine) mine
    · have notRunner : some id ≠ some g.id := by simpa using another.symm
      exact Fiber.fits_of_rests (fit.rests mine notRunner) mine notRunner

/-! ## 6. Switches -/

/-- Two fibers and the others. -/
theorem two_perm {id other : FiberId} {f g : Fiber} (distinct : t.Distinct)
    (foundf : t.fiber? id = some f) (foundg : t.fiber? other = some g) (ne : id ≠ other) :
    ∃ rest, t.fibers.Perm (f :: g :: rest) ∧ ∀ x ∈ rest, x.id ≠ id ∧ x.id ≠ other := by
  have first := fibers_perm distinct foundf
  have foundg' : (t.erase id).fiber? other = some g := by
    rw [fiber?_erase, if_neg ne]
    exact foundg
  have second := fibers_perm (distinct_erase id distinct) foundg'
  refine ⟨((t.erase id).erase other).fibers, first.trans (second.cons f), ?_⟩
  intro x mem
  obtain ⟨mem, neg⟩ := mem_erase.mp mem
  exact ⟨(mem_erase.mp mem).2, neg⟩

/-- What a switch does to the fibers of a thread: one function for the task,
another one for the main fiber. -/
def crossed (task main : FiberId) (c d : Fiber → Fiber) (x : Fiber) : Fiber :=
  if x.id = task then c x else if x.id = main then d x else x

theorem crossed_perm {task main : FiberId} {f g : Fiber} {rest : List Fiber} {c d : Fiber → Fiber}
    (perm : t.fibers.Perm (f :: g :: rest)) (hf : f.id = task) (hg : g.id = main)
    (ne : task ≠ main) (others : ∀ x ∈ rest, x.id ≠ task ∧ x.id ≠ main) :
    (t.fibers.map (crossed task main c d)).Perm (c f :: d g :: rest) := by
  have same : rest.map (crossed task main c d) = rest := by
    conv => rhs; rw [← List.map_id rest]
    apply List.map_congr_left
    intro x mem
    simp [crossed, (others x mem).1, (others x mem).2]
  have moved := perm.map (crossed task main c d)
  rw [List.map_cons, List.map_cons, same] at moved
  have cf : crossed task main c d f = c f := if_pos hf
  have dg : crossed task main c d g = d g := by
    have : g.id ≠ task := fun h => ne (h.symm.trans hg)
    rw [crossed, if_neg this, if_pos hg]
  rwa [cf, dg] at moved

theorem distinct_crossed {task main : FiberId} {c d : Fiber → Fiber} (distinct : t.Distinct)
    (fibers : t'.fibers = t.fibers.map (crossed task main c d)) (hc : ∀ x, (c x).id = x.id)
    (hd : ∀ x, (d x).id = x.id) : t'.Distinct := by
  rw [Distinct, fibers, List.map_map]
  have same : (Fiber.id ∘ crossed task main c d) = Fiber.id := by
    funext x
    simp only [Function.comp, crossed]
    split
    · exact hc x
    · split
      · exact hd x
      · rfl
  rw [same]
  exact distinct

/-- The main fiber with its code parked. -/
def parkedIn (p : Pending) (k : List Frame) (x : Fiber) : Fiber :=
  { x with state := .hold, context := some (.suspended (.waiting p :: k)) }

/-- The main fiber at its own place. -/
def atHome (x : Fiber) : Fiber :=
  { x with state := .exec, context := none }

/-- Control passes from the main fiber to a task, which had rested. What the task
owned is now in the hands of the running code. -/
theorem handOver {main : FiberId} {p : Pending} {held' : List FiberId}
    (h : t.Sound none .exec [id]) (c : Fiber → Fiber) (isMain : t.main = some main)
    (found : t.fiber? id = some f)
    (ne : id ≠ main) (body : Body none t.frames) (awaits : p.Awaits id)
    (keeps : ∀ x, (c x).id = x.id) (alive : 0 < (c f).handles) (runs : (c f).Runs .exec)
    (fibers : t'.fibers = t.fibers.map (crossed id main c (parkedIn p t.frames)))
    (slots : t'.slots = t.slots) (main' : t'.main = t.main) (current : t'.current = some id)
    (task : t'.task? = some id)
    (balance : ∀ x, (if id = x then (c f).handles else 0) + f.owns.count x =
      (if id = x then f.handles else 0) + held'.count x) : t'.Sound (some id) .exec held' := by
  obtain ⟨g, foundMain, isg, presides⟩ := h.main_presides isMain
  obtain ⟨rest, perm, others⟩ := two_perm h.distinct found foundMain ne
  have isf := id_of_fiber? found
  have noOwn : g.owns = [] := by
    cases presides with
    | home noStack callback state context => simp [Fiber.owns, callback, context]
  have newOwn : (parkedIn p t.frames g).owns = [id] := by
    simp [Fiber.owns, parkedIn, presides.pending, Context.handles, Frame.handles, awaits.handles,
      body.script_handles]
  have taskOwn : (c f).owns = [] := by
    simp [Fiber.owns, runs.context, runs.callback]
  refine h.exchange [f, g] [c f, parkedIn p t.frames g] perm
    (fibers ▸ crossed_perm perm isf isg ne others)
    (distinct_crossed h.distinct fibers keeps fun _ => rfl) ?_ ?_ ?_ ?_ ?_ ?_ task (slots ▸ h.slots)
  · intro x
    have balance := balance x
    have idg : (parkedIn p t.frames g).id = g.id := rfl
    have handles : (parkedIn p t.frames g).handles = g.handles := rfl
    simp only [slots, main', handlesTo_cons, handlesTo_nil, keeps, isf, idg, handles, newOwn,
      taskOwn, noOwn, List.flatMap_cons, List.flatMap_nil, List.append_nil, List.nil_append,
      List.count_append, List.count_cons, List.count_nil] at balance ⊢
    omega
  · intro y mem
    rcases List.mem_cons.mp mem with rfl | mem
    · exact alive
    · rw [List.mem_singleton.mp mem]
      exact h.alive g (mem_of_fiber? foundMain)
  · rw [current]
    rfl
  · intro other mine
    obtain rfl : id = other := Option.some.inj mine
    rw [main', isMain]
    exact ⟨by simp, by simpa using ne.symm⟩
  · intro y mem
    rw [main', isMain]
    rcases List.mem_cons.mp mem with rfl | mem
    · have idc : (c f).id = id := (keeps f).trans isf
      exact Fiber.fits_of_runs runs (by simpa [idc] using ne.symm) (by simp [idc])
    · rw [List.mem_singleton.mp mem]
      have idg : (parkedIn p t.frames g).id = main := isg
      exact Fiber.fits_of_presides
        (.parked presides.lease presides.pending rfl rfl body awaits) (by rw [idg])
  · intro y mem fit
    have notTask : id ≠ y.id := fun same => (others y mem).1 same.symm
    have notMain : main ≠ y.id := fun same => (others y mem).2 same.symm
    rw [main', isMain]
    rw [isMain] at fit
    exact Fiber.fits_of_rests (fit.rests (by simpa using notMain) (by simp))
      (by simpa using notMain) (by simpa using notTask)

/-- Control passes back from the task to the main fiber, and the task rests. What
the running code had is now in the hands of the task, and the running code has
what the parked code had. -/
theorem handBack {main : FiberId} {g : Fiber} {k : List Frame}
    (h : t.Sound (some id) state held) (c : Fiber → Fiber) (isMain : t.main = some main)
    (found : t.fiber? id = some f) (foundMain : t.fiber? main = some g)
    (parked : g.context = some (.suspended k)) (keeps : ∀ x, (c x).id = x.id)
    (handles : (c f).handles = f.handles) (rests : (c f).Rests)
    (owns : ∀ x, (c f).owns.count x = held.count x)
    (fibers : t'.fibers = t.fibers.map (crossed id main c atHome))
    (slots : t'.slots = t.slots) (main' : t'.main = t.main) (current : t'.current = some main)
    (frames : t'.frames = k) : t'.Sound none .exec (Frame.allHandles k) := by
  have ne : id ≠ main := by
    obtain ⟨-, other⟩ := h.apart id rfl
    rw [isMain] at other
    exact fun same => other (same ▸ rfl)
  have isf := id_of_fiber? found
  have isg := id_of_fiber? foundMain
  have presides : g.Presides (some id) :=
    (h.fits g (mem_of_fiber? foundMain)).presides (isg ▸ isMain)
  have taskOwn : f.owns = [] := by
    obtain ⟨f', found', -, runs⟩ := h.runner_runs
    obtain rfl : f = f' := by simpa [found] using found'
    simp [Fiber.owns, runs.context, runs.callback]
  have oldOwn : g.owns = Frame.allHandles k := by
    simp [Fiber.owns, presides.pending, parked, Context.handles]
  have newOwn : (atHome g).owns = [] := by
    simp [Fiber.owns, atHome, presides.pending]
  have body : k.getLast?.bind Frame.owner? = none := by
    cases presides with
    | parked noStack callback state context body awaits =>
      rw [parked] at context
      obtain rfl : k = _ := Context.suspended.inj (Option.some.inj context)
      exact body.owner_cons _
  obtain ⟨rest, perm, others⟩ := two_perm h.distinct found foundMain ne
  refine h.exchange [f, g] [c f, atHome g] perm
    (fibers ▸ crossed_perm perm isf isg ne others)
    (distinct_crossed h.distinct fibers keeps fun _ => rfl) ?_ ?_ ?_
    (by simp) ?_ ?_ (by rw [task?, frames, body])
    (slots ▸ h.slots)
  · intro x
    have owns := owns x
    have idg : (atHome g).id = g.id := rfl
    have handlesg : (atHome g).handles = g.handles := rfl
    simp only [slots, main', handlesTo_cons, handlesTo_nil, keeps, isf, idg, handles, handlesg,
      newOwn, taskOwn, oldOwn, List.flatMap_cons, List.flatMap_nil, List.append_nil,
      List.nil_append, List.count_append] at owns ⊢
    omega
  · intro y mem
    rcases List.mem_cons.mp mem with rfl | mem
    · rw [handles]
      exact h.alive f (mem_of_fiber? found)
    · rw [List.mem_singleton.mp mem]
      exact h.alive g (mem_of_fiber? foundMain)
  · rw [current, main', isMain]
    rfl
  · intro y mem
    rw [main', isMain]
    rcases List.mem_cons.mp mem with rfl | mem
    · have idc : (c f).id = id := (keeps f).trans isf
      exact Fiber.fits_of_rests rests (by simpa [idc] using ne.symm) (by simp)
    · rw [List.mem_singleton.mp mem]
      have idg : (atHome g).id = main := isg
      exact Fiber.fits_of_presides (.home presides.lease presides.pending rfl rfl) (by rw [idg])
  · intro y mem fit
    have notTask : id ≠ y.id := fun same => (others y mem).1 same.symm
    have notMain : main ≠ y.id := fun same => (others y mem).2 same.symm
    rw [main', isMain]
    rw [isMain] at fit
    exact Fiber.fits_of_rests (fit.rests (by simpa using notMain) (by simpa using notTask))
      (by simpa using notMain) (by simp)

end Sound

end FiberEngine.Thread
