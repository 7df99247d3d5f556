/-
FiberEngine.Proofs.Weights — every run comes to an end.

The weight of a thread counts the code that is still to run: in its frames, in
the contexts of its fibers and in the callbacks that they have not entered. An
operation weighs more than the code that it leaves behind, a task that is
suspended weighs more than one that runs, and a resume is made by an operation
or paid for by the task.

The main statements are `Machine.step_lighter`, that every step makes a machine
lighter or ends the process, and `Machine.run_done`, that the steps of `run`
suffice for every script.
-/
import FiberEngine.Proofs.Blindness
import FiberEngine.Proofs.Runs

namespace FiberEngine

/-! ## 1. Weights -/

/-- What the members of a list weigh together. -/
def total {α : Type} (weight : α → Nat) : List α → Nat
  | [] => 0
  | a :: rest => weight a + total weight rest

section

variable {α : Type} (weight : α → Nat)

@[simp]
theorem total_nil : total weight [] = 0 :=
  rfl

@[simp]
theorem total_cons (a : α) (rest : List α) :
    total weight (a :: rest) = weight a + total weight rest :=
  rfl

theorem total_append (as bs : List α) :
    total weight (as ++ bs) = total weight as + total weight bs := by
  induction as with
  | nil => simp
  | cons a rest ih => simp only [List.cons_append, total_cons, ih, Nat.add_assoc]

/-- The order does not matter. -/
theorem total_perm {as bs : List α} (perm : as.Perm bs) : total weight as = total weight bs := by
  induction perm with
  | nil => rfl
  | cons a _ ih => rw [total_cons, total_cons, ih]
  | swap a b rest => simp only [total_cons]; omega
  | trans _ _ first second => exact first.trans second

end

def Frame.weight : Frame → Nat
  | .ops rest => Op.weightAll rest
  | .loop times body => 1 + times * (2 + Op.weightAll body)
  | .waiting _ => 2
  | .catching | .program _ | .task .. | .script => 1

def Frame.weights (k : List Frame) : Nat :=
  total Frame.weight k

def Callback.weight (cb : Callback) : Nat :=
  2 + Op.weightAll cb.body

/-- A suspended task weighs more than its code, a parked main fiber does not. -/
def Fiber.weight (f : Fiber) : Nat :=
  (match f.context with
    | some (.suspended k) => (if f.isMain then 0 else 1) + Frame.weights k
    | _ => 0) + f.pending.elim 0 Callback.weight

def Thread.weight (t : Thread) : Nat :=
  1 + Frame.weights t.frames + total Fiber.weight t.fibers

/-- What an outcome brings besides the world: the thread that is started. -/
def Outcome.weight : Outcome → Nat
  | .started child => child.weight
  | _ => 0

@[simp]
theorem Frame.weights_nil : Frame.weights [] = 0 :=
  rfl

@[simp]
theorem Frame.weights_cons (fr : Frame) (k : List Frame) :
    Frame.weights (fr :: k) = fr.weight + Frame.weights k :=
  rfl

/-- Fewer frames weigh less. -/
theorem Frame.weights_suffix {k k' : List Frame} (suffix : k <:+ k') :
    Frame.weights k ≤ Frame.weights k' := by
  obtain ⟨above, rfl⟩ := suffix
  simp [Frame.weights, total_append]

theorem Op.weight_pos (op : Op) : 4 ≤ op.weight := by
  cases op <;> simp only [Op.weight, demoWeight] <;> omega

theorem Op.weightAll_pos (ops : List Op) : 0 < Op.weightAll ops := by
  cases ops with
  | nil => simp [Op.weightAll]
  | cons op rest =>
    have := op.weight_pos
    simp only [Op.weightAll]
    omega

theorem Frame.weight_pos (fr : Frame) : 0 < fr.weight := by
  cases fr with
  | ops rest => exact Op.weightAll_pos rest
  | _ =>
    simp only [Frame.weight]
    omega

/-- The scripts of demonstrations weigh less than what they count for. -/
theorem Demo.weight_le (d : Demo) : Op.weightAll d.script + 2 ≤ demoWeight := by
  cases d <;> decide

/-! ## 2. Changes to the fibers of a thread -/

namespace Thread

variable {t : Thread} {f : Fiber}

theorem weight_congr {u : Thread} (fibers : u.fibers = t.fibers) (frames : u.frames = t.frames) :
    u.weight = t.weight := by
  rw [weight, weight, fibers, frames]

/-- Fibers that get lighter, one of them by some amount. -/
theorem sum_weights_le {fs : List Fiber} {c : Fiber → Fiber} {n : Nat}
    (lighter : ∀ f ∈ fs, (c f).weight ≤ f.weight)
    (much : n = 0 ∨ ∃ f ∈ fs, (c f).weight + n ≤ f.weight) :
    total Fiber.weight (fs.map c) + n ≤ total Fiber.weight fs := by
  induction fs generalizing n with
  | nil =>
    rcases much with rfl | ⟨f, mem, -⟩
    · simp
    · cases mem
  | cons f rest ih =>
    have here := lighter f (by simp)
    have there : ∀ g ∈ rest, (c g).weight ≤ g.weight := fun g mem => lighter g (by simp [mem])
    have least := ih there (.inl rfl)
    simp only [List.map_cons, total_cons] at least ⊢
    rcases much with rfl | ⟨g, mem, less⟩
    · omega
    · rcases List.mem_cons.mp mem with rfl | mem
      · omega
      · have := ih there (.inr ⟨g, mem, less⟩)
        omega

/-- A change by which no fiber gets heavier. -/
theorem weight_update_le {id : FiberId} {c : Fiber → Fiber} (lighter : ∀ f, (c f).weight ≤ f.weight) :
    (t.update id c).weight ≤ t.weight := by
  have each : ∀ f ∈ t.fibers, (if f.id = id then c f else f).weight ≤ f.weight :=
    fun f _ => by split <;> simp [lighter]
  have less := sum_weights_le each (.inl rfl)
  simp only [weight, update] at less ⊢
  omega

/-- A change to one fiber. -/
theorem weight_update {id : FiberId} (c : Fiber → Fiber) (distinct : t.Distinct)
    (found : t.fiber? id = some f) :
    (t.update id c).weight + f.weight = t.weight + (c f).weight := by
  have old := total_perm Fiber.weight (fibers_perm distinct found)
  have new := total_perm Fiber.weight (update_perm c distinct found)
  have frames : (t.update id c).frames = t.frames := rfl
  simp only [total_cons] at old new
  simp only [weight, frames]
  omega

theorem weight_insert (t : Thread) (f : Fiber) : (t.insert f).weight = t.weight + f.weight := by
  simp only [weight, insert, total_append, total_cons, total_nil]
  omega

theorem weight_erase_le (t : Thread) (id : FiberId) : (t.erase id).weight ≤ t.weight := by
  have less : ∀ fs : List Fiber,
      total Fiber.weight (fs.filter fun f => f.id != id) ≤ total Fiber.weight fs := by
    intro fs
    induction fs with
    | nil => simp
    | cons f rest ih =>
      rw [List.filter_cons]
      split <;> simp only [total_cons] <;> omega
  have := less t.fibers
  simp only [weight, erase]
  omega

end Thread

/-! ## 3. What operations bring -/

namespace World

variable {w : World}

/-- A request brings at most so much weight. -/
def Brings (n : Nat) (w : World) (r : World × Outcome) : Prop :=
  r.1.thread.weight + r.2.weight ≤ w.thread.weight + n

theorem Brings.after {n m : Nat} {v : World} {r : World × Outcome} (brings : Brings n v r)
    (first : v.thread.weight ≤ w.thread.weight + m) : Brings (n + m) w r := by
  unfold Brings at brings ⊢
  omega

theorem Brings.mono {n m : Nat} {r : World × Outcome} (brings : Brings n w r) (le : n ≤ m) :
    Brings m w r := by
  unfold Brings at brings ⊢
  omega

theorem release_weight (w : World) (ids : List FiberId) :
    (w.release ids).thread.weight ≤ w.thread.weight := by
  fun_induction World.release w ids with
  | case1 w => exact Nat.le_refl _
  | case2 w id rest missing ih => exact ih
  | case3 w id rest f found last destroyed ih =>
    have same : destroyed.1.thread.weight = (w.thread.erase f.id).weight :=
      Thread.weight_congr (destroy_fibers w f) (destroy_keeps w f).2.1
    have less := w.thread.weight_erase_le f.id
    omega
  | case4 w id rest f found more ih =>
    refine Nat.le_trans ih (Thread.weight_update_le fun f => ?_)
    exact Nat.le_refl _

theorem dropCallback_weight (w : World) (tag : Option String) (keep : List FiberId) :
    (w.dropCallback tag keep).thread.weight ≤ w.thread.weight := by
  have less := (w.dropTag tag).release_weight keep
  rwa [dropTag_thread] at less

theorem fatal_brings (w : World) (message : String) : Brings 0 w (w.fatal message) := by
  have same := reportFatal_thread w message
  unfold fatal
  split <;> rename_i eq <;> rw [eq] at same
  · refine Nat.le_of_eq (congrArg Thread.weight ?_)
    rw [abort_thread, ← same]
  · exact Nat.le_of_eq (congrArg Thread.weight same)

theorem reject_brings (w : World) (m : Manner) (id : FiberId) (e : FiberError) :
    Brings 0 w (w.reject m id e) := by
  cases m with
  | checked => exact Nat.le_refl _
  | trusted => exact w.fatal_brings e.message

theorem currentFiber_weight (w : World) : w.currentFiber.1.thread.weight ≤ w.thread.weight := by
  cases current : w.thread.current with
  | some id => simp [currentFiber, current]
  | none =>
    cases main : w.thread.main with
    | some id =>
      simp only [currentFiber, current, main]
      exact Nat.le_refl _
    | none =>
      have bare : (Fiber.main w.process.nextId).weight = 0 := rfl
      rw [bearMain_thread current main]
      exact Nat.le_of_eq (Thread.weight_insert w.thread (Fiber.main w.process.nextId))

theorem fetch_weight (w : World) (f : FiberRef) : (w.fetch f).1.thread.weight ≤ w.thread.weight := by
  cases f with
  | slot name => exact Nat.le_refl _
  | current => exact w.currentFiber_weight

theorem hold_weight (w : World) (id : FiberId) : (w.hold id).thread.weight ≤ w.thread.weight :=
  Thread.weight_update_le fun _ => Nat.le_refl _

theorem holdAll_weight (w : World) (fs : List FiberRef) :
    (w.holdAll fs).1.thread.weight ≤ w.thread.weight := by
  induction fs generalizing w with
  | nil => exact Nat.le_refl _
  | cons f rest ih =>
    have fetched := w.fetch_weight f
    unfold holdAll
    split <;> rename_i eq <;> rw [eq] at fetched
    · exact Nat.le_trans (ih _) fetched
    · exact Nat.le_trans (ih _) (Nat.le_trans (hold_weight _ _) fetched)

/-- A new task brings the weight of its callback. -/
theorem createTask_weight (w : World) (a : Allocator) (asked : Nat) (cb : Callback) :
    (w.createTask a asked cb).1.thread.weight ≤ w.thread.weight + cb.weight := by
  have sized := w.stackSize_thread asked
  unfold createTask
  split <;> rename_i v _ eq <;> rw [eq] at sized
  · have less := v.dropCallback_weight cb.tag cb.keep
    simp only at sized
    rw [sized] at less
    exact Nat.le_trans less (Nat.le_add_right _ _)
  · obtain ⟨u, stock, stays, granted⟩ :=
      @allocateStack_cases (fun _ => True) v none [] a ‹Nat›
    have same : u.thread.weight = w.thread.weight := by
      rw [← show v.thread = w.thread from sized]
      exact Thread.weight_congr stock.fibers stays.frames
    rcases granted with ⟨n, allocated⟩ | ⟨e, refused⟩
    · simp only [allocated]
      have inserted := Thread.weight_insert (u.handOut a n).1.thread
        (Fiber.task u.process.nextId ⟨(u.handOut a n).2, a⟩ cb)
      have bound : (Fiber.task u.process.nextId ⟨(u.handOut a n).2, a⟩ cb).weight = cb.weight := by
        simp [Fiber.weight, Fiber.task]
      have kept : (u.handOut a n).1.thread.weight = u.thread.weight := rfl
      change Thread.weight (World.thread _) ≤ _
      rw [insertTask_thread]
      change ((u.handOut a n).1.thread.insert (Fiber.task u.process.nextId _ cb)).weight ≤ _
      omega
    · simp only [refused]
      have less := u.dropCallback_weight cb.tag cb.keep
      omega

/-! ## 4. Switches -/

section

variable {others : List FiberId} {r : Option FiberId} {h : List FiberId} {f : Fiber}

/-- What a switch changes: the task, the main fiber and the code that runs. -/
theorem crossed_weight {t u : Thread} {task main : FiberId} {f g : Fiber} {c d : Fiber → Fiber}
    (distinct : t.Distinct) (found : t.fiber? task = some f) (foundMain : t.fiber? main = some g)
    (ne : task ≠ main) (fibers : u.fibers = t.fibers.map (Thread.Sound.crossed task main c d)) :
    u.weight + f.weight + g.weight + Frame.weights t.frames =
      t.weight + (c f).weight + (d g).weight + Frame.weights u.frames := by
  obtain ⟨rest, perm, apart⟩ := Thread.Sound.two_perm distinct found foundMain ne
  have old := total_perm Fiber.weight perm
  have new := total_perm Fiber.weight (Thread.Sound.crossed_perm (c := c) (d := d) perm
    (Thread.id_of_fiber? found) (Thread.id_of_fiber? foundMain) ne apart)
  simp only [total_cons] at old new
  simp only [Thread.weight, fibers]
  omega

/-- A task at rest that is resumed pays for its resume. -/
theorem switchTo_weight {main : FiberId} {p : Pending}
    (sound : Stage.Sound others ⟨w, none, .exec, h⟩) (isMain : w.thread.main = some main)
    (found : w.thread.fiber? f.id = some f) (ne : f.id ≠ main) (rests : f.Rests)
    (can : f.state.canResume) :
    (w.switchTo f p).thread.weight ≤ w.thread.weight + 1 := by
  obtain ⟨g, foundMain, -, presides⟩ := sound.thread.main_presides isMain
  have same := (w.log_same (.resumed f.id f.state)).thread
  have isMain' : (w.log (.resumed f.id f.state)).thread.main = some main := by rw [same, isMain]
  have distinct : w.thread.Distinct := sound.thread.distinct
  have crossed := fun {u} c fibers => crossed_weight (u := u) (c := c)
    (d := Thread.Sound.parkedIn p w.thread.frames) distinct found foundMain ne fibers
  have bare : g.weight = 0 ∧
      (Thread.Sound.parkedIn p w.thread.frames g).weight = 2 + Frame.weights w.thread.frames := by
    cases presides with
    | home noStack callback state context =>
      simp [Thread.Sound.parkedIn, Fiber.weight, Fiber.isMain, noStack, callback, context,
        Frame.weight]
  cases rests with
  | @waiting lease cb onStack state context callback =>
    have moved := begin_thread p cb isMain' ne
    rw [same] at moved
    rw [switchTo_fresh context callback, log_thread]
    have change := crossed _ (congrArg Thread.fibers moved)
    have code : Frame.weights ((((w.log (.resumed f.id f.state)).depart f.id p).begin f.id
        cb).thread).frames = Op.weightAll cb.body + 1 := by
      change Frame.weights [.ops cb.body, .task f.id cb.tag cb.keep] = _
      simp [Frame.weight]
    have rested : f.weight = 2 + Op.weightAll cb.body := by
      simp [Fiber.weight, context, callback, Callback.weight]
    have runs : Fiber.weight { f with
        state := .exec, context := none, handles := f.handles + 1, pending := none } = 0 := rfl
    omega
  | @suspended lease q k onStack state context callback body' pauses =>
    have resumed : w.switchTo f p =
        ((w.log (.resumed f.id f.state)).depart f.id p).goOn (.waiting q :: k) := by
      simp only [switchTo, context]
      rfl
    have moved := depart_thread p isMain' ne
    rw [same] at moved
    have fibers : (w.switchTo f p).thread.fibers = _ :=
      (congrArg (fun v => v.thread.fibers) resumed).trans (congrArg Thread.fibers moved)
    have change := crossed _ fibers
    have frames : (w.switchTo f p).thread.frames = .waiting q :: k := by rw [resumed]; rfl
    have stack : f.isMain = false := by simp [Fiber.isMain, onStack]
    have rested : f.weight = 1 + (2 + Frame.weights k) := by
      simp [Fiber.weight, context, callback, stack, Frame.weight]
    have runs : Fiber.weight { f with state := .exec, context := none } = 0 := by
      simp [Fiber.weight, callback]
    rw [frames, Frame.weights_cons, Frame.weight] at change
    omega
  | finished onStack state context callback =>
    cases eq : f.state <;> simp_all [FiberState.terminal, FiberState.canResume]

theorem resume_brings {m : Manner} {p : Pending} (sound : Stage.Sound others ⟨w, r, .exec, h⟩)
    (found : w.thread.fiber? f.id = some f) : Brings 1 w (w.resume m f p) := by
  have asked : (w.resumeRefusal f).1.thread.weight ≤ w.thread.weight := by
    have less := w.currentFiber_weight
    unfold resumeRefusal
    split
    · exact Nat.le_refl _
    · split
      split <;> rename_i eq _ <;> rw [eq] at less <;> exact less
  unfold resume
  split
  · rename_i v e eq
    rw [eq] at asked
    exact ((v.reject_brings m f.id e).after (m := 0) asked).mono (Nat.le_succ 0)
  · rename_i v eq
    obtain ⟨rfl, can, same⟩ := accepted_of_resume sound (f := f) (by rw [eq])
    obtain rfl : v = w.currentFiber.1 := by rw [← same, eq]
    rw [eq] at asked
    have stays : Stays (fun _ => True) _ _ := currentFiber_stays sound
    obtain ⟨isMain, there, ne, rests⟩ := rests_beside_main sound found can
    have switched := switchTo_weight (p := p) (stays.sound sound) isMain there ne rests can
    exact Nat.le_trans switched (Nat.add_le_add_right asked 1)

/-- A task that suspends itself leaves a request that waits, and more to go on with. -/
theorem suspend_brings {m : Manner} {next : Parking} {p : Pending}
    (sound : Stage.Sound others ⟨w, r, .exec, h⟩) (found : w.thread.fiber? f.id = some f) :
    Brings 3 w (w.suspend m f next p) := by
  cases accepted : f.yieldRefusal? w.thread.currentId with
  | some e =>
    simp only [suspend, accepted]
    exact (w.reject_brings m f.id e).mono (Nat.zero_le 3)
  | none =>
    have stands : w.thread.Sound r .exec h := sound.thread
    obtain ⟨rfl, running⟩ := runner_of_yield sound found accepted
    obtain ⟨main, q, k, isMain, ne, parked, -, -⟩ := mainFrames_of_runner stands
    obtain ⟨g, foundMain, context⟩ := mainFrames_eq_ok isMain parked
    obtain ⟨f', found', -, runs⟩ := stands.runner_runs
    obtain rfl : f = f' := Option.some.inj (found.symm.trans found')
    have same := (w.log_same (.yielded f.id next.state)).thread
    have thread := yield_thread (w := w.log (.yielded f.id next.state)) p next (.waiting q :: k)
      (by rw [same]; exact isMain) ne.symm
    rw [same] at thread
    rw [suspend_eq isMain parked running accepted]
    generalize World.comeBack _ _ _ _ _ = v at thread ⊢
    have change := crossed_weight stands.distinct found foundMain ne.symm
      (congrArg Thread.fibers thread)
    have frames : v.thread.frames = .waiting q :: k := congrArg Thread.frames thread
    obtain ⟨lease, onStack⟩ := Option.ne_none_iff_exists'.mp runs.onStack
    have ran : f.weight = 0 := by simp [Fiber.weight, runs.context, runs.callback]
    have aside : Fiber.weight { f with
        state := next.state, context := some (.suspended (.waiting p :: w.thread.frames)) } =
          1 + (2 + Frame.weights w.thread.frames) := by
      simp [Fiber.weight, Fiber.isMain, onStack, runs.callback, Frame.weight]
    have gone : (Thread.Sound.atHome g).weight + Frame.weights (.waiting q :: k) ≤ g.weight := by
      simp only [Fiber.weight, Thread.Sound.atHome, context]
      omega
    rw [frames] at change
    have light : v.thread.weight ≤ w.thread.weight + 3 := by omega
    exact light

/-- When a task stands aside for good, only the code of the main fiber is left. -/
theorem comeBack_weight {u : World} {id main : FiberId} {k : List Frame}
    (isMain : u.thread.main = some main) (parked : u.mainFrames = .ok k) :
    (u.comeBack id main .spent k).thread.weight + Frame.weights u.thread.frames ≤
      u.thread.weight := by
  obtain ⟨g, found, context⟩ := mainFrames_eq_ok isMain parked
  -- the two changes of contexts, as one change to all fibers
  let c (f : Fiber) : Fiber :=
    let f := if f.id = id then { f with context := some .spent } else f
    if f.id = main then { f with context := none } else f
  have lighter : ∀ f, (c f).weight ≤ f.weight := by
    intro f
    simp only [c]
    split <;> split <;> simp [Fiber.weight]
  have gone : (c g).weight + Frame.weights k ≤ g.weight := by
    have mine : g.id = main := Thread.id_of_fiber? found
    have left : c g = { g with context := none } := by
      simp only [c]
      split <;> simp_all
    rw [left]
    simp only [Fiber.weight, context]
    omega
  have sums := Thread.sum_weights_le (fun f _ => lighter f)
    (.inr ⟨g, Thread.mem_of_fiber? found, gone⟩)
  let t := (u.thread.setContext id (some .spent)).setContext main none
  have changed : t.fibers = u.thread.fibers.map c := by
    simp only [t, Thread.setContext, Thread.update, List.map_map]
    rfl
  have settled : (t.setState main .exec).weight ≤ t.weight :=
    Thread.weight_update_le fun _ => Nat.le_refl _
  have isMain' : t.main = some main := isMain
  have fibers : (u.comeBack id main .spent k).thread.fibers = (t.setState main .exec).fibers := by
    change (t.setMainState .exec).fibers = _
    rw [Thread.setMainState, isMain']
  have frames : (u.comeBack id main .spent k).thread.frames = k := rfl
  have kept : (t.setState main .exec).frames = t.frames := rfl
  rw [← changed] at sums
  simp only [Thread.weight, fibers, frames, kept] at settled ⊢
  omega

/-- When a callback ends, the code of its fiber goes, or the process has ended. -/
theorem finish_weight (w : World) (id : FiberId) (tag : Option String) (keep : List FiberId)
    (e : Finish) : (w.finish id tag keep e).process.halted = true ∨
      (w.finish id tag keep e).thread.weight + Frame.weights w.thread.frames ≤ w.thread.weight := by
  have kept : (w.dropCallback tag keep).thread.frames = w.thread.frames :=
    (release_keeps _ keep).2.1.trans (congrArg Thread.frames (w.dropTag_thread tag))
  have dropped := w.dropCallback_weight tag keep
  have reported : ∀ v : World, (v.reportFault id e).thread = v.thread := by
    intro v
    cases e with
    | returned value => rfl
    | faulted p =>
      have same := v.report_thread (faultText p id v.thread.name)
      unfold reportFault
      simp only
      split <;> rename_i eq <;> rw [eq] at same
      · exact same
      · exact (abort_thread _).trans same
  rw [finish_eq]
  generalize before : ((w.dropCallback tag keep).onThread fun t =>
    t.setState id e.state).reportFault id e = v
  have ended : v.thread.weight ≤ w.thread.weight := by
    rw [← before, reported]
    exact Nat.le_trans (Thread.weight_update_le fun _ => Nat.le_refl _) dropped
  have frames : v.thread.frames = w.thread.frames := by
    rw [← before, reported]
    exact kept
  have released := v.release_weight [id]
  have code := (v.release_keeps [id]).2.1
  unfold standAside
  generalize v.release [id] = u at released code ⊢
  cases parked : u.mainFrames with
  | error why =>
    left
    simp only [switchBack, parked]
    rfl
  | ok k =>
    obtain ⟨main, isMain⟩ : ∃ main, u.thread.main = some main := by
      cases eq : u.thread.main with
      | none => simp [mainFrames, eq] at parked
      | some main => exact ⟨main, rfl⟩
    have light : (u.comeBack id main .spent k).thread.weight + Frame.weights u.thread.frames ≤
        u.thread.weight := comeBack_weight isMain parked
    have handed : Frame.weights (e.handTo id k) = Frame.weights k := by
      unfold Finish.handTo
      split
      · split <;> rfl
      · rfl
    right
    simp only [switchBack_eq .spent isMain parked]
    have same : ((u.comeBack id main .spent k).onThread fun t =>
        t.goOn (e.handTo id t.frames)).thread.weight = (u.comeBack id main .spent k).thread.weight := by
      change 1 + Frame.weights (e.handTo id k) + _ = 1 + Frame.weights k + _
      rw [handed]
      rfl
    rw [same, ← frames, ← code]
    omega

/-! ## 5. Requests -/

theorem reset_brings {m : Manner} {cb : Callback} (distinct : w.thread.Distinct)
    (found : w.thread.fiber? f.id = some f) : Brings cb.weight w (w.reset m f cb) := by
  unfold reset
  split
  · have dropped := w.dropCallback_weight cb.tag cb.keep
    exact ((reject_brings _ m f.id _).after (m := 0) dropped).mono (Nat.zero_le _)
  · have bound := Thread.weight_update
      (fun f => { f with context := some .fresh, pending := some cb }) distinct found
    have new : Fiber.weight { f with context := some .fresh, pending := some cb } = cb.weight := by
      simp [Fiber.weight]
    have settled : (w.rebind f cb).thread.weight ≤ (w.onThread fun t => t.update f.id fun f =>
        { f with context := some .fresh, pending := some cb }).thread.weight := by
      unfold rebind
      simp only [log_thread]
      refine Nat.le_trans (Thread.weight_update_le fun _ => Nat.le_refl _) ?_
      split
      · exact dropCallback_weight _ _ _
      · exact Nat.le_refl _
    have start : (w.onThread fun t => t.update f.id fun f =>
      { f with context := some .fresh, pending := some cb }).thread.weight ≤
        w.thread.weight + cb.weight := by
      simp only [onThread]
      omega
    exact Nat.le_trans settled start

theorem letGo_brings {n : Nat} {x : World × Outcome} (id : FiberId) (brings : Brings n w x) :
    Brings n w (letGo id x) := by
  obtain ⟨v, o⟩ := x
  cases o with
  | done reply | panicked p => exact Nat.le_trans (Nat.add_le_add_right (v.release_weight [id]) _) brings
  | next | left v | aborted | started child => exact brings

theorem onFiber_brings {n : Nat} {ref : FiberRef} {act : World → Fiber → World × Outcome}
    (sound : Stage.Sound others ⟨w, r, .exec, h⟩)
    (acts : ∀ {v g}, Stage.Sound others ⟨v, r, .exec, g.id :: h⟩ →
      v.thread.fiber? g.id = some g → Brings n v (act v g)) :
    Brings n w (w.onFiber ref act) := by
  have fetched : Stays (fun _ => True) _ _ := fetch_stays ref sound
  have less := w.fetch_weight ref
  rcases fetch_cases ref sound with ⟨v, eq⟩ | ⟨v, g, eq, found⟩ <;> rw [eq] at fetched less
  · simp only [onFiber, eq]
    exact Nat.le_trans less (Nat.le_add_right _ _)
  · have held : Stays (fun _ => True) _ ⟨v.hold g.id, r, .exec, g.id :: h⟩ :=
      fetched.trans (hold_stays found)
    obtain ⟨found', unfolded⟩ := onFiber_eq eq found act
    rw [unfolded]
    have acted : Brings n (v.hold g.id) (act (v.hold g.id) { g with handles := g.handles + 1 }) :=
      acts (held.sound sound) found'
    exact letGo_brings g.id (acted.after (m := 0) (Nat.le_trans (v.hold_weight g.id) less))

theorem putSlot_weight (w : World) (name : SlotName) (id : FiberId) :
    (w.putSlot name id).thread.weight ≤ w.thread.weight :=
  release_weight (w.onThread fun t => t.setSlot name id) _

theorem create_brings (w : World) (slot : SlotName) (size : Nat) (a : Allocator) (cb : Callback) :
    Brings cb.weight w (w.create slot size a cb) := by
  have made := w.createTask_weight a size cb
  unfold create
  split <;> rename_i eq <;> rw [eq] at made
  · exact made
  · exact made
  · exact Nat.le_trans (putSlot_weight _ _ _) made

theorem driveOn_brings {done max : Nat} (sound : Stage.Sound others ⟨w, r, .exec, h⟩)
    (found : w.thread.fiber? f.id = some f) : Brings 1 w (w.driveOn f done max) := by
  unfold driveOn
  split
  · exact Nat.le_succ _
  · exact resume_brings sound found

theorem entryOn_brings {size : Nat} {shape : EntryShape} {result : Option Datum}
    (sound : Stage.Sound others ⟨w, r, .exec, h⟩) (found : w.thread.fiber? f.id = some f) :
    Brings 1 w (w.entryOn f size shape result) := by
  unfold entryOn
  split
  · split <;> exact Nat.le_succ _
  · exact resume_brings sound found

theorem enterMain_brings {size : Nat} {shape : EntryShape} {ops : List Op}
    (sound : Stage.Sound others ⟨w, r, .exec, h⟩) :
    Brings (3 + Op.weightAll ops) w (w.enterMain size shape ops) := by
  have asked : Stays (fun _ => True) _ _ := currentFiber_stays sound
  have before := asked.sound sound
  have made : Stays (fun _ => True) ⟨w.currentFiber.1, r, .exec, (Callback.mk ops none []).keep ++
      h⟩ _ := createTask_stays (fun _ => trivial) .heap size ⟨ops, none, []⟩
  have after := made.sound before
  have less := w.currentFiber_weight
  have more := w.currentFiber.1.createTask_weight .heap size ⟨ops, none, []⟩
  have weight : (Callback.mk ops none []).weight = 2 + Op.weightAll ops := rfl
  unfold enterMain
  simp only
  rcases created : w.currentFiber.1.createTask .heap size ⟨ops, none, []⟩ with ⟨v, (e | p) | id⟩ <;>
    rw [created] at made after more
  · change v.thread.weight + 0 ≤ _
    simp only at more
    omega
  · change v.thread.weight + 0 ≤ _
    simp only at more
    omega
  · obtain ⟨-, -, lease, -, -, found⟩ := createTask_new before created
    simp only [found]
    have after : Stage.Sound others ⟨v, r, .exec, id :: h⟩ := after
    have found' : v.thread.fiber? (Fiber.task id lease ⟨ops, none, []⟩).id =
        some (Fiber.task id lease ⟨ops, none, []⟩) := found
    have ran : Brings 1 v (v.entryOn (Fiber.task id lease ⟨ops, none, []⟩) size shape none) :=
      entryOn_brings after found'
    simp only at more
    exact (letGo_brings id (ran.after (m := 2 + Op.weightAll ops) (by omega))).mono (by omega)

/-- A request that leaves the thread as it is, and starts none. -/
theorem brings_of_thread {x : World × Outcome} (same : x.1.thread = w.thread)
    (starts : x.2.weight = 0) : Brings 0 w x := by
  simp only [Brings, same, starts, Nat.le_refl]

theorem lookup_thread (w : World) (name : String) (default : Config.Value) (description : String) :
    (w.lookup name default description).1.thread = w.thread := by
  unfold lookup
  split
  · exact log_thread ..
  · exact log_thread ..
  · exact log_thread ..
  · rfl

theorem lookupVar_thread (w : World) (name : String) (default : Config.Value)
    (description : String) : (w.lookupVar name default description).1.thread = w.thread := by
  have found := w.lookup_thread name default description
  unfold lookupVar
  split <;> rename_i eq <;> rw [eq] at found <;> exact found

theorem assignVar_thread (w : World) (name : String) (value : Config.Value) :
    (w.assignVar name value).1.thread = w.thread := by
  unfold assignVar
  split <;> rfl

theorem parseVar_thread (w : World) (name text : String) :
    (w.parseVar name text).1.thread = w.thread := by
  unfold parseVar
  split
  · rfl
  · split <;> rfl

theorem stageVar_thread (w : World) (name text : String) (apply : Bool) :
    (w.stageVar name text apply).1.thread = w.thread := by
  unfold stageVar
  split
  · rfl
  · simp only
    split
    · rfl
    · cases apply <;> rfl

theorem visitAll_thread (w : World) (register : Option String) (vars : List Config.Var) :
    (w.visitAll register vars).1.thread = w.thread := by
  induction vars generalizing w with
  | nil => rfl
  | cons v rest ih =>
    cases register with
    | none => exact ih w
    | some ending => exact (ih _).trans (w.lookup_thread ..)

theorem loadDocument_thread (w : World) (source : String) :
    (w.loadDocument source).1.thread = w.thread := by
  have logged : ∀ (ss : List Config.Registry.Staged) (v : World),
      (ss.foldl (fun w s => w.log (.configUpdated s.name s.text)) v).thread = v.thread := by
    intro ss
    induction ss with
    | nil => exact fun _ => rfl
    | cons s rest ih => exact fun v => (ih _).trans (log_thread ..)
  unfold loadDocument
  split
  · rfl
  · split
    · rfl
    · exact logged _ _

theorem deallocate_weight (w : World) (a : Allocator) (b : Block) :
    (w.deallocate a b).thread.weight = w.thread.weight := by
  cases a with
  | heap | exhausted | refusing | guarded => rfl
  | counting | doubling =>
    unfold deallocate
    rw [emit_thread]
    rfl

theorem allocBlock_brings (w : World) (name : String) (a : Allocator) (size : Nat) :
    Brings 0 w (w.allocBlock name a size) := by
  obtain ⟨v, stock, stays, granted⟩ := @allocate_cases (fun _ => True) w none [] a size
  have same : v.thread.weight = w.thread.weight := Thread.weight_congr stock.fibers stays.frames
  rcases granted with ⟨n, eq⟩ | ⟨e, eq⟩ <;> simp only [allocBlock, eq] <;> exact Nat.le_of_eq same

theorem pieceText_weight (w : World) (p : Piece) :
    (w.pieceText p).1.thread.weight ≤ w.thread.weight := by
  have read : ∀ f text, (w.pieceOf f text).1.thread.weight ≤ w.thread.weight := by
    intro f text
    have fetched := w.fetch_weight f
    unfold pieceOf
    split <;> rename_i eq <;> rw [eq] at fetched <;> exact fetched
  cases p with
  | id f | state f | stackSize f | refusal f => exact read f _
  | text _ | currentId | threadName | total | counter | tunable _ => exact Nat.le_refl _

theorem lineText_weight (w : World) (line : List Piece) :
    (w.lineText line).1.thread.weight ≤ w.thread.weight := by
  induction line generalizing w with
  | nil => exact Nat.le_refl _
  | cons p rest ih => exact Nat.le_trans (ih _) (w.pieceText_weight p)

/-- Putting a frame above the running code. -/
theorem weight_push (t : Thread) (fr : Frame) : (t.push fr).weight = t.weight + fr.weight := by
  simp only [Thread.weight, Thread.push, Frame.weights_cons]
  omega

/-- A started thread weighs as much as its script, and the starter waits for it. -/
theorem spawn_brings (w : World) (kind : ThreadKind) (ops : List Op) :
    Brings (4 + Op.weightAll ops) w (w.spawn kind ops) := by
  have child : (child kind ops).weight = 2 + Op.weightAll ops := by
    cases kind <;> simp [World.child, Thread.weight, Thread.start, Frame.weight] <;> omega
  have pushed : ∀ v : World, v.thread = w.thread →
      Brings (4 + Op.weightAll ops) w
        (v.onThread fun t => t.push (.waiting (.join kind none)), .started (World.child kind ops)) := by
    intro v same
    simp only [Brings, onThread, same, Outcome.weight, child, weight_push, Frame.weight]
    omega
  unfold spawn
  split
  · exact (brings_of_thread rfl rfl).mono (Nat.zero_le _)
  · refine pushed _ ?_
    cases kind with
    | engine name => exact log_thread ..
    | plain name => rfl

theorem park_brings (sound : Stage.Sound others ⟨w, r, .exec, h⟩) (p : Parking) :
    Brings 3 w (w.perform (.park p)) := by
  have stays : Stays (fun _ => True) _ _ := currentFiber_stays sound
  have less := w.currentFiber_weight
  have after := stays.sound sound
  rw [perform]
  generalize w.currentFiber = asked at less after
  obtain ⟨v, id⟩ := asked
  cases found : v.thread.fiber? id with
  | none =>
    simp only [found]
    exact Nat.le_trans less (Nat.le_add_right _ _)
  | some g =>
    obtain rfl := Thread.id_of_fiber? found
    simp only [found]
    exact (suspend_brings after found).after (m := 0) less

/-- Every operation brings less than it weighs. -/
theorem perform_brings (sound : Stage.Sound others ⟨w, r, .exec, h⟩) (op : Op) :
    Brings (op.weight - 1) w (w.perform op) := by
  have pos := op.weight_pos
  have light : ∀ {n x}, Brings n w x → n ≤ 3 → Brings (op.weight - 1) w x := fun brings le =>
    brings.mono (by omega)
  have quiet : ∀ {x : World × Outcome}, x.1.thread = w.thread → x.2.weight = 0 →
      Brings (op.weight - 1) w x := fun same starts =>
    light (brings_of_thread same starts) (Nat.zero_le 3)
  cases op with
  | say _ | leave _ | panic _ | currentId | total | stackStats | backtrace _ _ | threadName | constants
  | states | fiberError _ | configError _ | describe _ | get _ _ | sameVar _ _ _ | debugVar _ _
  | illFormed _ | setHook _ | tick => exact quiet rfl rfl
  | loop times ops =>
    simp only [perform]
    split
    · exact quiet rfl rfl
    · have pushed := weight_push w.thread (.loop times ops)
      have le : times * (2 + Op.weightAll ops) ≤ times * (4 + Op.weightAll ops) :=
        Nat.mul_le_mul_left _ (by omega)
      simp only [Frame.weight] at pushed
      simp only [Brings, onThread, pushed, Outcome.weight, Op.weight]
      omega
  | attempt ops =>
    simp only [perform, Brings, onThread, weight_push, Frame.weight, Outcome.weight, Op.weight]
    omega
  | create slot size a ops tag keep =>
    have held := w.holdAll_weight keep
    have made := (w.holdAll keep).1.create_brings slot size a ⟨ops, tag, (w.holdAll keep).2⟩
    have weight : (Callback.mk ops tag (w.holdAll keep).2).weight = 2 + Op.weightAll ops := rfl
    rw [perform]
    refine (made.after (m := 0) held).mono ?_
    simp only [weight, Op.weight]
    omega
  | resume m f =>
    rw [perform]
    exact light (onFiber_brings sound fun sound found => resume_brings sound found) (by omega)
  | pause m f =>
    rw [perform]
    exact light (onFiber_brings sound fun sound found => suspend_brings sound found) (by omega)
  | reset m f ops tag keep =>
    rw [perform]
    refine (onFiber_brings (n := 2 + Op.weightAll ops) sound fun {v g} sound found => ?_).mono ?_
    · have held : Stays (fun _ => True) _ _ := holdAll_stays keep sound
      obtain ⟨n, found'⟩ := fiber?_holdAll keep found
      change Brings _ v ((v.holdAll keep).1.reset m { g with handles := n } _)
      exact (reset_brings (f := { g with handles := n }) (held.sound sound).thread.distinct
        found').after (m := 0) (v.holdAll_weight keep)
    · simp only [Op.weight]
      omega
  | park p =>
    exact light (park_brings sound p) (by omega)
  | drive f max =>
    rw [perform]
    exact light (onFiber_brings sound fun sound found => driveOn_brings sound found) (by omega)
  | state f | info f =>
    rw [perform]
    exact light (onFiber_brings (n := 0) sound fun _ _ => brings_of_thread rfl rfl) (by omega)
  | clone f slot =>
    rw [perform]
    refine light (onFiber_brings (n := 0) sound fun {v g} _ _ => ?_) (by omega)
    exact Nat.le_trans (putSlot_weight _ _ _) (v.hold_weight g.id)
  | drop slot =>
    refine light (n := 0) ?_ (by omega)
    rw [perform]
    unfold dropSlot
    split
    · exact Nat.le_refl _
    · exact release_weight (w.onThread fun t => t.clearSlot slot) _
  | same f f' =>
    rw [perform]
    refine light (onFiber_brings (n := 0) sound fun sound _ => ?_) (by omega)
    exact onFiber_brings sound fun _ _ => brings_of_thread rfl rfl
  | allocBlock name a size => exact light (w.allocBlock_brings name a size) (by omega)
  | freeBlock name a =>
    refine light (n := 0) ?_ (by omega)
    rw [perform]
    unfold freeBlock
    split
    · exact Nat.le_refl _
    · exact Nat.le_of_eq (deallocate_weight (w.onThread fun t => t.clearBlock name) a _)
  | saveBlock f name =>
    rw [perform]
    refine light (onFiber_brings (n := 0) sound fun _ _ => ?_) (by omega)
    unfold saveBlock
    split <;> exact Nat.le_refl _
  | isBlock f name =>
    rw [perform]
    refine light (onFiber_brings (n := 0) sound fun _ _ => ?_) (by omega)
    unfold isBlock
    split <;> exact Nat.le_refl _
  | report text =>
    have same := w.report_thread text
    simp only [perform]
    split <;> rename_i eq <;> rw [eq] at same <;> exact quiet same rfl
  | setThreadName name => exact light (n := 0) (Nat.le_refl _) (by omega)
  | thread kind ops =>
    refine (w.spawn_brings kind ops).mono ?_
    simp only [Op.weight]
    omega
  | entry size shape ops =>
    refine (enterMain_brings sound).mono ?_
    simp only [Op.weight]
    omega
  | demo d =>
    have less := d.weight_le
    simp only [perform, startDemo, Brings, onThread, weight_push, Frame.weight, Outcome.weight,
      Op.weight]
    omega
  | lookup name default description => exact quiet (w.lookupVar_thread ..) rfl
  | assign name value => exact quiet (w.assignVar_thread ..) rfl
  | parse name text => exact quiet (w.parseVar_thread ..) rfl
  | stage name text apply => exact quiet (w.stageVar_thread ..) rfl
  | visit register => exact quiet (w.visitAll_thread ..) rfl
  | load source => exact quiet (w.loadDocument_thread ..) rfl
  | print line => exact light (n := 0) (w.lineText_weight line) (by omega)
  | requireJoined =>
    simp only [perform]
    split <;> exact quiet rfl rfl

theorem onHeld_brings {n : Nat} {id : FiberId} {act : Fiber → World × Outcome}
    (acts : ∀ {f}, w.thread.fiber? f.id = some f → Brings n w (act f)) :
    Brings n w (w.onHeld id act) := by
  unfold onHeld
  cases found : w.thread.fiber? id with
  | none => exact Nat.le_add_right _ _
  | some f =>
    obtain rfl := Thread.id_of_fiber? found
    exact letGo_brings f.id (acts found)

/-- An operation that goes on brings no more than one resume. -/
theorem carryOn_brings (sound : Stage.Sound others ⟨w, r, .exec, h⟩) (p : Pending) :
    Brings 1 w (w.carryOn p) := by
  have quiet : ∀ {x : World × Outcome}, x.1.thread = w.thread → x.2.weight = 0 → Brings 1 w x :=
    fun same starts => (brings_of_thread same starts).mono (Nat.zero_le 1)
  cases p with
  | resume m id | pause m id => exact onHeld_brings fun _ => quiet rfl rfl
  | drive id done max => exact onHeld_brings fun found => driveOn_brings sound found
  | entry size shape id result => exact onHeld_brings fun found => entryOn_brings sound found
  | park p => exact quiet rfl rfl
  | join kind ending =>
    refine quiet ?_ rfl
    simp only [carryOn, answer, noteWorker]
    split <;> rfl

end

/-! ## 6. Steps -/

/-- What a signal brings besides the world: the thread that runs first. -/
def Signal.weight : Signal → Nat
  | .started child => child.weight
  | _ => 0

/-- A step ends the process or the thread, or no more than so much weight is left. -/
def Leaves (n : Nat) (x : World × Signal) : Prop :=
  x.1.process.halted = true ∨ (∃ e, x.2 = .ended e) ∨ x.1.thread.weight + x.2.weight ≤ n

theorem Leaves.mono {n m : Nat} {x : World × Signal} (leaves : Leaves n x) (le : n ≤ m) :
    Leaves m x :=
  leaves.imp id (Or.imp id (Nat.le_trans · le))

theorem endDemo_weight (w : World) (d : Demo) (panic : Option Payload) :
    (w.endDemo d panic).thread.weight ≤ w.thread.weight := by
  unfold endDemo
  simp only [emit_thread]
  exact release_weight (w.onThread fun t => t.clearSlot .own) _

/-- Going on with fewer frames. -/
theorem goOn_weight (w : World) (k : List Frame) :
    (w.goOn k).thread.weight + Frame.weights w.thread.frames =
      w.thread.weight + Frame.weights k := by
  simp only [goOn, onThread, Thread.weight, Thread.goOn]
  omega

/-- Leaving frames makes no thread heavier. -/
theorem goOn_weight_le {k : List Frame} (suffix : k <:+ w.thread.frames) :
    (w.goOn k).thread.weight ≤ w.thread.weight := by
  have less := Frame.weights_suffix suffix
  have change := w.goOn_weight k
  omega

theorem finish_leaves (w : World) (id : FiberId) (tag : Option String) (keep : List FiberId)
    (e : Finish) :
    Leaves (w.thread.weight - Frame.weights w.thread.frames) (w.finish id tag keep e, .running) := by
  rcases w.finish_weight id tag keep e with halted | less
  · exact .inl halted
  · refine .inr (.inr ?_)
    simp only [Signal.weight]
    omega

theorem unwind_leaves (w : World) (p : Payload) : Leaves w.thread.weight (w.unwind p) := by
  have suffix : (w.thread.frames.dropWhile fun f => !f.stopsPanic) <:+ w.thread.frames :=
    List.dropWhile_suffix _
  unfold unwind
  generalize (w.thread.frames.dropWhile fun f => !f.stopsPanic) = k' at suffix
  have below : ∀ {fr k}, k' = fr :: k → (w.goOn k).thread.weight ≤ w.thread.weight := by
    rintro fr k rfl
    exact goOn_weight_le ((List.suffix_cons fr k).trans suffix)
  split
  · refine .inr (.inr ?_)
    rw [emit_thread]
    exact below rfl
  · exact .inr (.inr (Nat.le_trans (endDemo_weight _ _ _) (below rfl)))
  · exact (w.finish_leaves _ _ _ _).mono (Nat.sub_le _ _)
  · exact .inr (.inl ⟨_, rfl⟩)

theorem leave_leaves (w : World) (v : Datum) : Leaves w.thread.weight (w.leave v) := by
  unfold leave
  split
  · exact (w.finish_leaves _ _ _ _).mono (Nat.sub_le _ _)
  · exact .inr (.inl ⟨_, rfl⟩)

theorem conclude_leaves (w : World) (name : String) (reply : Reply) :
    Leaves w.thread.weight (w.conclude name reply) := by
  unfold conclude
  split
  · refine .inr (.inr ?_)
    rw [emit_thread]
    exact Nat.le_refl _
  · split
    · exact .inr (.inr (Nat.le_refl _))
    · exact w.unwind_leaves _

/-- What is done after a request brings nothing. -/
theorem settle_leaves {n : Nat} {x : World × Outcome} (name : String) (brings : Brings n w x) :
    Leaves (w.thread.weight + n) (settle name x) := by
  obtain ⟨v, o⟩ := x
  have kept : v.thread.weight ≤ w.thread.weight + n := Nat.le_trans (Nat.le_add_right _ _) brings
  cases o with
  | done reply => exact (v.conclude_leaves name reply).mono kept
  | panicked p => exact (v.unwind_leaves p).mono kept
  | left d => exact (v.leave_leaves d).mono kept
  | next | aborted | started child => exact .inr (.inr brings)

/-- Fewer frames of the same body, with the operation that waits above them gone. -/
theorem sound_goOn {others : List FiberId} {r : Option FiberId} {h : List FiberId}
    {k : List Frame} (sound : Stage.Sound others ⟨w, r, .exec, h⟩)
    (base : k.getLast? = w.thread.frames.getLast?) :
    Stage.Sound others ⟨w.goOn k, r, .exec, h⟩ := by
  have went : Leads (fun _ => True) ⟨w, r, .exec, h⟩ ⟨w.goOn k, r, .exec, h⟩ := .move (.goOn k base)
  exact went.sound sound

/-- A step makes a thread lighter, ends it or ends the process. -/
theorem step_leaves {others : List FiberId} {r : Option FiberId}
    (sound : Stage.Sound others (w.stage r)) (ready : w.thread.Ready r) :
    Leaves (w.thread.weight - 1) w.step := by
  have lighter : ∀ {k n}, Frame.weights k + n + 1 ≤ Frame.weights w.thread.frames →
      (w.goOn k).thread.weight + n ≤ w.thread.weight - 1 := by
    intro k n less
    have change := w.goOn_weight k
    omega
  have moved : ∀ {k}, Frame.weights k + 1 ≤ Frame.weights w.thread.frames →
      Leaves (w.thread.weight - 1) (w.goOn k, .running) := fun less =>
    .inr (.inr (lighter (n := 0) less))
  have last : ∀ (fr : Frame) {k : List Frame}, k ≠ [] → (fr :: k).getLast? = k.getLast? :=
    fun _ _ ne => List.getLast?_cons_of_ne_nil ne
  cases ready with
  | @behind p k frames body home =>
    have base : k.getLast? = w.thread.frames.getLast? := by rw [frames, last _ body.ne_nil]
    have brought := carryOn_brings (sound_goOn sound base) p
    simp only [step, frames]
    refine (settle_leaves p.name brought).mono (lighter ?_)
    rw [frames, Frame.weights_cons, Frame.weight]
    omega
  | body body =>
    generalize frames : w.thread.frames = k at body
    cases body with
    | script =>
      simp only [step, frames]
      exact .inr (.inl ⟨_, rfl⟩)
    | task f tag keep =>
      simp only [step, frames]
      refine (w.finish_leaves f tag keep (.returned .null)).mono ?_
      rw [frames]
      exact Nat.le_refl _
    | @inner _ fr k hfr rest =>
      have weights : Frame.weights w.thread.frames = fr.weight + Frame.weights k := by
        rw [frames, Frame.weights_cons]
      cases fr with
      | ops ops =>
        cases ops with
        | nil =>
          simp only [step, frames]
          refine moved ?_
          simp only [weights, Frame.weight, Op.weightAll]
          omega
        | cons op ops =>
          have base : (Frame.ops ops :: k).getLast? = w.thread.frames.getLast? := by
            rw [frames, last _ rest.ne_nil, last _ rest.ne_nil]
          have brought := perform_brings (sound_goOn sound base) op
          have pos := op.weight_pos
          simp only [step, frames]
          refine (settle_leaves op.name brought).mono (lighter ?_)
          simp only [weights, Frame.weights_cons, Frame.weight, Op.weightAll]
          omega
      | loop times ops =>
        cases times with
        | zero =>
          simp only [step, frames]
          refine moved ?_
          simp only [weights, Frame.weight]
          omega
        | succ n =>
          simp only [step, frames]
          refine moved ?_
          simp only [weights, Frame.weights_cons, Frame.weight, Nat.succ_mul]
          omega
      | catching =>
        simp only [step, frames]
        refine (conclude_leaves _ _ _).mono (lighter (n := 0) ?_)
        simp only [weights, Frame.weight]
        omega
      | program d =>
        simp only [step, frames]
        refine .inr (.inr (Nat.le_trans (endDemo_weight _ d none) (lighter (n := 0) ?_)))
        simp only [weights, Frame.weight]
        omega
      | waiting p => cases hfr
      | task f tag keep => cases hfr
      | script => cases hfr

end World

/-! ## 7. Machines -/

namespace Machine

variable {m : Machine}

/-- What is still to run on all threads. -/
def weight (m : Machine) : Nat :=
  m.world.thread.weight + total Thread.weight m.spawners

theorem hear_weight (t : Thread) (e : Ending) : (hear t e).weight = t.weight := by
  unfold hear
  split
  · rename_i eq
    simp only [Thread.weight, Thread.goOn, eq, Frame.weights_cons, Frame.weight]
  · rfl

theorem thread_weight_pos (t : Thread) : 0 < t.weight := by
  unfold Thread.weight
  omega

/-- The end of a thread leaves only the others. -/
theorem finishThread_lighter (m : Machine) (w : World) (e : Ending) :
    (finishThread { m with world := w } e).done = true ∨
      (finishThread { m with world := w } e).weight < m.weight := by
  have pos := thread_weight_pos m.world.thread
  unfold finishThread
  split
  · exact .inl rfl
  · rename_i parent rest eq
    have eq : m.spawners = parent :: rest := eq
    right
    simp only [weight, eq, hear_weight, total_cons]
    omega

/-- Every step makes a machine lighter or ends it. -/
theorem step_lighter (sound : m.Sound) (goes : m.done = false) :
    m.step.done = true ∨ m.step.weight < m.weight := by
  obtain ⟨r, here, ready⟩ := sound.running
  have leaves := World.step_leaves here (ready (finished_of_goes goes))
  have pos := thread_weight_pos m.world.thread
  have past : ∀ {v : Machine}, v.world.process.halted = true → v.done = true := fun halted => by
    rw [done, halted, Bool.or_true]
  unfold step
  rcases eq : m.world.step with ⟨w, _ | e | child⟩ <;> rw [eq] at leaves
  · rcases leaves with halted | ⟨_, ended⟩ | less
    · exact .inl (past halted)
    · cases ended
    · right
      simp only [weight, World.Signal.weight] at less ⊢
      omega
  · exact finishThread_lighter m w e
  · rcases leaves with halted | ⟨_, ended⟩ | less
    · exact .inl (past halted)
    · cases ended
    · right
      simp only [weight, World.Signal.weight, total_cons] at less ⊢
      omega

/-- After so many steps a run is done, or lighter by as much. -/
theorem Sound.steps_lighter (sound : m.Sound) (n : Nat) :
    (m.steps n).done = true ∨ (m.steps n).weight + n ≤ m.weight := by
  induction n with
  | zero => exact .inr (Nat.le_refl _)
  | succ n ih =>
    cases goes : (m.steps n).done with
    | true =>
      left
      rw [steps_succ_of_done goes, goes]
    | false =>
      have less := ih.resolve_left (by simp [goes])
      have before := (sound.steps n).resolve_right (by simp [halted_of_goes goes])
      rw [steps_succ_of_goes goes]
      refine (step_lighter before goes).imp id fun lighter => ?_
      omega

/-- Every script ends, and within the steps that `run` makes. -/
theorem run_done (level : Option Level) (hook : ReportHook) (script : List Op) :
    ((start level hook script).steps (budget script)).done = true := by
  have whole : (start level hook script).weight = Op.weightAll script + 2 := by
    simp [weight, start, Thread.weight, Thread.start, Frame.weight]
    omega
  refine ((start_sound level hook script).steps_lighter (budget script)).resolve_right ?_
  unfold budget
  omega

end Machine

end FiberEngine
