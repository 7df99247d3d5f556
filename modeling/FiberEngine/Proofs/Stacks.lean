/-
FiberEngine.Proofs.Stacks — every block that is handed out is accounted for.

A task gets one block when it is created and keeps it until it is destroyed. Then
the block is given back, once, while no code is on it: `Rents` says so of the acts
about a fiber. A `Diary` tells the acts of a run apart by the thread that they
were done in, and each thread keeps a ledger: what it has handed out and not got
back belongs to its live fibers or was handed out to its script.

The main statement is `Machine.stacks_conserved`.
-/
import FiberEngine.Proofs.Ledgers
import FiberEngine.Proofs.Lifecycle

namespace FiberEngine

/-! ## 1. The block of a task -/

/-- What has become of the block of a fiber. -/
inductive Tenancy where
  /-- The fiber has no block. -/
  | vacant
  | held (lease : StackLease)
  /-- The fiber is destroyed, but its block is not given back. -/
  | due (lease : StackLease)
  | closed

/-- An act about a fiber that neither hands out its block nor gives it back. -/
def Act.sparesBlock : Act → Bool
  | .equipped .. | .destroyed .. | .returned .. => false
  | _ => true

/-- What may happen to the block of a fiber. -/
inductive Tenancy.Turns (id : FiberId) : Tenancy → Act → Tenancy → Prop
  | taken (lease : StackLease) (cb : Callback) :
    Turns id .vacant (.equipped id lease cb) (.held lease)
  /-- The block stays with the fiber, whatever else happens to the fiber. -/
  | spared {s : Tenancy} {act : Act} (about : act.subject? = some id) (spares : act.sparesBlock) :
    Turns id s act s
  /-- The fiber is destroyed while no code is on the block. -/
  | left (lease : StackLease) {last : FiberState} (can : last.canReset) :
    Turns id (.held lease) (.destroyed id last) (.due lease)
  /-- The block is given back while another fiber is current, or none. -/
  | returned (lease : StackLease) {current : Option FiberId} (apart : current ≠ some id) :
    Turns id (.due lease) (.returned id lease current) .closed
  /-- A main fiber is destroyed. -/
  | parted : Turns id .vacant (.destroyed id .exec) .closed

/-- What has become of the block of a fiber by some acts. -/
abbrev Rents (id : FiberId) : List Act → Tenancy → Prop :=
  Course id (Tenancy.Turns id) .vacant

/-- The block of a fiber in a phase. -/
def Phase.tenancy : Phase → Tenancy
  | .unborn | .main => .vacant
  | .waiting lease _ | .running lease _ | .parked lease _ _ | .ending lease | .finished lease _ =>
    .held lease
  | .dead lease _ => .due lease
  | .orphaned _ | .gone => .closed

variable {id : FiberId} {acts more : List Act} {phase next : Phase} {act : Act}

theorem Phase.Turns.tenancy (turns : phase.Turns id act next) :
    phase.tenancy.Turns id act next.tenancy := by
  cases turns with
  | equipped lease cb => exact .taken lease cb
  | unused lease => exact .left lease rfl
  | used lease terminal => exact .left lease (FiberState.canReset_of_terminal terminal)
  | returned lease apart => exact .returned lease apart
  | bereft lease cb apart => exact .returned lease apart
  | parted => exact .parted
  | _ => exact .spared rfl rfl

theorem Life.rents (life : Life id acts phase) : Rents id acts phase.tenancy :=
  life.map Phase.tenancy Phase.Turns.tenancy

/-- A fiber that is alive has the block that it was equipped with. -/
theorem Fiber.In.tenancy {base : Option Frame} {f : Fiber} (looks : f.In base phase) :
    phase.tenancy = f.lease.elim .vacant .held := by
  cases looks with
  | main noStack => rw [noStack]; rfl
  | waiting onStack | running onStack | parked onStack | finished onStack => rw [onStack]; rfl

theorem Tenancy.orderly (id : FiberId) : Orderly id (Tenancy.Turns id) where
  unique {s next next' act} turns turns' := by
    generalize same : act = act' at turns'
    cases turns with
    | spared about spares => cases turns' <;> subst same <;> first | rfl | cases spares
    | _ => cases turns' <;> cases same <;> first | rfl | (rename_i spares; cases spares)
  subject turns := by cases turns <;> first | rfl | assumption

/-! ## 2. Diaries -/

/-- The acts of a run, thread by thread: those of the thread that runs, those of the
threads that wait for it, innermost first, and those of the threads that have ended,
each with the fibers that it has left behind. -/
structure Diary where
  running : List Act
  waiting : List (List Act)
  ended : List (List Act × List Fiber)

namespace Diary

/-- All acts. -/
def all (d : Diary) : List Act :=
  d.ended.flatMap Prod.fst ++ d.waiting.flatten ++ d.running

/-- The acts of a step are those of the thread that runs. It may start another thread
then, or end. -/
def turn (d : Diary) (acts : List Act) (m v : Machine) : Diary :=
  if m.spawners.length < v.spawners.length then
    { d with running := [], waiting := (d.running ++ acts) :: d.waiting }
  else if v.spawners.length < m.spawners.length then
    { running := d.waiting.headD []
      waiting := d.waiting.tail
      ended := d.ended ++ [(d.running ++ acts,
        v.world.process.leaked.drop m.world.process.leaked.length)] }
  else { d with running := d.running ++ acts }

variable {d : Diary} {m v : Machine}

theorem turn_on (same : v.spawners = m.spawners) :
    d.turn acts m v = { d with running := d.running ++ acts } := by
  simp [turn, same]

theorem turn_started {t : Thread} (started : v.spawners = t :: m.spawners) :
    d.turn acts m v = { d with running := [], waiting := (d.running ++ acts) :: d.waiting } := by
  simp [turn, started]

theorem turn_ended {t : Thread} {left : List Fiber} {first : List Act} {rest : List (List Act)}
    (ended : m.spawners = t :: v.spawners) (waiting : d.waiting = first :: rest)
    (leaked : v.world.process.leaked = m.world.process.leaked ++ left) :
    d.turn acts m v = ⟨first, rest, d.ended ++ [(d.running ++ acts, left)]⟩ := by
  simp [turn, ended, waiting, leaked]

end Diary

/-- Every act of a step is told in the diary. -/
theorem Diary.turn_all (d : Diary) (acts : List Act) (m v : Machine) :
    (d.turn acts m v).all.Perm (d.all ++ acts) := by
  unfold turn
  split
  · have moved : (d.running ++ acts ++ d.waiting.flatten).Perm
        (d.waiting.flatten ++ (d.running ++ acts)) := List.perm_append_comm
    simpa [all] using moved.append_left (d.ended.flatMap Prod.fst)
  · split
    · have moved : (d.running ++ acts ++ (d.waiting.tail.flatten ++ d.waiting.headD [])).Perm
          (d.waiting.flatten ++ (d.running ++ acts)) := by
        refine List.perm_append_comm.trans (.append_right _ ?_)
        cases d.waiting with
        | nil => exact .nil
        | cons first rest => exact List.perm_append_comm
      simpa [all] using moved.append_left (d.ended.flatMap Prod.fst)
    · simp [all]

/-- At the end of a thread no block is handed out or given back. -/
theorem World.parting_blockless (w : World) : Blockless w.parting := by
  unfold parting
  split
  · split <;> exact ⟨rfl, rfl, rfl, rfl⟩
  · exact ⟨rfl, rfl, rfl, rfl⟩

namespace Machine

/-- The first steps of a machine, with what they do and what each thread does. -/
inductive Records (m : Machine) : Nat → List Act → Diary → Prop
  | begin : Records m 0 [] ⟨[], [], []⟩
  | next {n : Nat} {acts more : List Act} {d : Diary} (records : Records m n acts d)
    (goes : (m.steps n).done = false)
    (does : Does (m.steps n).world.MayReport (m.steps n) more (m.steps (n + 1))) :
    Records m (n + 1) (acts ++ more) (d.turn more (m.steps n) (m.steps (n + 1)))
  | still {n : Nat} {acts : List Act} {d : Diary} (records : Records m n acts d)
    (done : (m.steps n).done = true) : Records m (n + 1) acts d

/-- What is recorded is the story of the run. -/
theorem Records.story {m : Machine} {n : Nat} {d : Diary} (records : Records m n acts d) :
    Story m n acts := by
  induction records with
  | begin => exact .begin
  | next records goes does ih => exact ih.next goes does
  | still records done ih => exact ih.still done

/-- Every act belongs to one thread. -/
theorem Records.perm {m : Machine} {n : Nat} {d : Diary} (records : Records m n acts d) :
    acts.Perm d.all := by
  induction records with
  | begin => exact .nil
  | next records goes does ih => exact (ih.append_right _).trans (Diary.turn_all ..).symm
  | still records done ih => exact ih

/-- Every story is recorded. -/
theorem Story.records {m : Machine} {n : Nat} (story : Story m n acts) :
    ∃ d, Records m n acts d := by
  induction story with
  | begin => exact ⟨_, .begin⟩
  | next story goes does ih =>
    obtain ⟨d, records⟩ := ih
    exact ⟨_, records.next goes does⟩
  | still story done ih =>
    obtain ⟨d, records⟩ := ih
    exact ⟨d, records.still done⟩

/-! ## 3. Audits -/

/-- The ledgers of all threads: of the one that runs, of those that wait, and of those
that have ended, as they stood then. -/
structure Audited (m : Machine) (d : Diary) : Prop where
  waiting : d.waiting.length = m.spawners.length
  running : Ledger d.running m.world.thread
  ledgers : ∀ p ∈ d.waiting.zip m.spawners, Ledger p.1 p.2
  ended : ∀ p ∈ d.ended, ∃ t, t.fibers = p.2 ∧ Ledger p.1 t
  leaked : m.world.process.leaked = d.ended.flatMap Prod.snd

variable {texts : String → Prop} {m v : Machine} {d : Diary}

theorem start_audited (level : Option Level) (hook : ReportHook) (script : List Op) :
    (start level hook script).Audited ⟨[], [], []⟩ where
  waiting := rfl
  running := .start ..
  ledgers p mem := by cases mem
  ended p mem := by cases mem
  leaked := rfl

/-- Unless it ends the process, a step keeps the ledgers. -/
theorem Does.audited (does : Does texts m acts v) (sound : m.stage.Sound m.others)
    (audited : m.Audited d) (goes : v.world.process.halted = false) :
    v.Audited (d.turn acts m v) := by
  cases does with
  | @on w r acts path =>
    rw [Diary.turn_on (by rfl)]
    exact { audited with
      running := path.ledger sound audited.running
      leaked := (leaked_of_path path sound).trans audited.leaked }
  | fallen path halted nextId disposed => cases halted.symm.trans goes
  | @finished w e acts path =>
    rw [Diary.turn_on (by rfl)]
    exact { audited with
      running := path.ledger sound audited.running
      leaked := (leaked_of_path path sound).trans audited.leaked }
  | @returned w e parent rest acts path waiting =>
    obtain ⟨gone, new, retires⟩ :=
      World.retire_retires (path.sound sound) (World.releaseSlots_slots w)
    have leaked : w.releaseSlots.retire.process.leaked = m.world.process.leaked ++ gone := by
      rw [retires.leaked]
      exact congrArg (· ++ gone) (leaked_of_path path sound)
    obtain ⟨first, others, shape⟩ : ∃ first others, d.waiting = first :: others := by
      have length := audited.waiting
      rw [waiting] at length
      exact List.exists_cons_of_length_eq_add_one length
    have ledgers := audited.ledgers
    have length := audited.waiting
    rw [shape, waiting] at length ledgers
    rw [Diary.turn_ended (t := parent) (by exact waiting) shape (by exact leaked)]
    have last : Ledger (d.running ++ (acts ++ w.releaseSlots.parting))
        { w.releaseSlots.thread with fibers := gone } := by
      rw [← List.append_assoc]
      exact (path.ledger sound audited.running).keep w.releaseSlots.parting_blockless
        retires.leases ⟨rfl, rfl, rfl, rfl, rfl⟩
    have heard : Ledger (first ++ []) (hear parent e) := by
      refine (ledgers (first, parent) (by simp)).keep ⟨rfl, rfl, rfl, rfl⟩ (.of_eq ?_) ?_
      · exact congrArg (List.filterMap Fiber.lease) (hear_fibers parent e)
      · unfold hear
        split <;> exact ⟨rfl, rfl, rfl, rfl, rfl⟩
    rw [List.append_nil] at heard
    refine ⟨Nat.succ.inj length, heard, fun p mem => ?_, fun p mem => ?_, ?_⟩
    · exact ledgers p (List.mem_cons_of_mem _ mem)
    · rcases List.mem_append.mp mem with before | new
      · exact audited.ended p before
      · rw [List.mem_singleton.mp new]
        exact ⟨_, rfl, last⟩
    · simp [leaked, audited.leaked]
  | @started w r kind ops acts path =>
    rw [Diary.turn_started (by rfl)]
    refine ⟨?_, ?_, fun p mem => ?_, audited.ended, ?_⟩
    · simp [audited.waiting]
    · cases kind <;> exact .start ..
    · rcases List.mem_cons.mp mem with rfl | mem
      · exact path.ledger sound audited.running
      · exact audited.ledgers p mem
    · exact (leaked_of_path path sound).trans audited.leaked

end Machine

/-! ## 4. Creating a task -/

namespace World

variable {w : World}

/-- The block that a request for a new fiber takes: a new one for the fiber, or none. -/
def TakesBlock (w : World) (a : Allocator) (cb : Callback) (v : World) :
    Except Refusal FiberId → Prop
  | .ok id => v.thread.nextBase = w.thread.nextBase + 1 ∧
      ∃ f lease, v.thread.fiber? id = some f ∧ f.lease = some lease ∧ lease.allocator = a ∧
        lease.base = w.thread.nextBase
  | .error _ => ∃ u : World, u.thread.nextBase = w.thread.nextBase ∧
      u.thread.guarded = w.thread.guarded ∧ v = u.dropCallback cb.tag cb.keep

theorem createTask_block {others h : List FiberId} {r : Option FiberId} {a : Allocator}
    {asked : Nat} {cb : Callback} {v : World} {result : Except Refusal FiberId}
    (sound : Stage.Sound others ⟨w, r, .exec, cb.keep ++ h⟩)
    (answer : w.createTask a asked cb = (v, result)) : w.TakesBlock a cb v result := by
  cases result with
  | ok id =>
    obtain ⟨-, nextBase, lease, own, base, found⟩ := createTask_new sound answer
    exact ⟨nextBase, _, lease, found, rfl, own, base⟩
  | error why =>
    obtain ⟨u, stock, dropped⟩ := createTask_none answer
    exact ⟨u, stock.nextBase, stock.guarded, dropped⟩

end World

namespace Machine

/-! ## 5. Runs -/

section

variable {level : Option Level} {hook : ReportHook} {script : List Op} {n : Nat}

theorem Records.audited (records : Records (start level hook script) n acts d)
    (goes : ((start level hook script).steps n).world.process.halted = false) :
    ((start level hook script).steps n).Audited d := by
  induction records with
  | begin => exact start_audited level hook script
  | next records before does ih =>
    exact does.audited (stage_sound before) (ih (halted_of_goes before)) goes
  | still records done ih =>
    rw [steps_succ_of_done done] at goes ⊢
    exact ih goes

/-- Every task has one block as long as it is alive, and the block is given back once,
when the task is destroyed. In every thread, what an allocator has handed out and not
got back belongs to its live fibers or was handed out to its script and not freed. To
create a task takes one block, and none if that fails. -/
theorem stacks_conserved (level : Option Level) (hook : ReportHook) (script : List Op) (n : Nat) :
    let m := (start level hook script).steps n
    ((∃ acts d, Records (start level hook script) n acts d) ∧
      ∀ acts d, Records (start level hook script) n acts d →
        acts.Perm d.all ∧
        (∀ id, 0 < id → ∃ s, Rents id acts s ∧ (∀ s', Rents id acts s' → s' = s) ∧
          ∀ lease, s ≠ .due lease) ∧
        (m.world.process.halted = false →
          (∀ p ∈ m.places, Rents p.2.id acts (p.2.lease.elim .vacant .held)) ∧
          d.waiting.length = m.spawners.length ∧
          (∀ p ∈ (d.running, m.world.thread) :: d.waiting.zip m.spawners, Conserves p.1 p.2) ∧
          m.world.process.leaked = d.ended.flatMap Prod.snd ∧
          ∀ p ∈ d.ended, ∃ t, t.fibers = p.2 ∧ Conserves p.1 t)) ∧
    ∀ others w r h cb a asked, Stage.Sound others ⟨w, r, .exec, cb.keep ++ h⟩ →
      w.TakesBlock a cb (w.createTask a asked cb).1 (w.createTask a asked cb).2 := by
  intro m
  refine ⟨⟨?_, fun acts d records => ⟨records.perm, fun id first => ?_, fun going => ?_⟩⟩, ?_⟩
  · obtain ⟨acts, story⟩ := steps_story level hook script n
    obtain ⟨d, records⟩ := story.records
    exact ⟨acts, d, records⟩
  · obtain ⟨phase, life, lasts⟩ := records.story.begins first
    refine ⟨phase.tenancy, life.rents, fun s rents => rents.unique (Tenancy.orderly id) life.rents,
      fun lease due => ?_⟩
    cases phase <;> simp_all [Phase.lasts, Phase.tenancy]
  · have audited := records.audited going
    refine ⟨fun p mem => ?_, audited.waiting, ?_, audited.leaked, fun p mem => ?_⟩
    · obtain ⟨phase, life, looks⟩ := (records.story.lived going).alive p mem
      rw [← looks.tenancy]
      exact life.rents
    · intro p mem
      rcases List.mem_cons.mp mem with rfl | mem
      · exact audited.running.conserves
      · exact (audited.ledgers p mem).conserves
    · obtain ⟨t, left, ledger⟩ := audited.ended p mem
      exact ⟨t, left, ledger.conserves⟩
  · intro others w r h cb a asked sound
    exact World.createTask_block sound rfl

end

end Machine

end FiberEngine
