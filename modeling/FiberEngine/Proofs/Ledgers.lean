/-
FiberEngine.Proofs.Ledgers — which blocks of a thread are out.

A thread hands out blocks, each at a base that was not used before: to the tasks
that it creates, for their stacks, and to its script. It gets a block back when a
task ends, or when the script frees one. `Ledger acts t` says what these acts
tell of a thread: the blocks that were handed out for stacks are those of the
fibers that are alive and those that were returned, each once.

The main statements are `Path.ledger`, by which every operation keeps the ledger,
and `Ledger.conserves`: what is out belongs to live fibers or to the script.
-/
import FiberEngine.Proofs.Sound

namespace FiberEngine

/-! ## 1. Acts on blocks -/

/-- The block that is handed out for the stack of a task. -/
def Act.leased? : Act → Option StackLease
  | .equipped _ lease _ => some lease
  | _ => none

/-- The block that is handed out to the script. -/
def Act.granted? : Act → Option StackLease
  | .granted lease => some lease
  | _ => none

/-- The block that is given back with the end of a task. -/
def Act.returned? : Act → Option StackLease
  | .returned _ lease _ => some lease
  | _ => none

/-- The block that the script gives back. -/
def Act.freed? : Act → Option StackLease
  | .freed lease => some lease
  | _ => none

/-- The blocks that some acts hand out, in order. -/
def handedOut (acts : List Act) : List StackLease :=
  acts.filterMap fun act => act.leased?.or act.granted?

/-- The blocks that some acts give back, in order. -/
def givenBack (acts : List Act) : List StackLease :=
  acts.filterMap fun act => act.returned?.or act.freed?

/-- The blocks of an allocator that are out. -/
def outstanding (a : Allocator) (acts : List Act) : List StackLease :=
  (handedOut acts).filter fun lease => lease.allocator = a ∧ lease ∉ givenBack acts

/-- The base of the block of a lease. -/
def StackLease.base (lease : StackLease) : Nat :=
  lease.block.base

/-- The acts hand out no block and give none back. -/
structure Blockless (acts : List Act) : Prop where
  handedOut : handedOut acts = []
  givenBack : givenBack acts = []
  leased : acts.filterMap Act.leased? = []
  returned : acts.filterMap Act.returned? = []

theorem handedOut_append (acts more : List Act) :
    handedOut (acts ++ more) = handedOut acts ++ handedOut more :=
  List.filterMap_append

theorem givenBack_append (acts more : List Act) :
    givenBack (acts ++ more) = givenBack acts ++ givenBack more :=
  List.filterMap_append

/-- What is found in one of two ways, of which one applies at most. -/
theorem filterMap_or_perm {α β : Type} {f g : α → Option β} {xs : List α}
    (apart : ∀ x ∈ xs, f x = none ∨ g x = none) :
    (xs.filterMap fun x => (f x).or (g x)).Perm (xs.filterMap f ++ xs.filterMap g) := by
  induction xs with
  | nil => exact .nil
  | cons x xs ih =>
    have ih := ih fun y mem => apart y (List.mem_cons_of_mem _ mem)
    cases hf : f x with
    | none =>
      cases hg : g x with
      | none => simpa [hf, hg] using ih
      | some y => simpa [hf, hg] using (ih.cons y).trans List.perm_middle.symm
    | some y =>
      have hg : g x = none := (apart x List.mem_cons_self).resolve_left (by simp [hf])
      simpa [hf, hg] using ih

theorem handedOut_perm (acts : List Act) :
    (handedOut acts).Perm (acts.filterMap Act.leased? ++ acts.filterMap Act.granted?) := by
  refine filterMap_or_perm fun act _ => ?_
  cases act <;> simp [Act.leased?, Act.granted?]

theorem givenBack_perm (acts : List Act) :
    (givenBack acts).Perm (acts.filterMap Act.returned? ++ acts.filterMap Act.freed?) := by
  refine filterMap_or_perm fun act _ => ?_
  cases act <;> simp [Act.returned?, Act.freed?]

theorem mem_outstanding {a : Allocator} {acts : List Act} {lease : StackLease} :
    lease ∈ outstanding a acts ↔
      lease ∈ handedOut acts ∧ lease.allocator = a ∧ lease ∉ givenBack acts := by
  simp [outstanding]

/-- When a block is given back, it is not out any more. -/
theorem outstanding_append {acts more : List Act} {lease : StackLease} (a : Allocator)
    (handed : handedOut more = []) (back : givenBack more = [lease]) :
    outstanding a (acts ++ more) = (outstanding a acts).filter (· ≠ lease) := by
  rw [outstanding, outstanding, handedOut_append, givenBack_append, handed, back, List.append_nil,
    List.filter_filter]
  refine List.filter_congr fun l _ => ?_
  by_cases l = lease <;> simp_all

/-! ## 2. Ledgers -/

/-- The blocks on which the fibers of a thread run. -/
def Thread.leases (t : Thread) : List StackLease :=
  t.fibers.filterMap Fiber.lease

/-- What the acts of a thread tell about its blocks. -/
structure Ledger (acts : List Act) (t : Thread) : Prop where
  /-- Each block that is handed out has the next base. -/
  bases : (handedOut acts).map StackLease.base = List.range t.nextBase
  /-- The block of a task is its own as long as it is alive, and is returned then. -/
  leases : (acts.filterMap Act.leased?).Perm (t.leases ++ acts.filterMap Act.returned?)
  /-- Only blocks that were handed out are kept, and only such are given back. -/
  kept : ∀ b ∈ t.blocks, b.2 ∈ (handedOut acts).map StackLease.block
  known : ∀ lease ∈ givenBack acts, lease.block ∈ (handedOut acts).map StackLease.block
  guarded : t.guarded = ((outstanding .guarded acts).map StackLease.base).reverse
  counting : t.counting.deallocs = (givenBack acts).countP fun lease => lease.allocator = .counting
  doubling : t.doubling.deallocs = (givenBack acts).countP fun lease => lease.allocator = .doubling

namespace Thread

variable (t : Thread) (lease : StackLease)

@[simp]
theorem takeBack_blocks : (t.takeBack lease).blocks = t.blocks := by
  unfold takeBack; split <;> rfl

@[simp]
theorem takeBack_nextBase : (t.takeBack lease).nextBase = t.nextBase := by
  unfold takeBack; split <;> rfl

theorem takeBack_guarded : (t.takeBack lease).guarded =
    if lease.allocator = .guarded then t.guarded.filter (· != lease.base) else t.guarded := by
  unfold takeBack; split <;> simp_all [StackLease.base]

theorem takeBack_counting : (t.takeBack lease).counting.deallocs =
    t.counting.deallocs + [lease].countP fun lease => lease.allocator = .counting := by
  unfold takeBack; split <;> simp_all

theorem takeBack_doubling : (t.takeBack lease).doubling.deallocs =
    t.doubling.deallocs + [lease].countP fun lease => lease.allocator = .doubling := by
  unfold takeBack; split <;> simp_all

theorem leases_update (id : FiberId) (c : Fiber → Fiber) (keeps : ∀ f, (c f).lease = f.lease) :
    (t.update id c).leases = t.leases := by
  simp only [leases, update, List.filterMap_map]
  congr 1
  funext f
  simp only [Function.comp]
  split
  · exact keeps f
  · rfl

theorem leases_crossed {t t' : Thread} {task main : FiberId} {c d : Fiber → Fiber}
    (fibers : t'.fibers = t.fibers.map (Sound.crossed task main c d))
    (hc : ∀ x, (c x).lease = x.lease) (hd : ∀ x, (d x).lease = x.lease) :
    t'.leases = t.leases := by
  rw [leases, fibers, List.filterMap_map]
  congr 1
  funext x
  simp only [Function.comp, Sound.crossed]
  split
  · exact hc x
  · split
    · exact hd x
    · rfl

/-- When a fiber is taken out, its block is. -/
theorem leases_erase {t : Thread} {id : FiberId} {f : Fiber} (distinct : t.Distinct)
    (found : t.fiber? id = some f) : t.leases.Perm (f.lease.toList ++ (t.erase id).leases) := by
  have whole := (fibers_perm distinct found).filterMap Fiber.lease
  cases onStack : f.lease with
  | none => simpa [onStack, leases] using whole
  | some lease => simpa [onStack, leases] using whole

end Thread

namespace Ledger

variable {acts more : List Act} {t u : Thread}

/-- A thread that has not done anything. -/
theorem start (setName ownName span : Option String) (script : List Op) :
    Ledger [] (.start setName ownName span script) where
  bases := rfl
  leases := .nil
  kept := by simp [Thread.start]
  known := by simp [FiberEngine.givenBack]
  guarded := rfl
  counting := rfl
  doubling := rfl

/-- No block is handed out twice. -/
theorem distinct (h : Ledger acts t) {l l' : StackLease} (mem : l ∈ handedOut acts)
    (mem' : l' ∈ handedOut acts) (same : l.base = l'.base) : l = l' := by
  -- the base of a block is its place in the list
  have place : ∀ i (inside : i < (handedOut acts).length), (handedOut acts)[i].base = i := by
    intro i inside
    have there := congrArg (fun bases => bases[i]?) h.bases
    have length := congrArg List.length h.bases
    rw [List.length_map, List.length_range] at length
    simpa [inside, length ▸ inside] using there
  obtain ⟨i, inside, rfl⟩ := List.mem_iff_getElem.mp mem
  obtain ⟨j, inside', rfl⟩ := List.mem_iff_getElem.mp mem'
  rw [place, place] at same
  subst same
  rfl

/-- Bases that are still to come are not in use. -/
theorem base_lt (h : Ledger acts t) {l : StackLease} (mem : l ∈ handedOut acts) :
    l.base < t.nextBase := by
  have there := List.mem_map_of_mem (f := StackLease.base) mem
  rw [h.bases] at there
  exact List.mem_range.mp there

/-- The blocks stay where they are. -/
theorem keep (h : Ledger acts t) (quiet : Blockless more) (leases : u.leases.Perm t.leases)
    (same : u.SameStacks t) : Ledger (acts ++ more) u where
  bases := by rw [handedOut_append, quiet.handedOut, List.append_nil, same.nextBase, h.bases]
  leases := by
    rw [List.filterMap_append, List.filterMap_append, quiet.leased, quiet.returned,
      List.append_nil, List.append_nil]
    exact h.leases.trans (leases.symm.append_right _)
  kept := by
    rw [handedOut_append, quiet.handedOut, List.append_nil, same.blocks]
    exact h.kept
  known := by
    rw [handedOut_append, givenBack_append, quiet.handedOut, quiet.givenBack, List.append_nil,
      List.append_nil]
    exact h.known
  guarded := by
    rw [outstanding, handedOut_append, givenBack_append, quiet.handedOut, quiet.givenBack,
      List.append_nil, List.append_nil, same.guarded, h.guarded, outstanding]
  counting := by rw [givenBack_append, quiet.givenBack, List.append_nil, same.counting, h.counting]
  doubling := by rw [givenBack_append, quiet.givenBack, List.append_nil, same.doubling, h.doubling]

/-- A block is handed out, for a stack or to the script, and may be kept. -/
theorem handOut (h : Ledger acts t) {n : Nat} {a : Allocator}
    (handed : handedOut more = [⟨⟨t.nextBase, n⟩, a⟩]) (back : givenBack more = [])
    (leases : u.leases.Perm (t.leases ++ more.filterMap Act.leased?))
    (returned : more.filterMap Act.returned? = [])
    (blocks : ∀ b ∈ u.blocks, b ∈ t.blocks ∨ b.2 = ⟨t.nextBase, n⟩)
    (nextBase : u.nextBase = t.nextBase + 1)
    (guarded : u.guarded = if a = .guarded then t.nextBase :: t.guarded else t.guarded)
    (counting : u.counting.deallocs = t.counting.deallocs)
    (doubling : u.doubling.deallocs = t.doubling.deallocs) : Ledger (acts ++ more) u where
  bases := by
    rw [handedOut_append, handed, List.map_append, h.bases, nextBase, List.range_succ]
    rfl
  leases := by
    rw [List.filterMap_append, List.filterMap_append, returned, List.append_nil]
    refine (h.leases.append_right _).trans ?_
    rw [List.append_assoc]
    refine (List.perm_append_comm.append_left t.leases).trans ?_
    rw [← List.append_assoc]
    exact leases.symm.append_right _
  kept b mem := by
    rw [handedOut_append, handed, List.map_append, List.mem_append]
    rcases blocks b mem with old | new
    · exact .inl (h.kept b old)
    · exact .inr (by simp [new])
  known lease mem := by
    rw [givenBack_append, back, List.append_nil] at mem
    rw [handedOut_append, List.map_append]
    exact List.mem_append_left _ (h.known lease mem)
  guarded := by
    have fresh : (⟨⟨t.nextBase, n⟩, a⟩ : StackLease) ∉ givenBack acts := by
      intro mem
      obtain ⟨old, there, same⟩ := List.mem_map.mp (h.known _ mem)
      have below := h.base_lt there
      rw [StackLease.base, same] at below
      exact Nat.lt_irrefl _ below
    rw [guarded, outstanding, handedOut_append, givenBack_append, handed, back, List.append_nil,
      List.filter_append, h.guarded, outstanding]
    by_cases mine : a = .guarded
    · simp [mine, mine ▸ fresh, StackLease.base]
    · simp [mine]
  counting := by rw [givenBack_append, back, List.append_nil, counting, h.counting]
  doubling := by rw [givenBack_append, back, List.append_nil, doubling, h.doubling]

/-- A block is given back that was handed out. -/
theorem giveBack (h : Ledger acts t) {lease : StackLease}
    (known : lease.block ∈ (handedOut acts).map StackLease.block)
    (handed : handedOut more = []) (back : givenBack more = [lease])
    (leased : more.filterMap Act.leased? = [])
    (leases : t.leases.Perm (u.leases ++ more.filterMap Act.returned?))
    (blocks : ∀ b ∈ u.blocks, b ∈ t.blocks) (nextBase : u.nextBase = t.nextBase)
    (guarded : u.guarded = t.guarded) (counting : u.counting.deallocs = t.counting.deallocs)
    (doubling : u.doubling.deallocs = t.doubling.deallocs) :
    Ledger (acts ++ more) (u.takeBack lease) where
  bases := by
    rw [handedOut_append, handed, List.append_nil, u.takeBack_nextBase, nextBase, h.bases]
  leases := by
    have same : (u.takeBack lease).leases = u.leases :=
      congrArg (List.filterMap Fiber.lease) (u.takeBack_fibers lease)
    rw [List.filterMap_append, List.filterMap_append, leased, List.append_nil, same]
    refine (h.leases.trans (leases.append_right _)).trans ?_
    rw [List.append_assoc]
    exact List.perm_append_comm.append_left _
  kept b mem := by
    rw [handedOut_append, handed, List.append_nil]
    rw [u.takeBack_blocks] at mem
    exact h.kept b (blocks b mem)
  known l mem := by
    rw [handedOut_append, handed, List.append_nil]
    rw [givenBack_append, back, List.mem_append, List.mem_singleton] at mem
    rcases mem with old | rfl
    · exact h.known l old
    · exact known
  guarded := by
    rw [outstanding_append .guarded handed back, u.takeBack_guarded, guarded, h.guarded]
    split
    · rename_i mine
      rw [List.filter_reverse, List.filter_map]
      congr 2
      refine List.filter_congr fun l mem => ?_
      obtain ⟨there, guarded, -⟩ := mem_outstanding.mp mem
      have one : l.base = lease.base → l = lease := by
        intro same
        obtain ⟨l', there', block⟩ := List.mem_map.mp known
        have base : l'.base = lease.base := congrArg Block.base block
        obtain rfl := h.distinct there there' (same.trans base.symm)
        cases l
        cases lease
        simp_all
      by_cases same : l = lease
      · simp [same]
      · simpa [same] using fun base => same (one base)
    · rename_i other
      rw [List.filter_eq_self.mpr]
      intro l mem
      have guarded := (mem_outstanding.mp mem).2.1
      simpa using fun same : l = lease => other (same ▸ guarded)
  counting := by
    rw [u.takeBack_counting, counting, h.counting, givenBack_append, back, List.countP_append]
  doubling := by
    rw [u.takeBack_doubling, doubling, h.doubling, givenBack_append, back, List.countP_append]

/-- A block belongs to a fiber that is alive, was returned at the end of one, or was
handed out to the script, and only one of these applies. -/
theorem owners (h : Ledger acts t) : (handedOut acts).Nodup ∧ (handedOut acts).Perm
    (t.leases ++ acts.filterMap Act.granted? ++ acts.filterMap Act.returned?) := by
  constructor
  · have nodup : ((handedOut acts).map StackLease.base).Nodup := h.bases ▸ List.nodup_range
    exact (List.pairwise_map.mp nodup).imp fun apart same => apart (congrArg _ same)
  · refine ((handedOut_perm acts).trans (h.leases.append_right _)).trans ?_
    rw [List.append_assoc, List.append_assoc]
    exact List.perm_append_comm.append_left _

/-- What is out belongs to fibers that are alive or was handed out to the script, and
the script has not freed it. -/
theorem outstanding_perm (h : Ledger acts t) (a : Allocator) : (outstanding a acts).Perm
    ((t.leases ++ acts.filterMap Act.granted?).filter fun lease =>
      lease.allocator = a ∧ lease ∉ acts.filterMap Act.freed?) := by
  obtain ⟨nodup, perm⟩ := h.owners
  have apart := (List.nodup_append.mp (perm.nodup_iff.mp nodup)).2.2
  have back : ∀ lease, lease ∈ givenBack acts ↔
      lease ∈ acts.filterMap Act.returned? ∨ lease ∈ acts.filterMap Act.freed? :=
    fun lease => (givenBack_perm acts).mem_iff.trans List.mem_append
  have whole := perm.filter fun lease => lease.allocator = a ∧ lease ∉ givenBack acts
  rw [List.filter_append] at whole
  have none : ((acts.filterMap Act.returned?).filter fun lease =>
      lease.allocator = a ∧ lease ∉ givenBack acts) = [] := by
    refine List.filter_eq_nil_iff.mpr fun lease mem => ?_
    simp [(back lease).mpr (.inl mem)]
  rw [none, List.append_nil] at whole
  refine whole.trans (.of_eq (List.filter_congr fun lease mem => ?_))
  have notReturned : lease ∉ acts.filterMap Act.returned? := fun mem' => apart lease mem lease mem' rfl
  simp only [back, notReturned, false_or]

end Ledger

/-- The blocks of a thread are accounted for. -/
structure Conserves (acts : List Act) (t : Thread) : Prop where
  /-- Each block that was handed out was a new one. -/
  bases : (handedOut acts).map StackLease.base = List.range t.nextBase
  /-- It belongs to a fiber that is alive, or it was handed out to the script, or it was
  returned at the end of a fiber, and only one of these applies. -/
  nodup : (handedOut acts).Nodup
  owners : (handedOut acts).Perm
    (t.leases ++ acts.filterMap Act.granted? ++ acts.filterMap Act.returned?)
  /-- What is out belongs to fibers that are alive or was handed out to the script, and
  the script has not freed it. -/
  out : ∀ a, (outstanding a acts).Perm
    ((t.leases ++ acts.filterMap Act.granted?).filter fun lease =>
      lease.allocator = a ∧ lease ∉ acts.filterMap Act.freed?)
  /-- A script that frees only what was handed out to it leaves the blocks of the fibers
  alone. -/
  alone : acts.filterMap Act.freed? ⊆ acts.filterMap Act.granted? →
    ∀ a, (outstanding a acts).Perm
      ((t.leases.filter fun lease => lease.allocator = a) ++
        (acts.filterMap Act.granted?).filter fun lease =>
          lease.allocator = a ∧ lease ∉ acts.filterMap Act.freed?)
  /-- The guarded allocator knows the bases of its blocks that are out. -/
  guarded : t.guarded.Perm ((outstanding .guarded acts).map StackLease.base)
  /-- Allocators that count know how many blocks they got back. -/
  counting : t.counting.deallocs = (givenBack acts).countP fun lease => lease.allocator = .counting
  doubling : t.doubling.deallocs = (givenBack acts).countP fun lease => lease.allocator = .doubling

theorem Ledger.conserves {acts : List Act} {t : Thread} (h : Ledger acts t) : Conserves acts t where
  bases := h.bases
  nodup := h.owners.1
  owners := h.owners.2
  out := h.outstanding_perm
  alone own a := by
    have apart := (List.nodup_append.mp
      (List.nodup_append.mp (h.owners.2.nodup_iff.mp h.owners.1)).1).2.2
    have whole := h.outstanding_perm a
    rw [List.filter_append] at whole
    refine whole.trans (.of_eq (congrArg (· ++ _) (List.filter_congr fun lease mem => ?_)))
    have kept : lease ∉ acts.filterMap Act.freed? := fun freed =>
      apart lease mem lease (own freed) rfl
    simp only [kept, not_false_eq_true, and_true]
  guarded := by
    rw [h.guarded]
    exact List.reverse_perm _
  counting := h.counting
  doubling := h.doubling

/-! ## 3. Releases -/

section

variable {others : List FiberId} {w : World} {r : Option FiberId} {held : List FiberId}
variable {story : List Act}

/-- A fiber that ends returns its block. -/
theorem World.destroy_ledger {id : FiberId} {f : Fiber}
    (sound : Stage.Sound others ⟨w, r, .exec, id :: held⟩) (found : w.thread.fiber? id = some f)
    (last : f.handles ≤ 1) (ledger : Ledger story w.thread) :
    Ledger (story ++ f.ending w.thread.current) (w.destroy f).1.thread := by
  obtain ⟨can, lease, onStack⟩ := sound.thread.leased_last found last
  obtain rfl := Thread.id_of_fiber? found
  have erased := Thread.leases_erase sound.thread.distinct found
  have thread := (World.destroy_same (w := w) onStack can).thread
  have mine : lease ∈ handedOut story := by
    refine ledger.owners.2.mem_iff.mpr ?_
    simp [erased.mem_iff, onStack]
  have ending : f.ending w.thread.current = .destroyed f.id f.state ::
      .returned f.id lease w.thread.current ::
        (f.pending.map fun cb => .abandoned f.id cb).toList := by simp [Fiber.ending, onStack]
  rw [thread]
  refine ledger.giveBack (u := w.thread.erase f.id) (List.mem_map_of_mem mine) ?_ ?_ ?_ ?_
    (fun _ mem => mem) rfl rfl rfl rfl
  · rw [ending]
    cases f.pending <;> rfl
  · rw [ending]
    cases f.pending <;> rfl
  · rw [ending]
    cases f.pending <;> rfl
  · have returned : (f.ending w.thread.current).filterMap Act.returned? = [lease] := by
      rw [ending]
      cases f.pending <;> rfl
    rw [returned]
    rw [onStack] at erased
    exact erased.trans List.perm_append_comm

theorem World.release_ledger (ids : List FiberId)
    (sound : Stage.Sound others ⟨w, r, .exec, ids ++ held⟩) (ledger : Ledger story w.thread) :
    Ledger (story ++ w.fallout ids) (w.release ids).thread := by
  have rounds := release_rounds (P := fun v rest acts =>
    Stage.Sound others ⟨v, r, .exec, rest ++ held⟩ ∧ Ledger (story ++ acts) v.thread) w ids []
    ⟨sound, by simpa using ledger⟩ ?_ ?_ ?_
  · exact rounds.2
  · rintro v id rest acts ⟨before, kept⟩ none
    obtain ⟨f, found⟩ := before.thread.exists_of_held (by simp : id ∈ id :: rest ++ held)
    exact absurd found (by simp [none])
  · rintro v id rest acts f ⟨before, kept⟩ found last
    rw [List.append_assoc, ← List.append_assoc story]
    exact ⟨(before.destroy found last).sound, destroy_ledger before found last kept⟩
  · rintro v id rest acts f ⟨before, kept⟩ found more
    have less : Move (fun _ => True) ⟨v, r, .exec, id :: (rest ++ held)⟩ [] _ := .giveUp found more
    refine ⟨(less.follows before).sound, ?_⟩
    rw [← List.append_nil (story ++ acts)]
    exact kept.keep ⟨rfl, rfl, rfl, rfl⟩ (.of_eq (Thread.leases_update _ _ _ fun _ => rfl))
      ⟨rfl, rfl, rfl, rfl, rfl⟩

end

/-! ## 4. Moves -/

variable {texts : String → Prop} {others : List FiberId} {a b : Stage} {acts story : List Act}

theorem Move.ledger (m : Move texts a acts b) (sound : a.Sound others)
    (ledger : Ledger story a.world.thread) : Ledger (story ++ acts) b.world.thread := by
  -- most moves leave the blocks where they are
  have keep : ∀ {u : Thread}, Blockless acts → u.leases = a.world.thread.leases →
      u.SameStacks a.world.thread → Ledger (story ++ acts) u :=
    fun quiet leases same => ledger.keep quiet (.of_eq leases) same
  have same : ∀ {u : Thread}, Blockless acts → u = a.world.thread → Ledger (story ++ acts) u :=
    fun quiet eq => keep quiet (by rw [eq]) (by rw [eq]; exact ⟨rfl, rfl, rfl, rfl, rfl⟩)
  cases m with
  | regroup perm => exact same ⟨rfl, rfl, rfl, rfl⟩ rfl
  | write e plain keeps fits => exact same ⟨rfl, rfl, rfl, rfl⟩ (World.emit_same _ _).thread
  | complain text ok fits => exact same ⟨rfl, rfl, rfl, rfl⟩ rfl
  | tune p alike => exact same ⟨rfl, rfl, rfl, rfl⟩ rfl
  | equip t alike blocks =>
    exact keep ⟨rfl, rfl, rfl, rfl⟩ (congrArg (List.filterMap Fiber.lease) alike.fibers) blocks
  | goOn k same' => exact keep ⟨rfl, rfl, rfl, rfl⟩ rfl ⟨rfl, rfl, rfl, rfl, rfl⟩
  | @bearMain w held missing =>
    have thread := World.bearMain_thread (sound.current_of_missing missing) missing
    simp only [thread]
    refine keep ⟨rfl, rfl, rfl, rfl⟩ ?_ ⟨rfl, rfl, rfl, rfl, rfl⟩
    simp [Thread.leases, Thread.insert, Fiber.main]
  | @bearTask w r held a n size cb =>
    have thread := World.insertTask_thread (w.handOut a n).1 a (w.handOut a n).2 size cb
    simp only [thread]
    exact ledger.handOut (n := n) (a := a) rfl rfl (.of_eq List.filterMap_append) rfl
      (fun b mem => .inl mem) rfl rfl rfl rfl
  | hold found =>
    exact keep ⟨rfl, rfl, rfl, rfl⟩ (Thread.leases_update _ _ _ fun _ => rfl)
      ⟨rfl, rfl, rfl, rfl, rfl⟩
  | giveUp found more =>
    exact keep ⟨rfl, rfl, rfl, rfl⟩ (Thread.leases_update _ _ _ fun _ => rfl)
      ⟨rfl, rfl, rfl, rfl, rfl⟩
  | release ids => exact World.release_ledger ids sound ledger
  | setSlot name => exact keep ⟨rfl, rfl, rfl, rfl⟩ rfl ⟨rfl, rfl, rfl, rfl, rfl⟩
  | clearSlot name => exact keep ⟨rfl, rfl, rfl, rfl⟩ rfl ⟨rfl, rfl, rfl, rfl, rfl⟩
  | clearSlots => exact keep ⟨rfl, rfl, rfl, rfl⟩ rfl ⟨rfl, rfl, rfl, rfl, rfl⟩
  | @allocBlock w r held name a n =>
    refine ledger.handOut (n := n) (a := a) rfl rfl (.of_eq (List.append_nil _).symm) rfl ?_ rfl rfl
      rfl rfl
    intro b mem
    rcases List.mem_cons.mp mem with rfl | mem
    · exact .inr rfl
    · exact .inl (List.mem_filter.mp mem).1
  | @saveBlock w r held id f b name found block =>
    have quiet := keep (u := w.thread) ⟨rfl, rfl, rfl, rfl⟩ rfl ⟨rfl, rfl, rfl, rfl, rfl⟩
    obtain ⟨lease, onStack, rfl⟩ := Option.map_eq_some_iff.mp block
    have mine : lease ∈ handedOut (story ++ []) :=
      quiet.owners.2.mem_iff.mpr (by
        simp [(Thread.leases_erase sound.thread.distinct found).mem_iff, onStack])
    refine { quiet with kept := ?_ }
    intro b mem
    rcases List.mem_cons.mp mem with rfl | mem
    · exact List.mem_map_of_mem mine
    · exact quiet.kept b (List.mem_filter.mp mem).1
  | @freeBlock w r held b name a kept =>
    have given := ((w.onThread fun t => t.clearBlock name).deallocate_same ⟨b, a⟩).thread
    simp only [given]
    obtain ⟨x, there, rfl⟩ := Option.map_eq_some_iff.mp kept
    exact ledger.giveBack (u := w.thread.clearBlock name)
      (ledger.kept x (List.mem_of_find?_eq_some there)) rfl rfl rfl
      (.of_eq (List.append_nil _).symm) (fun b mem => (List.mem_filter.mp mem).1) rfl rfl rfl rfl
  | refuse cb => exact same ⟨rfl, rfl, rfl, rfl⟩ (World.dropTag_thread ..)
  | install cb found can =>
    simp only [World.dropTag_thread]
    exact keep ⟨rfl, rfl, rfl, rfl⟩ (Thread.leases_update _ _ _ fun _ => rfl)
      ⟨rfl, rfl, rfl, rfl, rfl⟩
  | enter isMain found ne body awaits context callback =>
    simp only [World.begin_thread _ _ isMain ne]
    exact keep ⟨rfl, rfl, rfl, rfl⟩ (Thread.leases_crossed rfl (fun _ => rfl) fun _ => rfl)
      ⟨rfl, rfl, rfl, rfl, rfl⟩
  | resume isMain found ne body awaits context =>
    simp only [World.goOn, World.onThread, World.depart_thread _ isMain ne]
    exact keep ⟨rfl, rfl, rfl, rfl⟩ (Thread.leases_crossed rfl (fun _ => rfl) fun _ => rfl)
      ⟨rfl, rfl, rfl, rfl, rfl⟩
  | yield next isMain parked body pauses parks =>
    simp only [World.yield_thread _ next _ isMain (sound.ne_of_main isMain)]
    exact keep ⟨rfl, rfl, rfl, rfl⟩ (Thread.leases_crossed rfl (fun _ => rfl) fun _ => rfl)
      ⟨rfl, rfl, rfl, rfl, rfl⟩
  | @conclude w id tag keeps last terminal base =>
    have dropped : Ledger (story ++ [.shed id tag keeps]) (w.dropTag tag).thread :=
      ledger.keep ⟨rfl, rfl, rfl, rfl⟩ (.of_eq (by rw [World.dropTag_thread]))
        (by rw [World.dropTag_thread]; exact ⟨rfl, rfl, rfl, rfl, rfl⟩)
    have quiet : Quiet [.shed id tag keeps] := ⟨rfl, rfl⟩
    have released := World.release_ledger keeps (sound.dropTag tag quiet).sound dropped
    rw [← List.singleton_append, ← List.append_assoc, ← List.append_assoc]
    exact released.keep ⟨rfl, rfl, rfl, rfl⟩ (.of_eq (Thread.leases_update _ _ _ fun _ => rfl))
      ⟨rfl, rfl, rfl, rfl, rfl⟩
  | leave isMain parked terminal =>
    simp only [World.comeBack_thread _ _ isMain (sound.ne_of_main isMain)]
    exact keep ⟨rfl, rfl, rfl, rfl⟩ (Thread.leases_crossed rfl (fun _ => rfl) fun _ => rfl)
      ⟨rfl, rfl, rfl, rfl, rfl⟩

theorem Path.ledger (path : Path texts a acts b) (sound : a.Sound others)
    (ledger : Ledger story a.world.thread) : Ledger (story ++ acts) b.world.thread := by
  induction path with
  | nil => simpa using ledger
  | snoc path move ih =>
    rw [← List.append_assoc]
    exact move.ledger (path.sound sound) ih

end FiberEngine
