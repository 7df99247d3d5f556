/-
FiberEngine.Proofs.Careers — every fiber is in the phase that its acts lead to.

`Stage.Lived` says this of a stage in the middle of a run, given all acts so far:
the acts about a fiber that is alive lead to a phase in which the fiber is; ids
that are still to come are unborn, and all others are gone. Every move keeps it.

While a callback is being destroyed, its fiber is between two phases. The fiber
`apart` is left out of the law for this time; no release touches it, because it
is the task that runs.

The main statement is `Path.lived`.
-/
import FiberEngine.Proofs.Phases
import FiberEngine.Proofs.Releasing

namespace FiberEngine

/-! ## 1. The law -/

/-- The ids of fibers that are not of the running thread. -/
abbrev idsOf (elsewhere : List (Option Frame × Fiber)) : List FiberId :=
  elsewhere.map fun p => p.2.id

/-- Every fiber but the one apart is in the phase to which the acts about it lead.
Fibers elsewhere are given with the end of the code of their thread. -/
structure Stage.Lived (apart : Option FiberId) (elsewhere : List (Option Frame × Fiber))
    (story : List Act) (a : Stage) : Prop where
  here : ∀ f ∈ a.world.thread.fibers, apart ≠ some f.id →
    ∃ phase, Life f.id story phase ∧ f.In a.world.thread.frames.getLast? phase
  there : ∀ p ∈ elsewhere, ∃ phase, Life p.2.id story phase ∧ p.2.In p.1 phase
  unborn : ∀ id, a.world.process.nextId ≤ id → Life id story .unborn
  gone : ∀ id, 0 < id → id < a.world.process.nextId → id ∉ a.world.thread.ids →
    id ∉ idsOf elsewhere → Life id story .gone

/-- The acts are about the fibers of a list alone. -/
def About (ids : List FiberId) (acts : List Act) : Prop :=
  ∀ act ∈ acts, ∀ id, act.subject? = some id → id ∈ ids

theorem About.nil {ids : List FiberId} : About ids [] := by
  simp [About]

theorem About.one {id : FiberId} {act : Act} (subject : act.subject? = some id) :
    About [id] [act] := by
  intro act' mem other same
  rw [List.mem_singleton.mp mem, subject] at same
  exact List.mem_singleton.mpr (Option.some.inj same).symm

theorem About.none {act : Act} (subject : act.subject? = none) : About [] [act] := by
  intro act' mem other same
  rw [List.mem_singleton.mp mem, subject] at same
  cases same

theorem Course.beside {ids : List FiberId} {acts more : List Act} {id : FiberId} {phase : Phase}
    (life : Life id acts phase) (about : About ids more) (other : id ∉ ids) :
    Life id (acts ++ more) phase :=
  life.skip fun act mem same => other (about act mem id same)

/-- A fiber that neither runs nor has a stack does not depend on the code that runs. -/
theorem Thread.Sound.idle {t : Thread} {r : Option FiberId} {s : FiberState} {held : List FiberId}
    (h : t.Sound r s held) {f : Fiber} (mem : f ∈ t.fibers) (other : r ≠ some f.id) :
    f.lease = none ∨ f.state ≠ .exec := by
  by_cases mine : t.main = some f.id
  · exact .inl ((h.fits f mem).presides mine).lease
  · right
    cases (h.fits f mem).rests mine other with
    | waiting onStack state context callback => simp [state]
    | suspended onStack state context callback body pauses => rcases state with h | h <;> simp [h]
    | finished onStack state context callback =>
      intro exec
      simp [exec, FiberState.terminal] at state

/-- When one fiber of a thread is changed, the others are as before. -/
theorem Thread.of_mem_update {t : Thread} {id : FiberId} {f g : Fiber} (c : Fiber → Fiber)
    (distinct : t.Distinct) (found : t.fiber? id = some f) (keeps : ∀ f, (c f).id = f.id)
    (mem : g ∈ (t.update id c).fibers) : g.id = id ∧ g = c f ∨ g.id ≠ id ∧ g ∈ t.fibers := by
  obtain ⟨x, before, rfl⟩ := List.mem_map.mp mem
  by_cases mine : x.id = id
  · have found' := fiber?_of_mem distinct before
    rw [mine, found] at found'
    obtain rfl := Option.some.inj found'
    rw [if_pos mine]
    exact .inl ⟨(keeps f).trans mine, rfl⟩
  · rw [if_neg mine]
    exact .inr ⟨mine, before⟩

namespace Stage.Lived

variable {apart : Option FiberId} {elsewhere : List (Option Frame × Fiber)}
variable {story acts : List Act} {a b : Stage}

theorem except (lived : Lived none elsewhere story a) (apart : Option FiberId) :
    Lived apart elsewhere story a where
  here f mem _ := lived.here f mem (by simp)
  there := lived.there
  unborn := lived.unborn
  gone := lived.gone

/-- A step that touches some fibers. All others are as before, and those that it
touches are in the phases to which their acts lead. -/
theorem step (lived : Lived apart elsewhere story a) {touched : List FiberId}
    (about : About touched acts) (away : ∀ id ∈ touched, id ∉ idsOf elsewhere)
    (below : ∀ id ∈ touched, id < b.world.process.nextId)
    (order : a.world.process.nextId ≤ b.world.process.nextId)
    (here : ∀ f ∈ b.world.thread.fibers, apart ≠ some f.id →
      (f.id ∉ touched ∧ ∃ g ∈ a.world.thread.fibers, g.id = f.id ∧ ∀ phase,
        g.In a.world.thread.frames.getLast? phase → f.In b.world.thread.frames.getLast? phase) ∨
      ∃ phase, Life f.id (story ++ acts) phase ∧ f.In b.world.thread.frames.getLast? phase)
    (gone : ∀ id, 0 < id → id < b.world.process.nextId → id ∉ b.world.thread.ids →
      id ∉ idsOf elsewhere →
        (id ∉ touched ∧ id < a.world.process.nextId ∧ id ∉ a.world.thread.ids) ∨
        Life id (story ++ acts) .gone) :
    Lived apart elsewhere (story ++ acts) b where
  here f mem other := by
    rcases here f mem other with ⟨untouched, g, mem, same, keeps⟩ | touched
    · obtain ⟨phase, life, looks⟩ := lived.here g mem (same ▸ other)
      exact ⟨phase, (same ▸ life).beside about untouched, keeps phase looks⟩
    · exact touched
  there p mem := by
    obtain ⟨phase, life, looks⟩ := lived.there p mem
    have other : p.2.id ∉ touched := fun mine => away _ mine (List.mem_map_of_mem mem)
    exact ⟨phase, life.beside about other, looks⟩
  unborn id next := by
    have other : id ∉ touched := fun mine => Nat.not_lt.mpr next (below id mine)
    exact (lived.unborn id (Nat.le_trans order next)).beside about other
  gone id first next absent notThere := by
    rcases gone id first next absent notThere with ⟨other, old, absent⟩ | gone
    · exact (lived.gone id first old absent notThere).beside about other
    · exact gone

/-- Nothing happens to any fiber. -/
theorem keep (lived : Lived apart elsewhere story a)
    (ids : b.world.thread.ids = a.world.thread.ids)
    (nextId : b.world.process.nextId = a.world.process.nextId)
    (here : ∀ f ∈ b.world.thread.fibers, ∃ g ∈ a.world.thread.fibers, g.id = f.id ∧ ∀ phase,
      g.In a.world.thread.frames.getLast? phase → f.In b.world.thread.frames.getLast? phase) :
    Lived apart elsewhere story b := by
  have whole : Lived apart elsewhere (story ++ []) b := by
    refine lived.step (About.nil : About [] []) (by simp) (by simp) (Nat.le_of_eq nextId.symm) ?_ ?_
    · exact fun f mem _ => .inl ⟨by simp, here f mem⟩
    · intro id first next absent _
      exact .inl ⟨by simp, nextId ▸ next, ids ▸ absent⟩
  rwa [List.append_nil] at whole

/-- The fibers and the end of the code are as they were. -/
theorem same (lived : Lived apart elsewhere story a)
    (fibers : b.world.thread.fibers = a.world.thread.fibers)
    (base : b.world.thread.frames.getLast? = a.world.thread.frames.getLast?)
    (nextId : b.world.process.nextId = a.world.process.nextId) :
    Lived apart elsewhere story b := by
  refine lived.keep (congrArg (List.map Fiber.id) fibers) nextId fun f mem => ?_
  exact ⟨f, fibers ▸ mem, rfl, fun phase looks => base ▸ looks⟩

/-- A fiber has other handles. -/
theorem rehandle {w : World} {r : Option FiberId} {s : FiberState} {held : List FiberId}
    (lived : Lived apart elsewhere story ⟨w, r, s, held⟩) (id : FiberId) (count : Fiber → Nat)
    (held' : List FiberId) : Lived apart elsewhere story
      ⟨w.onThread fun t => t.update id fun f => { f with handles := count f }, r, s, held'⟩ := by
  refine lived.keep (Thread.ids_update _ _ _ fun _ => rfl) rfl fun f mem => ?_
  obtain ⟨g, there, rfl⟩ := List.mem_map.mp mem
  refine ⟨g, there, ?_⟩
  by_cases mine : g.id = id
  · rw [if_pos mine]
    exact ⟨rfl, fun phase looks => looks.handles (count g)⟩
  · rw [if_neg mine]
    exact ⟨rfl, fun phase looks => looks⟩

/-- Acts that are about no fiber. -/
theorem aside (lived : Lived apart elsewhere story a) (about : About [] acts) :
    Lived apart elsewhere (story ++ acts) a :=
  lived.step about (by simp) (by simp) (Nat.le_refl _)
    (fun f mem _ => .inl ⟨by simp, f, mem, rfl, fun _ looks => looks⟩)
    fun _ _ next absent _ => .inl ⟨by simp, next, absent⟩

/-- Acts about one fiber that is there, which they leave there. -/
theorem turn (lived : Lived apart elsewhere story a) (sound : a.Sound (idsOf elsewhere))
    {id : FiberId} (present : id ∈ a.world.thread.ids) (about : About [id] acts)
    (ids : b.world.thread.ids = a.world.thread.ids)
    (nextId : b.world.process.nextId = a.world.process.nextId)
    (mine : apart ≠ some id → ∀ f ∈ b.world.thread.fibers, f.id = id →
      ∃ phase, Life id (story ++ acts) phase ∧ f.In b.world.thread.frames.getLast? phase)
    (others : ∀ f ∈ b.world.thread.fibers, f.id ≠ id → ∃ g ∈ a.world.thread.fibers,
      g.id = f.id ∧ ∀ phase, g.In a.world.thread.frames.getLast? phase →
        f.In b.world.thread.frames.getLast? phase) :
    Lived apart elsewhere (story ++ acts) b := by
  have known : ∀ x ∈ [id], x ∈ a.world.thread.ids := by simpa using present
  refine lived.step about ?_ ?_ (Nat.le_of_eq nextId.symm) ?_ ?_
  · intro x mem there
    exact (List.nodup_append.mp sound.distinct).2.2 x (known x mem) x there rfl
  · intro x mem
    rw [nextId]
    exact (sound.numbered x (List.mem_append_left _ (known x mem))).2
  · intro f mem notApart
    by_cases same : f.id = id
    · subst same
      exact .inr (mine notApart f mem rfl)
    · exact .inl ⟨by simpa using same, others f mem same⟩
  · intro x first next absent _
    refine .inl ⟨?_, nextId ▸ next, ids ▸ absent⟩
    intro mem
    exact absent (ids ▸ known x mem)

/-- The fiber that was left out is in a phase again. -/
theorem join {id : FiberId} (lived : Lived (some id) elsewhere story a)
    (mine : ∀ f ∈ a.world.thread.fibers, f.id = id →
      ∃ phase, Life id story phase ∧ f.In a.world.thread.frames.getLast? phase) :
    Lived none elsewhere story a where
  here f mem _ := by
    by_cases same : f.id = id
    · subst same
      exact mine f mem rfl
    · exact lived.here f mem (by simpa using fun h : id = f.id => same h.symm)
  there := lived.there
  unborn := lived.unborn
  gone := lived.gone

/-- The acts about a fiber are the beginning of a life. -/
theorem begins (lived : Lived none elsewhere story a) {id : FiberId} (first : 0 < id) :
    ∃ phase, Life id story phase ∧ phase.lasts := by
  by_cases next : a.world.process.nextId ≤ id
  · exact ⟨_, lived.unborn id next, rfl⟩
  by_cases here : id ∈ a.world.thread.ids
  · obtain ⟨f, mem, rfl⟩ := List.mem_map.mp here
    obtain ⟨phase, life, looks⟩ := lived.here f mem (by simp)
    exact ⟨phase, life, looks.lasts⟩
  by_cases there : id ∈ idsOf elsewhere
  · obtain ⟨p, mem, rfl⟩ := List.mem_map.mp there
    obtain ⟨phase, life, looks⟩ := lived.there p mem
    exact ⟨phase, life, looks.lasts⟩
  · exact ⟨_, lived.gone id first (Nat.lt_of_not_le next) here there, rfl⟩

/-! ## 2. Releases -/

variable {w : World} {r : Option FiberId} {held : List FiberId} {id : FiberId} {f : Fiber}

/-- The acts of the end of a fiber are about this fiber. -/
theorem about_ending (f : Fiber) (current : Option FiberId) :
    About [f.id] (f.ending current) := by
  intro act mem id same
  simp only [Fiber.ending, List.mem_cons, List.mem_append, Option.mem_toList,
    Option.map_eq_some_iff] at mem
  rcases mem with rfl | ⟨lease, -, rfl⟩ | ⟨cb, -, rfl⟩ <;> exact List.mem_singleton.mpr
    (Option.some.inj same).symm

/-- A fiber that dies with its last handle had not begun or was over, and it was
not the current one. -/
theorem life_ending (lived : Lived apart elsewhere story ⟨w, r, .exec, id :: held⟩)
    (sound : Stage.Sound (idsOf elsewhere) ⟨w, r, .exec, id :: held⟩)
    (found : w.thread.fiber? id = some f) (last : f.handles ≤ 1) (still : apart ≠ some id) :
    Life id (story ++ f.ending w.thread.current) .gone := by
  obtain ⟨notMain, notRunner, rests⟩ := sound.thread.rests_last found last
  obtain ⟨can, -⟩ := sound.thread.owns_last found last
  obtain rfl : f.id = id := Thread.id_of_fiber? found
  obtain ⟨phase, life, looks⟩ := lived.here f (Thread.mem_of_fiber? found) still
  have apart : w.thread.current ≠ some f.id := by
    rw [sound.thread.current]
    cases r with
    | none => exact notMain
    | some task => exact notRunner
  cases looks with
  | main noStack => exact absurd noStack rests.lease
  | @waiting lease cb onStack state context callback =>
    have ending : f.ending w.thread.current = [.destroyed f.id .init] ++
        [.returned f.id lease w.thread.current] ++ [.abandoned f.id cb] := by
      simp [Fiber.ending, onStack, state, callback]
    rw [ending, ← List.append_assoc, ← List.append_assoc]
    exact ((life.turn (.unused lease cb)).turn (.bereft lease cb apart)).turn (.abandoned cb)
  | running onStack state callback code => simp [state, FiberState.canReset] at can
  | @parked lease cb p q k onStack state callback context parks code =>
    rw [state] at can
    cases p <;> cases can
  | @finished lease last onStack state terminal callback context =>
    have ending : f.ending w.thread.current = [.destroyed f.id last] ++
        [.returned f.id lease w.thread.current] := by
      simp [Fiber.ending, onStack, state, callback]
    rw [ending, ← List.append_assoc]
    exact (life.turn (.used lease terminal)).turn (.returned lease apart)

theorem destroy (lived : Lived apart elsewhere story ⟨w, r, .exec, id :: held⟩)
    (sound : Stage.Sound (idsOf elsewhere) ⟨w, r, .exec, id :: held⟩)
    (found : w.thread.fiber? id = some f) (last : f.handles ≤ 1) (still : apart ≠ some id) :
    Lived apart elsewhere (story ++ f.ending w.thread.current)
      ⟨(w.destroy f).1, r, .exec, (w.destroy f).2 ++ held⟩ := by
  have life := lived.life_ending sound found last still
  obtain ⟨can, lease, onStack⟩ := sound.thread.leased_last found last
  obtain rfl : f.id = id := Thread.id_of_fiber? found
  have present : f.id ∈ w.thread.ids := List.mem_map_of_mem (Thread.mem_of_fiber? found)
  have same := World.destroy_same (w := w) onStack can
  have fibers := w.destroy_fibers f
  have frames : (w.destroy f).1.thread.frames = w.thread.frames :=
    (congrArg Thread.frames same.thread).trans (Thread.takeBack_frames ..)
  have nextId : (w.destroy f).1.process.nextId = w.process.nextId := same.nextId
  refine lived.step (about_ending f _) ?_ ?_ (Nat.le_of_eq nextId.symm) ?_ ?_
  · intro x mem there
    obtain rfl := List.mem_singleton.mp mem
    exact (List.nodup_append.mp sound.distinct).2.2 f.id present f.id there rfl
  · intro x mem
    obtain rfl := List.mem_singleton.mp mem
    simp only [nextId]
    exact (sound.numbered f.id (List.mem_append_left _ present)).2
  · intro g mem _
    simp only [fibers, frames] at mem ⊢
    obtain ⟨mem, other⟩ := Thread.mem_erase.mp mem
    exact .inl ⟨by simpa using other, g, mem, rfl, fun _ looks => looks⟩
  · intro x first next absent _
    by_cases mine : x = f.id
    · subst mine
      exact .inr life
    · refine .inl ⟨by simpa using mine, by simpa [nextId] using next, fun there => absent ?_⟩
      obtain ⟨g, mem, rfl⟩ := List.mem_map.mp there
      simp only [Thread.ids, fibers]
      exact List.mem_map_of_mem (Thread.mem_erase.mpr ⟨mem, mine⟩)

/-- A release leaves the task that runs alone. -/
theorem release (ids : List FiberId)
    (lived : Lived apart elsewhere story ⟨w, r, .exec, ids ++ held⟩)
    (sound : Stage.Sound (idsOf elsewhere) ⟨w, r, .exec, ids ++ held⟩)
    (still : ∀ id, apart = some id → r = some id) :
    Lived apart elsewhere (story ++ w.fallout ids) ⟨w.release ids, r, .exec, held⟩ ∧
      ∀ act ∈ w.fallout ids, ∀ id, act.subject? = some id → r ≠ some id := by
  refine World.release_rounds (P := fun v rest acts =>
    (Stage.Sound (idsOf elsewhere) ⟨v, r, .exec, rest ++ held⟩ ∧
      Lived apart elsewhere (story ++ acts) ⟨v, r, .exec, rest ++ held⟩ ∧
      ∀ act ∈ acts, ∀ id, act.subject? = some id → r ≠ some id)) w ids [] ?_ ?_ ?_ ?_ |>.2
  · exact ⟨sound, by simpa using lived, by simp⟩
  · rintro v id rest acts ⟨before, -, -⟩ none
    obtain ⟨f, found⟩ := before.thread.exists_of_held (by simp : id ∈ id :: rest ++ held)
    exact absurd found (by simp [none])
  · rintro v id rest acts f ⟨before, lived, about⟩ found last
    obtain ⟨-, notRunner, -⟩ := before.thread.rests_last found last
    have gone := lived.destroy before found last fun same => notRunner (still id same)
    have whole := before.destroy found last
    rw [List.append_assoc] at gone
    rw [List.append_assoc]
    refine ⟨whole.sound, gone, ?_⟩
    intro act mem x same
    rcases List.mem_append.mp mem with mem | mem
    · exact about act mem x same
    · obtain rfl := List.mem_singleton.mp (about_ending f _ act mem x same)
      rw [Thread.id_of_fiber? found]
      exact notRunner
  · rintro v id rest acts f ⟨before, lived, about⟩ found more
    have less : Move (fun _ => True) ⟨v, r, .exec, id :: (rest ++ held)⟩ [] _ := .giveUp found more
    exact ⟨(less.follows before).sound, lived.rehandle id (·.handles - 1) _, about⟩

/-! ## 3. New fibers and switches -/

/-- A fiber is created under the next id. -/
theorem bear (lived : Lived none elsewhere story a) (sound : a.Sound (idsOf elsewhere))
    (about : About [a.world.process.nextId] acts) (same : f.id = a.world.process.nextId)
    (fibers : b.world.thread.fibers = a.world.thread.fibers ++ [f])
    (base : b.world.thread.frames.getLast? = a.world.thread.frames.getLast?)
    (nextId : b.world.process.nextId = a.world.process.nextId + 1)
    (mine : Life f.id story .unborn → ∃ phase, Life f.id (story ++ acts) phase ∧
      f.In b.world.thread.frames.getLast? phase) :
    Lived none elsewhere (story ++ acts) b := by
  have fresh : Life f.id story .unborn := lived.unborn _ (Nat.le_of_eq same.symm)
  refine lived.step about ?_ ?_ (nextId ▸ Nat.le_succ _) ?_ ?_
  · intro x mem there
    obtain rfl := List.mem_singleton.mp mem
    exact Nat.lt_irrefl _ (sound.numbered _ (List.mem_append_right _ there)).2
  · intro x mem
    rw [List.mem_singleton.mp mem, nextId]
    exact Nat.lt_succ_self _
  · intro g mem _
    rw [fibers] at mem
    rcases List.mem_append.mp mem with mem | mem
    · refine .inl ⟨by simpa using sound.fresh g mem, g, mem, rfl, fun phase looks => ?_⟩
      rw [base]
      exact looks
    · obtain rfl := List.mem_singleton.mp mem
      exact .inr (mine fresh)
  · intro x first next absent _
    simp only [Thread.ids, fibers, List.map_append, List.mem_append, not_or, List.map_singleton,
      List.mem_singleton, same] at absent
    rw [nextId] at next
    exact .inl ⟨by simpa using absent.2, Nat.lt_of_le_of_ne (Nat.le_of_lt_succ next) absent.2,
      absent.1⟩

/-- Control passes between the main fiber and a task. -/
theorem cross {main : FiberId} {c d : Fiber → Fiber} (lived : Lived none elsewhere story a)
    (sound : a.Sound (idsOf elsewhere)) (found : a.world.thread.fiber? id = some f)
    (isMain : a.world.thread.main = some main) (about : About [id] acts)
    (fibers : b.world.thread.fibers =
      a.world.thread.fibers.map (Thread.Sound.crossed id main c d))
    (hc : ∀ x, (c x).id = x.id) (hd : ∀ x, (d x).id = x.id ∧ (d x).lease = x.lease)
    (nextId : b.world.process.nextId = a.world.process.nextId)
    (runner : ∀ x, a.runner = some x → x = id)
    (mine : ∀ phase, Life id story phase → f.In a.world.thread.frames.getLast? phase →
      ∃ next, Life id (story ++ acts) next ∧ (c f).In b.world.thread.frames.getLast? next) :
    Lived none elsewhere (story ++ acts) b := by
  have there := Thread.mem_of_fiber? found
  have same := Thread.id_of_fiber? found
  have ids := Thread.ids_crossed fibers hc fun x => (hd x).1
  refine lived.turn sound (same ▸ List.mem_map_of_mem there) about ids nextId ?_ ?_
  · intro _ g mem isg
    rw [fibers] at mem
    obtain ⟨x, before, rfl⟩ := List.mem_map.mp mem
    rw [Thread.crossed_id hc fun x => (hd x).1] at isg
    have found' := Thread.fiber?_of_mem sound.thread.distinct before
    rw [isg, found] at found'
    obtain rfl := Option.some.inj found'
    obtain ⟨phase, life, looks⟩ := lived.here f there (by simp)
    rw [Thread.Sound.crossed, if_pos same]
    exact mine phase (same ▸ life) looks
  · intro g mem other
    rw [fibers] at mem
    obtain ⟨x, before, rfl⟩ := List.mem_map.mp mem
    rw [Thread.crossed_id hc fun x => (hd x).1] at other ⊢
    refine ⟨x, before, rfl, fun phase looks => ?_⟩
    rw [Thread.Sound.crossed, if_neg other]
    split
    · rename_i isx
      have noStack := ((sound.thread.fits x before).presides (isx ▸ isMain)).lease
      cases looks with
      | main _ => exact .main ((hd x).2.trans noStack)
      | waiting onStack => exact absurd (noStack.symm.trans onStack) (by simp)
      | running onStack => exact absurd (noStack.symm.trans onStack) (by simp)
      | parked onStack => exact absurd (noStack.symm.trans onStack) (by simp)
      | finished onStack => exact absurd (noStack.symm.trans onStack) (by simp)
    · exact looks.rebase (sound.thread.idle before fun runs => other (runner _ runs))

end Stage.Lived

/-! ## 4. Moves -/

section

variable {texts : String → Prop} {elsewhere : List (Option Frame × Fiber)} {story acts : List Act}
variable {a b : Stage} {w : World} {r : Option FiberId} {held : List FiberId}
variable {id main : FiberId} {f : Fiber} {p : Pending} {k : List Frame}

namespace Stage.Lived

/-- An accepted reset binds a fiber that waits, or one that has ended. -/
theorem install {cb : Callback} (lived : Lived none elsewhere story ⟨w, r, .exec, cb.keep ++ held⟩)
    (sound : Stage.Sound (idsOf elsewhere) ⟨w, r, .exec, cb.keep ++ held⟩)
    (found : w.thread.fiber? id = some f) (can : f.state.canReset) :
    Lived none elsewhere (story ++ [.reset id cb f.pending])
      ⟨(w.onThread fun t => t.update id (Fiber.bound cb)).dropTag (f.pending.bind Callback.tag), r,
        .exec, f.pending.elim [] Callback.keep ++ held⟩ := by
  obtain ⟨-, -, onStack, -⟩ := sound.thread.rests_of_canReset found can
  have there := Thread.mem_of_fiber? found
  have same := Thread.id_of_fiber? found
  have ids : (w.thread.update id (Fiber.bound cb)).ids = w.thread.ids :=
    Thread.ids_update _ _ _ fun _ => rfl
  have dropped := World.dropTag_same (w.onThread fun t => t.update id (Fiber.bound cb))
    (f.pending.bind Callback.tag)
  refine lived.turn sound (same ▸ List.mem_map_of_mem there) (.one rfl)
    ((congrArg Thread.ids dropped.thread).trans ids) dropped.nextId ?_ ?_
  · intro _ g mem isg
    rw [dropped.thread] at mem ⊢
    obtain ⟨-, rfl⟩ | ⟨other, -⟩ :=
      Thread.of_mem_update (Fiber.bound cb) sound.thread.distinct found (fun _ => rfl) mem
    · obtain ⟨phase, life, looks⟩ := lived.here f there (by simp)
      rw [same] at life
      cases looks with
      | main noStack => exact absurd noStack onStack
      | @waiting lease old onStack state context callback =>
        rw [callback]
        exact ⟨_, life.turn (.replaced lease old cb), .waiting onStack rfl rfl rfl⟩
      | running onStack state callback code => simp [state, FiberState.canReset] at can
      | @parked lease cb p q k onStack state callback context parks code =>
        rw [state] at can
        cases p <;> cases can
      | @finished lease last onStack state terminal callback context =>
        rw [callback]
        exact ⟨_, life.turn (.renewed lease last cb), .waiting onStack rfl rfl rfl⟩
    · exact absurd isg other
  · intro g mem other
    rw [dropped.thread] at mem ⊢
    obtain ⟨mine, -⟩ | ⟨-, before⟩ :=
      Thread.of_mem_update (Fiber.bound cb) sound.thread.distinct found (fun _ => rfl) mem
    · exact absurd mine other
    · exact ⟨g, before, rfl, fun _ looks => looks⟩

/-- A task enters its callback. -/
theorem enter {cb : Callback} (lived : Lived none elsewhere story ⟨w, none, .exec, [id]⟩)
    (sound : Stage.Sound (idsOf elsewhere) ⟨w, none, .exec, [id]⟩)
    (isMain : w.thread.main = some main) (found : w.thread.fiber? id = some f) (ne : id ≠ main)
    (callback : f.pending = some cb) :
    Lived none elsewhere (story ++ [.resumed id f.state])
      ⟨(w.depart id p).begin id cb, some id, .exec, id :: cb.keep⟩ := by
  have thread := World.begin_thread p cb isMain ne
  have process : ((w.depart id p).begin id cb).process = w.process :=
    World.depart_process isMain id p
  have rests := sound.thread.rests found (by rw [isMain]; simpa using ne.symm) (by simp)
  have same := Thread.id_of_fiber? found
  refine lived.cross sound found isMain (.one rfl) (congrArg Thread.fibers thread) (fun _ => rfl)
    (fun _ => ⟨rfl, rfl⟩) (congrArg Process.nextId process) (by simp) fun phase life looks => ?_
  rw [thread]
  cases looks with
  | main noStack => exact absurd noStack rests.lease
  | @waiting lease cb' onStack state context callback' =>
    obtain rfl : cb = cb' := Option.some.inj (callback.symm.trans callback')
    rw [state]
    exact ⟨_, life.turn (.entered lease cb), .running onStack rfl rfl (by simp [same])⟩
  | running onStack state none code => exact absurd (callback.symm.trans none) (by simp)
  | parked onStack state none context parks code =>
    exact absurd (callback.symm.trans none) (by simp)
  | finished onStack state terminal none context => exact absurd (callback.symm.trans none) (by simp)

/-- A suspended task goes on. -/
theorem resume (lived : Lived none elsewhere story ⟨w, none, .exec, [id]⟩)
    (sound : Stage.Sound (idsOf elsewhere) ⟨w, none, .exec, [id]⟩)
    (isMain : w.thread.main = some main) (found : w.thread.fiber? id = some f) (ne : id ≠ main)
    (context : f.context = some (.suspended k)) :
    Lived none elsewhere (story ++ [.resumed id f.state])
      ⟨(w.depart id p).goOn k, some id, .exec, Frame.allHandles k⟩ := by
  have thread := World.depart_thread p isMain ne
  have process : ((w.depart id p).goOn k).process = w.process :=
    World.depart_process isMain id p
  have rests := sound.thread.rests found (by rw [isMain]; simpa using ne.symm) (by simp)
  have idle := sound.thread.idle (Thread.mem_of_fiber? found) (by simp)
  refine lived.cross sound found isMain (.one rfl) (congrArg Thread.fibers thread) (fun _ => rfl)
    (fun _ => ⟨rfl, rfl⟩) (congrArg Process.nextId process) (by simp) fun phase life looks => ?_
  cases looks with
  | main noStack => exact absurd noStack rests.lease
  | waiting onStack state fresh callback => exact absurd (context.symm.trans fresh) (by simp)
  | running onStack state callback code => exact absurd state (idle.resolve_left rests.lease)
  | @parked lease cb next q k' onStack state callback context' parks code =>
    obtain rfl : k = .waiting q :: k' :=
      Context.suspended.inj (Option.some.inj (context.symm.trans context'))
    rw [state]
    refine ⟨_, life.turn (.resumed lease cb next), .running onStack rfl callback ?_⟩
    have nonempty : k' ≠ [] := by
      rintro rfl
      cases code
    exact (List.getLast?_cons_of_ne_nil nonempty).trans code
  | finished onStack state terminal callback spent => exact absurd context (spent k)

/-- The task that runs stands aside. -/
theorem yield {next : Parking}
    (lived : Lived none elsewhere story ⟨w, some id, .exec, held⟩)
    (sound : Stage.Sound (idsOf elsewhere) ⟨w, some id, .exec, held⟩)
    (isMain : w.thread.main = some main) (parks : p.parking? = some next) :
    Lived none elsewhere (story ++ [.yielded id next.state])
      ⟨(w.onThread fun t => t.setState id next.state).comeBack id main
          (.suspended (.waiting p :: w.thread.frames)) k,
        none, .exec, Frame.allHandles k⟩ := by
  obtain ⟨f, found, same, runs⟩ := sound.thread.runner_runs
  have ne := sound.ne_of_main isMain
  have thread := World.yield_thread p next k isMain ne
  refine lived.cross sound found isMain (.one rfl) (congrArg Thread.fibers thread) (fun _ => rfl)
    (fun _ => ⟨rfl, rfl⟩) rfl (by simp) fun phase life looks => ?_
  obtain ⟨lease, cb, rfl, onStack, code⟩ := looks.of_runs runs
  exact ⟨_, life.turn (.yielded lease cb next), .parked onStack rfl runs.callback rfl parks code⟩

/-- The task whose callback has ended gives way. -/
theorem leave {last : FiberState} (lived : Lived none elsewhere story ⟨w, some id, last, []⟩)
    (sound : Stage.Sound (idsOf elsewhere) ⟨w, some id, last, []⟩)
    (isMain : w.thread.main = some main) (terminal : last.terminal) :
    Lived none elsewhere story
      ⟨w.comeBack id main .spent k, none, .exec, Frame.allHandles k⟩ := by
  obtain ⟨f, found, same, runs⟩ := sound.thread.runner_runs
  have ne := sound.ne_of_main isMain
  have thread := World.comeBack_thread .spent k isMain ne
  have whole : Lived none elsewhere (story ++ [])
      ⟨w.comeBack id main .spent k, none, .exec, Frame.allHandles k⟩ := by
    refine lived.cross sound found isMain .nil (congrArg Thread.fibers thread) (fun _ => rfl)
      (fun _ => ⟨rfl, rfl⟩) rfl (by simp) fun phase life looks => ?_
    obtain ⟨lease, rfl, onStack⟩ := looks.of_ended runs terminal
    rw [List.append_nil]
    exact ⟨_, life, .finished onStack runs.state terminal runs.callback fun _ => nofun⟩
  rwa [List.append_nil] at whole

/-- The callback of the task that runs is destroyed, and the task ends. -/
theorem conclude {tag : Option String} {keep : List FiberId} {last : FiberState}
    (lived : Lived none elsewhere story ⟨w, some id, .exec, keep ++ [id]⟩)
    (sound : Stage.Sound (idsOf elsewhere) ⟨w, some id, .exec, keep ++ [id]⟩)
    (terminal : last.terminal) (base : w.thread.frames.getLast? = some (.task id tag keep)) :
    Lived none elsewhere (story ++ (.shed id tag keep :: (w.dropTag tag).fallout keep ++
        [.ended id last]))
      ⟨(w.dropCallback tag keep).onThread fun t => t.setState id last, some id, last, [id]⟩ := by
  obtain ⟨f, found, same, runs⟩ := sound.thread.runner_runs
  have there := Thread.mem_of_fiber? found
  have quiet : Quiet [.shed id tag keep] := ⟨rfl, rfl⟩
  have dropped := sound.dropTag tag quiet
  have thread : (w.dropTag tag).thread = w.thread := w.dropTag_thread tag
  -- the task is in no phase while its callback is being destroyed
  have shed : Lived (some id) elsewhere (story ++ [.shed id tag keep])
      ⟨w.dropTag tag, some id, .exec, keep ++ [id]⟩ := by
    refine (lived.except (some id)).turn sound (same ▸ List.mem_map_of_mem there) (.one rfl)
      (congrArg Thread.ids thread) (w.dropTag_same tag).nextId (absurd rfl) fun g mem _ => ?_
    rw [thread] at mem ⊢
    exact ⟨g, mem, rfl, fun _ looks => looks⟩
  obtain ⟨released, spared⟩ := shed.release keep dropped.sound fun _ same => same
  have after := (dropped.sound.release keep).sound
  obtain ⟨g, found', same', runs'⟩ := after.thread.runner_runs
  have ended : Lived (some id) elsewhere
      (story ++ [.shed id tag keep] ++ (w.dropTag tag).fallout keep ++ [.ended id last])
      ⟨(w.dropCallback tag keep).onThread fun t => t.setState id last, some id, last, [id]⟩ := by
    refine released.turn after (same' ▸ List.mem_map_of_mem (Thread.mem_of_fiber? found'))
      (.one rfl) (Thread.ids_update _ _ _ fun _ => rfl) rfl (absurd rfl) fun x mem other => ?_
    obtain ⟨mine, -⟩ | ⟨-, before⟩ :=
      Thread.of_mem_update (fun f => { f with state := last }) after.thread.distinct found'
        (fun _ => rfl) mem
    · exact absurd mine other
    · exact ⟨x, before, rfl, fun _ looks => looks⟩
  have life : ∀ lease cb, Frame.task id tag keep = .task f.id cb.tag cb.keep →
      Life id story (.running lease cb) → Life id
        (story ++ [.shed id tag keep] ++ (w.dropTag tag).fallout keep ++ [.ended id last])
        (.finished lease last) := by
    intro lease cb code running
    obtain ⟨-, rfl, rfl⟩ := Frame.task.inj code
    have ending := running.turn (.shed lease cb)
    have still := ending.skip fun act mem about => spared act mem id about rfl
    exact still.turn (.ended lease terminal)
  have joined := ended.join fun x mem mine => by
    obtain ⟨-, rfl⟩ | ⟨other, -⟩ :=
      Thread.of_mem_update (fun f => { f with state := last }) after.thread.distinct found'
        (fun _ => rfl) mem
    · obtain ⟨phase, running, looks⟩ := lived.here f there (by simp)
      obtain ⟨lease, cb, rfl, onStack, code⟩ := looks.of_runs runs
      rw [same] at running
      -- a release leaves the stack of the task as it was
      obtain ⟨f', found'', kept⟩ := World.fiber?_release found'
      rw [thread, found] at found''
      obtain rfl := Option.some.inj found''
      have stack : g.lease = f.lease := by rw [kept]
      exact ⟨_, life lease cb (Option.some.inj (base.symm.trans code)) running,
        .finished (stack.trans onStack) rfl terminal runs'.callback (by simp [runs'.context])⟩
    · exact absurd mine other
  simpa using joined

end Stage.Lived

/-- Every move keeps all fibers in the phases to which their acts lead. -/
theorem Move.lived (m : Move texts a acts b) (sound : a.Sound (idsOf elsewhere))
    (lived : a.Lived none elsewhere story) : b.Lived none elsewhere (story ++ acts) := by
  have quiet : ∀ {b : Stage}, b.Lived none elsewhere story →
      b.Lived none elsewhere (story ++ []) := fun whole => by rwa [List.append_nil]
  cases m with
  | regroup perm => exact quiet (lived.same rfl rfl rfl)
  | @write w r s held e plain keeps fits =>
    have same := w.emit_same e
    exact quiet (lived.same (by rw [same.thread]) (by rw [same.thread]) same.nextId)
  | complain text ok fits => exact quiet (lived.same rfl rfl rfl)
  | tune p alike => exact quiet (lived.same rfl rfl alike.nextId)
  | equip t alike blocks =>
    exact quiet (lived.same alike.fibers (congrArg List.getLast? alike.frames) rfl)
  | goOn k same => exact quiet (lived.same rfl same rfl)
  | @bearMain w held missing =>
    have current := sound.current_of_missing missing
    have thread := World.bearMain_thread current missing
    have process := World.bearMain_process current missing
    have same := (w.count.1).log_same (.mainCreated w.process.nextId)
    refine lived.bear sound (.one rfl) (f := Fiber.main w.process.nextId) rfl (by rw [thread]; rfl)
      (by rw [thread]; rfl) (by rw [process, same.nextId]; rfl) fun fresh => ?_
    exact ⟨_, fresh.turn .created, .main rfl⟩
  | @bearTask w r held a n size cb =>
    have thread := World.insertTask_thread (w.handOut a n).1 a (w.handOut a n).2 size cb
    have same := ((w.handOut a n).1.count.1).log_same (.fiberCreated w.process.nextId size)
    refine lived.bear sound ?_ (f := Fiber.task w.process.nextId ⟨(w.handOut a n).2, a⟩ cb) rfl
      (by rw [thread]; rfl) (by rw [thread]; rfl) same.nextId fun fresh => ?_
    · intro act mem x subject
      simp only [List.mem_cons, List.not_mem_nil, or_false] at mem
      rcases mem with rfl | rfl <;> cases subject <;> exact List.mem_singleton.mpr rfl
    · have whole := (fresh.turn .created).turn (.equipped ⟨(w.handOut a n).2, a⟩ cb)
      rw [List.append_assoc] at whole
      exact ⟨_, whole, .waiting rfl rfl rfl rfl⟩
  | hold found => exact quiet (lived.rehandle _ (·.handles + 1) _)
  | giveUp found more => exact quiet (lived.rehandle _ (·.handles - 1) _)
  | release ids => exact (lived.release ids sound (by simp)).1
  | setSlot name => exact quiet (lived.same rfl rfl rfl)
  | clearSlot name => exact quiet (lived.same rfl rfl rfl)
  | clearSlots => exact quiet (lived.same rfl rfl rfl)
  | allocBlock name a n => exact (lived.aside (.none rfl)).same rfl rfl rfl
  | saveBlock name found block => exact quiet (lived.same rfl rfl rfl)
  | @freeBlock w r held b name a kept =>
    have same := (w.onThread fun t => t.clearBlock name).deallocate_same ⟨b, a⟩
    refine (lived.aside (.none rfl)).same ?_ ?_ same.nextId
    · exact (congrArg Thread.fibers same.thread).trans (Thread.takeBack_fibers ..)
    · exact congrArg List.getLast?
        ((congrArg Thread.frames same.thread).trans (Thread.takeBack_frames ..))
  | @refuse w r held cb =>
    have same := w.dropTag_same cb.tag
    exact (lived.aside (.none rfl)).same (by rw [same.thread]) (by rw [same.thread]) same.nextId
  | install cb found can => exact lived.install sound found can
  | enter isMain found ne body awaits context callback =>
    exact lived.enter sound isMain found ne callback
  | resume isMain found ne body awaits context =>
    exact lived.resume sound isMain found ne context
  | yield next isMain parked body pauses parks => exact lived.yield sound isMain parks
  | conclude last terminal base => exact lived.conclude sound terminal base
  | leave isMain parked terminal => exact quiet (lived.leave sound isMain terminal)

theorem Path.lived (path : Path texts a acts b) (sound : a.Sound (idsOf elsewhere))
    (lived : a.Lived none elsewhere story) : b.Lived none elsewhere (story ++ acts) := by
  induction path with
  | nil => rwa [List.append_nil]
  | snoc path move ih =>
    rw [← List.append_assoc]
    exact move.lived (path.sound sound) ih

end

end FiberEngine
