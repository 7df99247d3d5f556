/-
FiberEngine.Proofs.Cascades — which fibers a release destroys, and in which order.

A fiber dies with its last handle, and the callback that it never entered gives up handles
of its own, so that one release can end many fibers. Which ones is said here without any
count: `Thread.Doomed` is the least set of fibers that no handle keeps but the released one
and those of callbacks in the set. `World.Unravels` is the order, as a big step: a fiber is
taken out, then its block goes back, then its callback ends, and the handles of the callback
are released one by one, each with all that follows from it.

That what is destroyed is doomed is an invariant of the rounds of a release
(`release_rounds`). That what is doomed is destroyed follows at the end, when all handles
that are left are accounted for again: what is doomed and still there would be held by a
callback that is doomed and still there.

The main statement is `release_cascades`. It is about the stages that a step passes, and
`FiberEngine.Proofs.Losses` shows that whatever a step destroys falls at one of them.
-/
import Mathlib.Logic.Relation
import FiberEngine.Proofs.Offspring
import FiberEngine.Proofs.Suspension

namespace FiberEngine

variable {others : List FiberId}

/-! ## 1. The fibers that fall with a handle -/

/-- The handles in the suspended code of a fiber. -/
def Fiber.inCode (f : Fiber) : List FiberId :=
  f.context.elim [] Context.handles

/-- The handles that no callback has which is still to be entered: those of slots, the one to
the main fiber, those of suspended code, and those of the code that runs. -/
def Thread.anchors (t : Thread) (held : List FiberId) : List FiberId :=
  t.slots.map Prod.snd ++ t.main.toList ++ t.fibers.flatMap Fiber.inCode ++ held

/-- The fibers that fall when the running code releases a handle and has others left: no
handle keeps them but the released one and those of callbacks of fibers that fall as well. -/
inductive Thread.Doomed (t : Thread) (held : List FiberId) : FiberId → Prop
  | intro {f : Fiber} (there : f ∈ t.fibers) (loose : f.id ∉ t.anchors held)
    (falls : ∀ g ∈ t.fibers, ∀ cb, g.pending = some cb → f.id ∈ cb.keep →
      Doomed t held g.id) : Doomed t held f.id

/-- One fiber has a handle to another one. -/
def Thread.Holds (t : Thread) (id other : FiberId) : Prop :=
  ∃ f ∈ t.fibers, f.id = id ∧ other ∈ f.owns

namespace Thread

variable {t : Thread} {held : List FiberId} {id : FiberId} {f g : Fiber} {cb : Callback}

theorem Doomed.loose (doomed : t.Doomed held id) : id ∉ t.anchors held := by
  cases doomed with
  | intro there loose falls => exact loose

theorem mem_anchors_of_inCode (there : f ∈ t.fibers) (mem : id ∈ f.inCode) :
    id ∈ t.anchors held := by
  simp only [anchors, List.mem_append, List.mem_flatMap]
  exact .inl (.inr ⟨f, there, mem⟩)

theorem mem_anchors_of_main (isMain : t.main = some id) : id ∈ t.anchors held := by
  simp [anchors, isMain]

/-- Every handle is anchored, or a callback has it that is still to be entered. -/
theorem mem_kept_or (mem : id ∈ t.kept ++ held) : id ∈ t.anchors held ∨
    ∃ g ∈ t.fibers, ∃ cb, g.pending = some cb ∧ id ∈ cb.keep := by
  simp only [kept, List.mem_append, List.mem_flatMap] at mem
  rcases mem with ((slot | main) | ⟨g, there, owns⟩) | here
  · exact .inl (by simp only [anchors, List.mem_append]; exact .inl (.inl (.inl slot)))
  · exact .inl (by simp only [anchors, List.mem_append]; exact .inl (.inl (.inr main)))
  · rcases List.mem_append.mp owns with code | callback
    · exact .inl (mem_anchors_of_inCode there code)
    · cases pending : g.pending with
      | none => simp [pending] at callback
      | some cb => exact .inr ⟨g, there, cb, pending, by simpa [pending] using callback⟩
  · exact .inl (List.mem_append_right _ here)

/-- Fibers in a circle of handles do not fall. -/
theorem Doomed.not_cyclic (doomed : t.Doomed held id) : ¬ Relation.TransGen t.Holds id id := by
  induction doomed with
  | @intro f there loose falls ih =>
    intro cycle
    -- whoever holds the fiber in this circle falls before it
    obtain ⟨last, around, g, there', rfl, owns⟩ := Relation.TransGen.tail'_iff.mp cycle
    rcases List.mem_append.mp owns with code | callback
    · exact loose (mem_anchors_of_inCode there' code)
    · cases pending : g.pending with
      | none => simp [pending] at callback
      | some cb =>
        have kept : f.id ∈ cb.keep := by simpa [pending] using callback
        exact ih g there' cb pending kept (.head' ⟨g, there', rfl, owns⟩ around)

end Thread

namespace Thread.Sound

variable {t : Thread} {r : Option FiberId} {s : FiberState} {held : List FiberId}
  {id : FiberId} {f : Fiber}

/-- The only handle to a fiber is nowhere else. -/
theorem not_held_of_last (h : t.Sound r s (id :: held)) (found : t.fiber? id = some f)
    (last : f.handles ≤ 1) : id ∉ held := by
  have total := h.census id
  rw [← id_of_fiber? found, handlesTo_of_mem h.distinct (mem_of_fiber? found),
    id_of_fiber? found] at total
  have none_else : held.count id = 0 := by
    simp only [List.count_append, List.count_cons_self] at total
    omega
  exact List.count_eq_zero.mp none_else

/-- A fiber that is suspended in its code does not fall, since its code has a handle to it. -/
theorem context_of_doomed (h : t.Sound r s (id :: held)) (there : f ∈ t.fibers)
    (doomed : t.Doomed held f.id) (k : List Frame) : f.context ≠ some (.suspended k) := by
  intro suspended
  have notMain : t.main ≠ some f.id := fun isMain => doomed.loose (mem_anchors_of_main isMain)
  by_cases runner : r = some f.id
  · cases suspended.symm.trans ((h.fits f there).runs notMain runner).context
  · cases (h.fits f there).rests notMain runner with
    | waiting onStack state context callback => cases suspended.symm.trans context
    | finished onStack state context callback => cases suspended.symm.trans context
    | suspended onStack state context callback body pauses =>
      have self : f.id ∈ f.inCode := by
        simp only [Fiber.inCode, context, Option.elim_some, Context.handles,
          Frame.allHandles_cons, List.mem_append]
        exact .inr body.mem_handles
      exact doomed.loose (mem_anchors_of_inCode there self)

theorem inCode_of_doomed (h : t.Sound r s (id :: held)) (there : f ∈ t.fibers)
    (doomed : t.Doomed held f.id) : f.inCode = [] := by
  cases context : f.context with
  | none => simp [Fiber.inCode, context]
  | some c =>
    cases c with
    | suspended k => exact absurd context (h.context_of_doomed there doomed k)
    | fresh | spent => simp [Fiber.inCode, context, Context.handles]

end Thread.Sound

/-! ## 2. What is destroyed is doomed -/

/-- A fiber goes on as it is, whatever becomes of the handles to it. -/
def Fiber.Lasts (f : Fiber) (fs : List Fiber) : Prop :=
  ∃ g ∈ fs, g = { f with handles := g.handles }

namespace World

variable {w v : World} {r : Option FiberId} {s : FiberState} {h : List FiberId} {id : FiberId}
  {f : Fiber}

/-- What holds in every round of a release that has destroyed some fibers so far. -/
structure Cascading (others : List FiberId) (r : Option FiberId) (s : FiberState) (w : World)
    (h : List FiberId) (v : World) (rest dead : List FiberId) : Prop where
  sound : Stage.Sound others ⟨v, r, s, rest ++ h⟩
  slots : v.thread.slots = w.thread.slots
  main : v.thread.main = w.thread.main
  doomed : ∀ x ∈ dead, w.thread.Doomed h x
  lasts : ∀ f ∈ w.thread.fibers, f.id ∈ dead ∨ f.Lasts v.thread.fibers
  older : ∀ g ∈ v.thread.fibers, ∃ f ∈ w.thread.fibers, g = { f with handles := g.handles }
  apart : ∀ g ∈ v.thread.fibers, g.id ∉ dead
  once : dead.Nodup

/-- The fiber that a round destroys is doomed. -/
theorem Cascading.dooms {rest dead : List FiberId} {first : FiberId}
    (sound : Stage.Sound others ⟨w, r, s, first :: h⟩)
    (cascading : Cascading others r s w h v (id :: rest) dead)
    (found : v.thread.fiber? id = some f) (last : f.handles ≤ 1) : w.thread.Doomed h id := by
  have here : v.thread.Sound r s (id :: (rest ++ h)) := cascading.sound.thread
  have unkept := here.count_last found last
  have unheld := here.not_held_of_last found last
  obtain ⟨f₀, there, same⟩ := cascading.older f (Thread.mem_of_fiber? found)
  obtain rfl : f₀.id = id := by
    rw [← Thread.id_of_fiber? found, same]
  refine .intro there ?_ ?_
  · simp only [Thread.anchors, List.mem_append, not_or, List.mem_flatMap]
    refine ⟨⟨⟨fun slot => ?_, fun main => ?_⟩, ?_⟩, fun mem => unheld (List.mem_append_right _ mem)⟩
    · rw [← cascading.slots] at slot
      exact unkept (by simp only [Thread.kept, List.mem_append]; exact .inl (.inl slot))
    · rw [← cascading.main] at main
      exact unkept (by simp only [Thread.kept, List.mem_append]; exact .inl (.inr main))
    · rintro ⟨g, there', code⟩
      rcases cascading.lasts g there' with dead | ⟨g', stays, same'⟩
      · have none := sound.thread.inCode_of_doomed there' (cascading.doomed _ dead)
        rw [none] at code
        cases code
      · refine unkept (Thread.Sound.mem_kept_of_owns stays (List.mem_append_left _ ?_))
        rw [same']
        exact code
  · intro g there' cb pending kept
    rcases cascading.lasts g there' with dead | ⟨g', stays, same'⟩
    · exact cascading.doomed _ dead
    · refine absurd (Thread.Sound.mem_kept_of_owns stays (List.mem_append_right _ ?_)) unkept
      rw [same']
      simpa [pending] using kept

/-- No fiber is created by a release. -/
theorem births_fallout (w : World) (ids : List FiberId) : births (w.fallout ids) = [] := by
  refine release_rounds (P := fun _ _ acts => births acts = []) w ids [] rfl (fun none _ => none) ?_
    (fun none _ _ => none)
  intro v id rest acts f none _ _
  rw [births_append, none, ending_births, List.append_nil]

/-- Before the first round nothing is destroyed. -/
theorem cascading_begins (sound : Stage.Sound others ⟨w, r, s, id :: h⟩) :
    Cascading others r s w h w [id] [] where
  sound := sound
  slots := rfl
  main := rfl
  doomed _ mem := absurd mem List.not_mem_nil
  lasts f there := .inr ⟨f, there, rfl⟩
  older g there := ⟨g, there, rfl⟩
  apart _ _ := List.not_mem_nil
  once := List.nodup_nil

section

variable {first : FiberId} {rest dead : List FiberId}

/-- A round that ends a fiber: its callback leaves its handles to be released. -/
theorem Cascading.destroy (sound : Stage.Sound others ⟨w, r, s, first :: h⟩)
    (before : Cascading others r s w h v (id :: rest) dead)
    (found : v.thread.fiber? id = some f) (last : f.handles ≤ 1) :
    Cascading others r s w h (v.destroy f).1 ((v.destroy f).2 ++ rest) (dead ++ [f.id]) := by
  have doomed := before.dooms sound found last
  obtain rfl := Thread.id_of_fiber? found
  have here : Stage.Sound others ⟨v, r, s, f.id :: (rest ++ h)⟩ := before.sound
  have fibers := destroy_fibers v f
  exact {
    sound := by
      rw [List.append_assoc]
      exact (here.destroy found last).sound
    slots := (destroy_keeps v f).1.trans before.slots
    main := (destroy_main v f).trans before.main
    doomed := by
      intro x mem
      rcases List.mem_append.mp mem with dead | this
      · exact before.doomed x dead
      · obtain rfl := List.mem_singleton.mp this
        exact doomed
    lasts := by
      intro g there
      rcases before.lasts g there with dead | ⟨g', stays, same⟩
      · exact .inl (List.mem_append_left _ dead)
      · by_cases this : g.id = f.id
        · exact .inl (List.mem_append_right _ (List.mem_singleton.mpr this))
        · have other : g'.id ≠ f.id := by rw [same]; exact this
          refine .inr ⟨g', ?_, same⟩
          rw [fibers]
          exact Thread.mem_erase.mpr ⟨stays, other⟩
    older := by
      intro g there
      rw [fibers] at there
      exact before.older g (Thread.mem_erase.mp there).1
    apart := by
      intro g there
      rw [fibers] at there
      obtain ⟨there, other⟩ := Thread.mem_erase.mp there
      rw [List.mem_append, List.mem_singleton, not_or]
      exact ⟨before.apart g there, other⟩
    once := by
      refine List.nodup_append.mpr ⟨before.once, by simp, ?_⟩
      intro x dead y this same
      obtain rfl := List.mem_singleton.mp this
      exact before.apart f (Thread.mem_of_fiber? found) (same ▸ dead) }

/-- A round that gives up one handle of several. -/
theorem Cascading.giveUp (before : Cascading others r s w h v (id :: rest) dead)
    (found : v.thread.fiber? id = some f) (more : 1 < f.handles) :
    Cascading others r s w h
      (v.onThread fun t => t.update id fun f => { f with handles := f.handles - 1 }) rest dead := by
  have here : Stage.Sound others ⟨v, r, s, id :: (rest ++ h)⟩ := before.sound
  have less : Move (fun _ => True) ⟨v, r, s, id :: (rest ++ h)⟩ [] _ := .giveUp found more
  have changed : ∀ g ∈ (v.thread.update id fun f => { f with handles := f.handles - 1 }).fibers,
      ∃ g' ∈ v.thread.fibers, g = { g' with handles := g.handles } := by
    intro g there
    obtain ⟨g', stays, rfl⟩ := List.mem_map.mp there
    refine ⟨g', stays, ?_⟩
    split <;> rfl
  exact {
    sound := (less.follows here).sound
    slots := before.slots
    main := before.main
    doomed := before.doomed
    lasts := by
      intro g there
      rcases before.lasts g there with dead | ⟨g', stays, same⟩
      · exact .inl dead
      · refine .inr ⟨_, List.mem_map_of_mem stays, ?_⟩
        rw [same]
        split <;> rfl
    older := by
      intro g there
      obtain ⟨g', stays, same⟩ := changed g there
      obtain ⟨g₀, there', same'⟩ := before.older g' stays
      exact ⟨g₀, there', by rw [same, same']⟩
    apart := by
      intro g there
      obtain ⟨g', stays, same⟩ := changed g there
      have mine : g.id = g'.id := by rw [same]
      rw [mine]
      exact before.apart g' stays
    once := before.once }

end

/-- The invariant of the rounds holds when all of them have been made. -/
theorem release_cascading (sound : Stage.Sound others ⟨w, r, s, id :: h⟩) :
    Cascading others r s w h (w.release [id]) [] (deaths (w.fallout [id])) := by
  refine release_rounds (P := fun v rest acts => Cascading others r s w h v rest (deaths acts))
    w [id] [] (cascading_begins sound) ?_ ?_ ?_
  · intro v id rest acts before none
    obtain ⟨f, found⟩ := before.sound.thread.exists_of_held (by simp : id ∈ id :: rest ++ h)
    exact absurd found (by simp [none])
  · intro v id rest acts f before found last
    rw [deaths_append, ending_deaths]
    exact before.destroy sound found last
  · intro v id rest acts f before found more
    exact before.giveUp found more

/-! ## 3. What is doomed is destroyed -/

/-- At the end of a release, nothing that is doomed is left. -/
theorem Cascading.exhausts {dead : List FiberId} {x : FiberId}
    (cascading : Cascading others r s w h v [] dead) (doomed : w.thread.Doomed h x) : x ∈ dead := by
  induction doomed with
  | @intro f there loose falls ih =>
    refine (cascading.lasts f there).resolve_right fun lasts => ?_
    obtain ⟨f', stays, same⟩ := lasts
    have mine : f'.id = f.id := by rw [same]
    have here : v.thread.Sound r s h := cascading.sound.thread
    -- it has a handle, and this is somewhere
    have counted : 0 < handlesTo v.thread.fibers f.id := by
      rw [← mine, handlesTo_of_mem here.distinct stays]
      exact here.alive f' stays
    rw [here.census, List.count_pos_iff] at counted
    rcases Thread.mem_kept_or counted with anchored | ⟨g', stays', cb, pending, kept⟩
    · refine loose ?_
      simp only [Thread.anchors, List.mem_append, List.mem_flatMap, cascading.slots,
        cascading.main] at anchored ⊢
      rcases anchored with (before | ⟨g', stays', code⟩) | held
      · exact .inl (.inl before)
      · obtain ⟨g, there', same'⟩ := cascading.older g' stays'
        rw [same'] at code
        exact .inl (.inr ⟨g, there', code⟩)
      · exact .inr held
    · obtain ⟨g, there', same'⟩ := cascading.older g' stays'
      have mine' : g'.id = g.id := by rw [same']
      rw [same'] at pending
      -- whoever has it is destroyed by now
      exact cascading.apart g' stays' (mine' ▸ ih g there' cb pending kept)

/-! ## 4. The order of a cascade -/

/-- A task is taken out: it is no longer counted, its block goes back to the allocator that it
came from, this is logged, and the callback that it never entered ends. -/
def takeOut (w : World) (f : Fiber) (lease : StackLease) : World :=
  (((w.onThread fun t => t.erase f.id).uncount.deallocate lease.allocator lease.block).log
    (.fiberDestroyed f.id f.state)).dropTag (f.pending.bind Callback.tag)

/-- Releasing handles, first to last, destroys some fibers and leads to a world. What a
callback gives up is released, with all that follows from it, before the next handle. -/
inductive Unravels : World → List FiberId → List FiberId → World → Prop
  | done (w : World) : Unravels w [] [] w
  | spare {w v : World} {id : FiberId} {f : Fiber} {rest dead : List FiberId}
    (found : w.thread.fiber? id = some f) (more : 1 < f.handles)
    (after : Unravels (w.onThread fun t => t.update id fun f => { f with handles := f.handles - 1 })
      rest dead v) : Unravels w (id :: rest) dead v
  | destroy {w u v : World} {id : FiberId} {f : Fiber} {lease : StackLease}
    {rest own dead : List FiberId} (found : w.thread.fiber? id = some f) (last : f.handles = 1)
    (onStack : f.lease = some lease)
    (before : Unravels (w.takeOut f lease) (f.pending.elim [] Callback.keep) own u)
    (after : Unravels u rest dead v) : Unravels w (id :: rest) (id :: (own ++ dead)) v

/-- Releasing two lists of handles is releasing one after the other. -/
theorem Unravels.split {ids more dead : List FiberId} (unravels : Unravels w (ids ++ more) dead v) :
    ∃ u first second, dead = first ++ second ∧ Unravels w ids first u ∧
      Unravels u more second v := by
  induction ids generalizing w dead with
  | nil => exact ⟨w, [], dead, rfl, .done w, unravels⟩
  | cons id rest ih =>
    cases unravels with
    | spare found more after =>
      obtain ⟨u, first, second, rfl, here, there⟩ := ih after
      exact ⟨u, first, second, rfl, .spare found more here, there⟩
    | @destroy _ x _ _ f lease _ own dead found last onStack before after =>
      obtain ⟨u, first, second, rfl, here, there⟩ := ih after
      exact ⟨u, _, second, by rw [List.cons_append, List.append_assoc],
        .destroy found last onStack before here, there⟩

/-- A release is a cascade in this order. -/
theorem release_unravels {ids : List FiberId} (sound : Stage.Sound others ⟨w, r, s, ids ++ h⟩) :
    Unravels w ids (deaths (w.fallout ids)) (w.release ids) := by
  have rounds := release_rounds (P := fun v rest acts =>
    Stage.Sound others ⟨v, r, s, rest ++ h⟩ ∧ ∀ dead u, Unravels v rest dead u →
      Unravels w ids (deaths acts ++ dead) u) w ids [] ⟨sound, fun _ _ all => all⟩ ?_ ?_ ?_
  · simpa using rounds.2 [] _ (.done _)
  · rintro v id rest acts ⟨before, -⟩ none
    obtain ⟨f, found⟩ := before.thread.exists_of_held (by simp : id ∈ id :: rest ++ h)
    exact absurd found (by simp [none])
  · rintro v id rest acts f ⟨before, unravels⟩ found last
    have here : Stage.Sound others ⟨v, r, s, id :: (rest ++ h)⟩ := before
    obtain ⟨can, lease, onStack⟩ := here.thread.leased_last found last
    have one : f.handles = 1 :=
      Nat.le_antisymm last (here.thread.alive f (Thread.mem_of_fiber? found))
    refine ⟨by rw [List.append_assoc]; exact (here.destroy found last).sound, ?_⟩
    intro dead u all
    rw [destroy_eq onStack can] at all
    obtain ⟨x, own, others, rfl, first, second⟩ := all.split
    have whole : v.Unravels (id :: rest) (id :: (own ++ others)) u :=
      .destroy found one onStack first second
    rw [deaths_append, ending_deaths, Thread.id_of_fiber? found, List.append_assoc]
    exact unravels _ u whole
  · rintro v id rest acts f ⟨before, unravels⟩ found more
    have less : Move (fun _ => True) ⟨v, r, s, id :: (rest ++ h)⟩ [] _ := .giveUp found more
    exact ⟨(less.follows before).sound, fun dead u all => unravels dead u (.spare found more all)⟩

/-! ## 5. Releases in a run -/

/-- What the release of a handle comes to, while the running code has some others. -/
structure Cascades (w : World) (id : FiberId) (h dead : List FiberId) : Prop where
  /-- The fibers that are destroyed are the least set that falls with the handle. -/
  exact : ∀ x, x ∈ dead ↔ w.thread.Doomed h x
  once : dead.Nodup
  counted : (w.release [id]).process.live + dead.length = w.process.live
  order : w.Unravels [id] dead (w.release [id])
  gone : ∀ x ∈ dead, (w.release [id]).thread.fiber? x = none
  /-- Other fibers stay as they are, but for the number of handles to them. -/
  spared : ∀ x f, w.thread.fiber? x = some f → x ∉ dead →
    ∃ n, (w.release [id]).thread.fiber? x = some { f with handles := n }
  cyclic : ∀ x, Relation.TransGen w.thread.Holds x x → x ∉ dead
  suspended : ∀ x f k, w.thread.fiber? x = some f → f.context = some (.suspended k) → x ∉ dead

theorem release_cascades_of_sound (sound : Stage.Sound others ⟨w, r, s, id :: h⟩) :
    w.Cascades id h (deaths (w.fallout [id])) := by
  have cascading := release_cascading sound
  have after : (w.release [id]).thread.Sound r s h := cascading.sound.thread
  exact {
    exact x := ⟨cascading.doomed x, cascading.exhausts⟩
    once := cascading.once
    counted := by
      have leaves : (w.thread.ids ++ births (w.fallout [id])).Perm
          (deaths (w.fallout [id]) ++ (w.release [id]).thread.ids) := (sound.release [id]).leaves
      rw [births_fallout, List.append_nil] at leaves
      have length := leaves.length_eq
      have before := sound.live
      have now := cascading.sound.live
      simp only [List.length_append] at length before now
      omega
    order := release_unravels (h := h) sound
    gone x dead := by
      refine List.find?_eq_none.mpr fun g there => ?_
      have apart := cascading.apart g there
      simp only [beq_iff_eq]
      exact fun same => apart (same ▸ dead)
    spared x f found other := by
      obtain rfl := Thread.id_of_fiber? found
      obtain ⟨g, stays, same⟩ :=
        (cascading.lasts f (Thread.mem_of_fiber? found)).resolve_left other
      have mine : g.id = f.id := by rw [same]
      refine ⟨g.handles, ?_⟩
      rw [← same, ← mine]
      exact Thread.fiber?_of_mem after.distinct stays
    cyclic x cycle dead := (cascading.doomed x dead).not_cyclic cycle
    suspended x f k found context dead := by
      obtain rfl := Thread.id_of_fiber? found
      exact sound.thread.context_of_doomed (Thread.mem_of_fiber? found) (cascading.doomed _ dead) k
        context }

end World

/-- The stages that a step of a machine can pass through, also in the middle of a cascade. -/
inductive Machine.Passes (m : Machine) : Stage → Prop
  | start : Passes m m.stage
  | move {texts : String → Prop} {a b : Stage} {acts : List Act} (passes : Passes m a)
    (move : Move texts a acts b) : Passes m b
  /-- Some of the handles are released. -/
  | part {w : World} {r : Option FiberId} {s : FiberState} {ids h : List FiberId}
    (passes : Passes m ⟨w, r, s, ids ++ h⟩) : Passes m ⟨w.release ids, r, s, h⟩
  /-- A task is taken out, and the handles of its callback are still to be released. -/
  | takeOut {w : World} {r : Option FiberId} {s : FiberState} {id : FiberId} {h : List FiberId}
    {f : Fiber} {lease : StackLease} (passes : Passes m ⟨w, r, s, id :: h⟩)
    (found : w.thread.fiber? id = some f) (last : f.handles = 1)
    (onStack : f.lease = some lease) :
    Passes m ⟨w.takeOut f lease, r, s, f.pending.elim [] Callback.keep ++ h⟩

/-- At a stage, a handle to a fiber is released: in which world, which handles the running code
has besides, which of these are released right after it, and what it all comes to. -/
inductive Stage.Frees : Stage → World → FiberId → List FiberId → List FiberId → World → Prop
  /-- A slot is dropped. -/
  | dropped {w : World} {r : Option FiberId} {h : List FiberId} {id : FiberId} {name : SlotName}
    (slot : w.thread.slot? name = some id) :
    Frees ⟨w, r, .exec, h⟩ (w.onThread fun t => t.clearSlot name) id h [] (w.dropSlot name).1
  /-- A slot is overwritten. -/
  | overwritten {w : World} {r : Option FiberId} {h : List FiberId} {id new : FiberId}
    {name : SlotName} (slot : w.thread.slot? name = some id) :
    Frees ⟨w, r, .exec, new :: h⟩ (w.onThread fun t => t.setSlot name new) id h []
      (w.putSlot name new)
  /-- An operation lets its own handle go, with its answer or with a panic. -/
  | temporary {w : World} {r : Option FiberId} {h : List FiberId} {id : FiberId} {o : Outcome}
    (complete : (∃ reply, o = .done reply) ∨ ∃ p, o = .panicked p) :
    Frees ⟨w, r, .exec, id :: h⟩ w id h [] (World.letGo id (w, o)).1
  /-- A callback ends that has a list of handles. -/
  | callback {w : World} {r : Option FiberId} {h : List FiberId} {id : FiberId} (cb : Callback)
    {before after : List FiberId} (keep : cb.keep = before ++ id :: after) :
    Frees ⟨w, r, .exec, cb.keep ++ h⟩ ((w.dropTag cb.tag).release before) id (after ++ h) after
      (w.dropCallback cb.tag cb.keep)
  /-- A callback has ended, and its handles are still to be released. -/
  | listed {w : World} {r : Option FiberId} {s : FiberState} {h : List FiberId} {id : FiberId}
    {before after : List FiberId} :
    Frees ⟨w, r, s, (before ++ id :: after) ++ h⟩ (w.release before) id (after ++ h) after
      (w.release (before ++ id :: after))
  /-- A task whose callback has ended gives up the handle to itself. -/
  | own {w : World} {id : FiberId} {s : FiberState} :
    Frees ⟨w, some id, s, [id]⟩ w id [] [] (w.release [id])

/-- A handle is released in a world in which the running code has it, and some others. -/
theorem Stage.Frees.sound {a : Stage} {w final : World} {id : FiberId} {h more : List FiberId}
    (frees : a.Frees w id h more final) (here : a.Sound others) :
    ∃ r s, Stage.Sound others ⟨w, r, s, id :: h⟩ := by
  cases frees with
  | @dropped w r h id name slot =>
    have cleared : Move (fun _ => True) ⟨w, r, .exec, h⟩ [] _ := .clearSlot name
    have sound := (cleared.follows here).sound
    rw [slot] at sound
    exact ⟨_, _, sound⟩
  | @overwritten w r h id new name slot =>
    have set : Move (fun _ => True) ⟨w, r, .exec, new :: h⟩ [] _ := .setSlot name
    have sound := (set.follows here).sound
    rw [slot] at sound
    exact ⟨_, _, sound⟩
  | temporary complete => exact ⟨_, _, here⟩
  | callback cb keep =>
    rw [keep, List.append_assoc] at here
    have untagged : Stage.Follows _ _ [] _ := here.dropTag cb.tag ⟨rfl, rfl⟩
    exact ⟨_, _, (untagged.sound.release _).sound⟩
  | listed =>
    rw [List.append_assoc] at here
    exact ⟨_, _, (here.release _).sound⟩
  | own => exact ⟨_, _, here⟩

/-- What is released after the handle is released in the world that this leaves. -/
theorem Stage.Frees.final {a : Stage} {w final : World} {id : FiberId} {h more : List FiberId}
    (frees : a.Frees w id h more final) : final = (w.release [id]).release more := by
  have twice : ∀ (v : World) (before after : List FiberId),
      v.release (before ++ id :: after) = ((v.release before).release [id]).release after := by
    intro v before after
    rw [World.release_append, ← List.singleton_append, World.release_append]
  cases frees with
  | dropped slot => simp only [World.dropSlot, slot, World.release]
  | overwritten slot => simp only [World.putSlot, slot, Option.toList_some, World.release]
  | temporary complete =>
    obtain ⟨reply, rfl⟩ | ⟨p, rfl⟩ := complete <;> simp only [World.letGo, World.release]
  | callback cb keep => rw [World.dropCallback, keep, twice]
  | listed => exact twice ..
  | own => simp only [World.release]

namespace Machine

variable {m : Machine} {a : Stage}

theorem Passes.sound (passes : m.Passes a) (sound : m.Sound) : a.Sound m.others := by
  induction passes with
  | start => exact (sound.stage_of_task rfl).1
  | move passes move ih => exact (move.follows ih).sound
  | part passes ih => exact (ih.release _).sound
  | takeOut passes found last onStack ih =>
    obtain ⟨can, -⟩ := ih.thread.owns_last found (Nat.le_of_eq last)
    have destroyed := (ih.destroy found (Nat.le_of_eq last)).sound
    rw [World.destroy_eq onStack can] at destroyed
    exact destroyed

/-- **What a release destroys, and how.** Whenever a step of a run releases a handle, the
fibers that are destroyed are the least set that falls with it: those that no other handle
keeps but those of callbacks that are still to be entered, of fibers in the set. Each is
destroyed once and counted no more. This goes depth first: a fiber is taken out, its block
goes back, its callback ends, and the handles of the callback are released one by one. What is
not destroyed stays as it is. This is so of all fibers that hold each other in a circle and of
all that are suspended in their code. What is still to be released goes on from there. -/
theorem release_cascades (level : Option Level) (hook : ReportHook) (script : List Op) (n : Nat)
    {w final : World} {id : FiberId} {h more : List FiberId}
    (goes : ((start level hook script).steps n).done = false)
    (passes : ((start level hook script).steps n).Passes a) (frees : a.Frees w id h more final) :
    ∃ dead, w.Cascades id h dead ∧ final = (w.release [id]).release more := by
  obtain ⟨r, s, sound⟩ := frees.sound (passes.sound (sound_of_goes goes))
  exact ⟨_, World.release_cascades_of_sound sound, frees.final⟩

/-- A script that drops a task whose callback has a handle to the main fiber. -/
def dropping : List Op :=
  [.create (.named "f") minStackSize .heap [] none [.current], .drop (.named "f")]

theorem dropping_begins : ∃ w, (start none .sink dropping).steps 1 = ⟨w, [], false⟩ ∧
    w.process.halted = false ∧ w.thread.frames = [.ops (dropping.drop 1), .script] ∧
    w.thread.fibers = [{ Fiber.main 1 with handles := 2 },
      Fiber.task 2 ⟨⟨0, minStackSize⟩, .heap⟩ ⟨[], none, [1]⟩] ∧
    w.thread.main = some 1 ∧ w.thread.slots = [(.named "f", 2)] := by
  have created : World.create (((start none .sink dropping).world.goOn
      [.ops (dropping.drop 1), .script]).holdAll [.current]).1 (.named "f") minStackSize .heap
        ⟨[], none, [1]⟩ = _ := World.create_eq 2 rfl rfl
  have first : (start none .sink dropping).steps 1 = take _ (World.settle _ _) :=
    congrArg (fun x => take (start none .sink dropping) (World.settle "new" x)) created
  rw [first]
  exact ⟨_, rfl, rfl, rfl, rfl, rfl, rfl⟩

/-- The task falls with its slot, and the main fiber stays. -/
theorem dropped_task_falls : ∃ w v dead,
    (start none .sink dropping).steps 1 = ⟨w, [], false⟩ ∧
    w.thread.slot? (.named "f") = some 2 ∧
    v = w.onThread (fun t => t.clearSlot (.named "f")) ∧
    v.Cascades 2 [] dead ∧ (w.dropSlot (.named "f")).1 = (v.release [2]).release [] ∧
    2 ∈ dead ∧ 1 ∉ dead := by
  obtain ⟨w, same, going, frames, fibers, main, slots⟩ := dropping_begins
  have slot : w.thread.slot? (.named "f") = some 2 := by
    rw [Thread.slot?, slots]
    rfl
  have passes : ((start none .sink dropping).steps 1).Passes ⟨w, none, .exec, []⟩ := by
    have stage : ((start none .sink dropping).steps 1).stage = ⟨w, none, .exec, []⟩ := by
      simp only [stage, same, World.stage, Thread.task?, frames]
      rfl
    exact stage ▸ .start
  obtain ⟨dead, cascades, final⟩ := release_cascades none .sink dropping 1
    (by simp only [same, done, going, Bool.or_self]) passes (.dropped slot)
  refine ⟨w, _, dead, same, slot, rfl, cascades, final, (cascades.exact 2).mpr ?_, fun mem => ?_⟩
  · have there : Fiber.task 2 ⟨⟨0, minStackSize⟩, .heap⟩ ⟨[], none, [1]⟩ ∈
        (w.onThread fun t => t.clearSlot (.named "f")).thread.fibers := by
      simp [World.onThread, Thread.clearSlot, fibers]
    refine .intro there ?_ fun g held cb pending kept => ?_
    · simp only [World.onThread, Thread.clearSlot, Thread.anchors, slots, main, fibers]
      decide
    · -- the only callback is that of the task itself, which keeps the main fiber
      simp only [World.onThread, Thread.clearSlot, fibers, List.mem_cons, List.not_mem_nil,
        or_false] at held
      obtain rfl | rfl := held <;> cases pending
      exact absurd kept (by decide)
  · exact ((cascades.exact 1).mp mem).loose (Thread.mem_anchors_of_main main)

end Machine

end FiberEngine
