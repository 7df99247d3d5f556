/-
FiberEngine.Proofs.Disposals — what the trace shows of callbacks and blocks.

Two kinds of entries are written whatever the log takes: the end of a callback
that carries a tag, and a block that goes back to an allocator with a tally. The
acts of a run say which entries of these kinds there are: each act that destroys
a callback or gives a block back leaves its own one, in the order of the acts,
and there are no others.

The main statement is `Path.disposes`.
-/
import FiberEngine.Proofs.Sound

namespace FiberEngine

/-! ## 1. Entries of acts -/

/-- The entry that an act leaves in every trace, if it leaves one. -/
def Act.entry? : Act → Option Event
  | .reset _ _ old => (old.bind Callback.tag).map .dropped
  | .shed _ tag _ => tag.map .dropped
  | .abandoned _ cb | .refused cb => cb.tag.map .dropped
  | .returned _ lease _ | .freed lease =>
    if lease.allocator.tallies then some (.deallocated lease.block.size) else none
  | _ => none

/-- What a trace tells of callbacks that were destroyed and blocks that were given
back. -/
def Process.disposed (p : Process) : List Event :=
  (p.trace.toList.map Entry.event).filter Event.givesUp

/-- The trace shows what some acts dispose of, and nothing else of this kind. -/
def World.Disposes (w : World) (acts : List Act) (v : World) : Prop :=
  v.process.disposed = w.process.disposed ++ acts.filterMap Act.entry?

namespace World.Disposes

variable {w v u : World} {acts more : List Act}

/-- The trace has not changed, and the acts leave no entry. -/
theorem silent (trace : v.process.trace = w.process.trace) (none : acts.filterMap Act.entry? = []) :
    w.Disposes acts v := by
  rw [Disposes, none, List.append_nil, Process.disposed, Process.disposed, trace]

theorem trans (first : w.Disposes acts v) (second : v.Disposes more u) :
    w.Disposes (acts ++ more) u := by
  rw [Disposes, second, first, List.filterMap_append, List.append_assoc]

/-- An entry is written. -/
theorem emit {e : Event} (going : w.process.halted = false)
    (shown : acts.filterMap Act.entry? = [e].filter Event.givesUp) :
    w.Disposes acts (w.emit e) := by
  rw [Disposes, shown, emit_of_going going]
  simp [Process.disposed]

theorem log {n : Notice} (going : w.process.halted = false) : w.Disposes [] (w.log n) := by
  rcases w.log_cases n with same | same
  · rw [same]
    exact silent rfl rfl
  · rw [same]
    exact emit going rfl

/-- A callback is destroyed. -/
theorem dropTag {tag : Option String} {act : Act} (going : w.process.halted = false)
    (shown : act.entry? = tag.map Event.dropped) : w.Disposes [act] (w.dropTag tag) := by
  cases tag with
  | none => exact silent rfl (by simp [shown])
  | some tag => exact emit going (by simp only [List.filterMap_cons, shown]; rfl)

/-- A block is given back. -/
theorem deallocate {lease : StackLease} {act : Act} (going : w.process.halted = false)
    (shown : act.entry? = Act.entry? (.freed lease)) :
    w.Disposes [act] (w.deallocate lease.allocator lease.block) := by
  have taken : w.Disposes [] (w.onThread fun t => t.takeBack lease) := silent rfl rfl
  have shown : act.entry? = if lease.allocator.tallies then
    some (.deallocated lease.block.size) else none := shown
  rw [deallocate_eq]
  split at shown
  · rename_i tallies
    have recorded : [act].filterMap Act.entry? = [.deallocated lease.block.size] := by
      simp [shown]
    rw [if_pos tallies]
    exact taken.trans (emit (by exact going) recorded)
  · rename_i tallies
    rw [if_neg tallies]
    exact taken.trans (silent rfl (by simp [shown]))

end World.Disposes

/-! ## 2. Releases -/

section

variable {others : List FiberId} {w : World} {r : Option FiberId} {held : List FiberId}

/-- A fiber that ends disposes of its stack and of a callback that it never entered. -/
theorem World.destroy_disposes {id : FiberId} {f : Fiber}
    (sound : Stage.Sound others ⟨w, r, .exec, id :: held⟩) (found : w.thread.fiber? id = some f)
    (last : f.handles ≤ 1) : w.Disposes (f.ending w.thread.current) (w.destroy f).1 := by
  obtain ⟨can, lease, onStack⟩ := sound.thread.leased_last found last
  let buried := (w.onThread fun t => t.erase f.id).uncount
  have given := buried.deallocate_same lease
  have logged := (buried.deallocate lease.allocator lease.block).log_same
    (.fiberDestroyed f.id f.state)
  have going : (buried.deallocate lease.allocator lease.block).process.halted = false :=
    given.halted.trans sound.going
  have gone : w.Disposes [.destroyed f.id f.state] buried := .silent rfl rfl
  have first : buried.Disposes [.returned f.id lease w.thread.current] _ :=
    .deallocate (by exact sound.going) rfl
  let told := (buried.deallocate lease.allocator lease.block).log (.fiberDestroyed f.id f.state)
  have second : told.Disposes (f.pending.map fun cb => .abandoned f.id cb).toList
      (told.dropTag (f.pending.bind Callback.tag)) := by
    cases f.pending with
    | none => exact .silent rfl rfl
    | some cb => exact .dropTag (logged.halted.trans going) rfl
  have acts : f.ending w.thread.current = [.destroyed f.id f.state] ++
      [.returned f.id lease w.thread.current] ++ [] ++
        (f.pending.map fun cb => .abandoned f.id cb).toList := by
    simp [Fiber.ending, onStack]
  rw [destroy_eq onStack can, acts]
  exact ((gone.trans first).trans (.log going)).trans second

theorem World.release_disposes (ids : List FiberId)
    (sound : Stage.Sound others ⟨w, r, .exec, ids ++ held⟩) :
    w.Disposes (w.fallout ids) (w.release ids) := by
  have rounds := release_rounds (P := fun v rest acts =>
    Stage.Sound others ⟨v, r, .exec, rest ++ held⟩ ∧ w.Disposes acts v) w ids []
    ⟨sound, .silent rfl rfl⟩ ?_ ?_ ?_
  · exact rounds.2
  · rintro v id rest acts ⟨before, shown⟩ none
    obtain ⟨f, found⟩ := before.thread.exists_of_held (by simp : id ∈ id :: rest ++ held)
    exact absurd found (by simp [none])
  · rintro v id rest acts f ⟨before, shown⟩ found last
    rw [List.append_assoc]
    exact ⟨(before.destroy found last).sound, shown.trans (destroy_disposes before found last)⟩
  · rintro v id rest acts f ⟨before, shown⟩ found more
    have less : Move (fun _ => True) ⟨v, r, .exec, id :: (rest ++ held)⟩ [] _ := .giveUp found more
    exact ⟨(less.follows before).sound, shown⟩

end

/-! ## 3. Moves -/

variable {texts : String → Prop} {others : List FiberId} {a b : Stage} {acts : List Act}

theorem Move.disposes (m : Move texts a acts b) (h : a.Sound others) :
    a.world.Disposes acts b.world := by
  cases m with
  | write e plain keeps fits => exact .emit h.going (by simp [keeps])
  | tune p alike => exact .silent alike.trace rfl
  | @bearMain w held missing =>
    have current := h.current_of_missing missing
    have process := World.bearMain_process current missing
    have logged : (w.count.1).Disposes [] ((w.count.1).log (.mainCreated w.process.nextId)) :=
      .log h.going
    rw [World.Disposes, process]
    exact logged
  | @bearTask w r held alloc n size cb =>
    exact World.Disposes.log (w := (w.handOut alloc n).1.count.1) (by exact h.going)
  | release ids => exact World.release_disposes ids h
  | @freeBlock w r held block name alloc kept =>
    have freed : (w.onThread fun t => t.clearBlock name).Disposes [.freed ⟨block, alloc⟩] _ :=
      .deallocate (by exact h.going) rfl
    exact freed
  | refuse cb => exact .dropTag h.going rfl
  | @install w r held id f cb found can =>
    exact World.Disposes.dropTag (w := w.onThread fun t => t.update id (Fiber.bound cb))
      (by exact h.going) rfl
  | @conclude w id tag keep last terminal base =>
    have quiet : Quiet [.shed id tag keep] := ⟨rfl, rfl⟩
    have dropped : w.Disposes [.shed id tag keep] (w.dropTag tag) := .dropTag h.going rfl
    have released := dropped.trans (World.release_disposes keep (h.dropTag tag quiet).sound)
    exact released.trans (.silent rfl rfl)
  | @enter w id main f p cb isMain =>
    have process : ((w.depart id p).begin id cb).process = w.process :=
      World.depart_process isMain id p
    exact .silent (by rw [process]) rfl
  | @resume w id main f p k isMain =>
    have process : ((w.depart id p).goOn k).process = w.process :=
      World.depart_process isMain id p
    exact .silent (by rw [process]) rfl
  | _ => exact .silent rfl rfl

theorem Path.disposes (path : Path texts a acts b) (h : a.Sound others) :
    a.world.Disposes acts b.world := by
  induction path with
  | nil => exact .silent rfl rfl
  | snoc path move ih => exact ih.trans (move.disposes (path.sound h))

end FiberEngine
