/-
FiberEngine.Proofs.Lives — who is created and who is destroyed.

The acts of a stretch of a run say which fibers it creates and which it destroys.
Ids are drawn in order, one for each fiber. Who is alive at the end was alive
before or was created on the way, and was not destroyed.
-/
import FiberEngine.Proofs.Moves

namespace FiberEngine

/-! ## 1. Births and deaths -/

/-- The fiber that an act creates. -/
def Act.birth? : Act → Option FiberId
  | .created id => some id
  | _ => none

/-- The fiber that an act destroys. -/
def Act.death? : Act → Option FiberId
  | .destroyed id _ => some id
  | _ => none

/-- The fibers that some acts create, in order. -/
def births (acts : List Act) : List FiberId :=
  acts.filterMap Act.birth?

/-- The fibers that some acts destroy, in order. -/
def deaths (acts : List Act) : List FiberId :=
  acts.filterMap Act.death?

@[simp]
theorem births_append (acts more : List Act) : births (acts ++ more) = births acts ++ births more :=
  List.filterMap_append

@[simp]
theorem deaths_append (acts more : List Act) : deaths (acts ++ more) = deaths acts ++ deaths more :=
  List.filterMap_append

/-- No fiber is created and none is destroyed. -/
def Quiet (acts : List Act) : Prop :=
  births acts = [] ∧ deaths acts = []

theorem mem_births {acts : List Act} {id : FiberId} : id ∈ births acts ↔ .created id ∈ acts := by
  simp only [births, List.mem_filterMap]
  constructor
  · rintro ⟨act, mem, birth⟩
    cases act <;> cases birth
    exact mem
  · exact fun mem => ⟨_, mem, rfl⟩

theorem mem_deaths {acts : List Act} {id : FiberId} :
    id ∈ deaths acts ↔ ∃ last, .destroyed id last ∈ acts := by
  simp only [deaths, List.mem_filterMap]
  constructor
  · rintro ⟨act, mem, death⟩
    cases act <;> cases death
    exact ⟨_, mem⟩
  · exact fun ⟨_, mem⟩ => ⟨_, mem, rfl⟩

/-- The end of a fiber creates none and destroys this one. -/
theorem ending_births (f : Fiber) (current : Option FiberId) : births (f.ending current) = [] := by
  unfold Fiber.ending
  cases f.lease <;> cases f.pending <;> rfl

theorem ending_deaths (f : Fiber) (current : Option FiberId) :
    deaths (f.ending current) = [f.id] := by
  unfold Fiber.ending
  cases f.lease <;> cases f.pending <;> rfl

/-! ## 2. Ids are drawn in order -/

/-- Two stretches of numbers in a row. -/
theorem range'_append_range' {i j k : Nat} (first : i ≤ j) (second : j ≤ k) :
    List.range' i (j - i) ++ List.range' j (k - j) = List.range' i (k - i) := by
  obtain ⟨m, rfl⟩ := Nat.exists_eq_add_of_le first
  obtain ⟨n, rfl⟩ := Nat.exists_eq_add_of_le second
  have whole : i + m + n - i = m + n := by omega
  rw [Nat.add_sub_cancel_left, Nat.add_sub_cancel_left, whole, List.range'_append_1]

/-- From one process to a later one, ids are drawn in order, each for a fiber. -/
structure Process.Bears (p q : Process) (acts : List Act) : Prop where
  order : p.nextId ≤ q.nextId
  births : births acts = List.range' p.nextId (q.nextId - p.nextId)

namespace Process.Bears

variable {p q s : Process} {acts more : List Act}

/-- No fiber is created. -/
theorem none (nextId : q.nextId = p.nextId) (quiet : FiberEngine.births acts = []) :
    Bears p q acts where
  order := Nat.le_of_eq nextId.symm
  births := by rw [quiet, nextId, Nat.sub_self, List.range'_zero]

/-- A fiber is created. -/
theorem one (nextId : q.nextId = p.nextId + 1) (born : FiberEngine.births acts = [p.nextId]) :
    Bears p q acts where
  order := nextId ▸ Nat.le_succ _
  births := by
    rw [born, nextId, Nat.add_sub_cancel_left]
    rfl

theorem append (first : Bears p q acts) (second : Bears q s more) : Bears p s (acts ++ more) where
  order := Nat.le_trans first.order second.order
  births := by
    rw [births_append, first.births, second.births]
    exact range'_append_range' first.order second.order

end Process.Bears

/-! ## 3. Who is alive -/

/-- Acts leave alive who was alive before or is created, and is not destroyed. -/
def Leaves (before : List FiberId) (acts : List Act) (after : List FiberId) : Prop :=
  (before ++ births acts).Perm (deaths acts ++ after)

namespace Leaves

variable {before between after others : List FiberId} {acts more : List Act}

theorem of_quiet (quiet : Quiet acts) (same : after = before) : Leaves before acts after := by
  rw [Leaves, quiet.1, quiet.2, same, List.append_nil, List.nil_append]

theorem append (first : Leaves before acts between) (second : Leaves between more after) :
    Leaves before (acts ++ more) after := by
  unfold Leaves at first second ⊢
  rw [births_append, deaths_append, ← List.append_assoc, List.append_assoc (deaths acts)]
  refine (first.append_right _).trans ?_
  rw [List.append_assoc]
  exact second.append_left _

/-- Fibers that are alive elsewhere stay alive. -/
theorem append_right (leaves : Leaves before acts after) (others : List FiberId) :
    Leaves (before ++ others) acts (after ++ others) := by
  unfold Leaves at leaves ⊢
  rw [List.append_assoc, ← List.append_assoc (deaths acts)]
  refine (List.perm_append_comm.append_left before).trans ?_
  rw [← List.append_assoc]
  exact leaves.append_right _

/-- If no fiber is created, whoever is left was alive before. -/
theorem rest (leaves : Leaves before acts after) (none : births acts = []) :
    (before.Nodup → after.Nodup) ∧ after ⊆ before := by
  rw [Leaves, none, List.append_nil] at leaves
  exact ⟨fun distinct => (List.nodup_append.mp (leaves.nodup_iff.mp distinct)).2.1,
    fun _ mem => leaves.mem_iff.mpr (List.mem_append_right _ mem)⟩

end Leaves

end FiberEngine
