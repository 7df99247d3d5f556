/-
FiberEngine.Proofs.Custody — where the handles to fibers are.

A fiber counts its handles, but it does not know who has them. Here they are
listed: a thread has handles in its slots and one to its main fiber, code that
is suspended has those of its frames, and a callback that was never entered has
those that it captured. `Thread.kept` is the list of them all, without those of
the code that runs.

`handlesTo` is the other side of the account: what the fibers themselves count.
The laws below say how both sides change when a fiber is changed, added or
taken out.
-/
import FiberEngine.Machine

namespace FiberEngine

/-! ## 1. Handles in code -/

/-- The handle of an operation that waits. -/
def Pending.handles : Pending → List FiberId
  | .resume _ f | .drive f _ _ | .entry _ _ f _ | .pause _ f => [f]
  | .park _ | .join _ _ => []

/-- The handles in a frame. The end of a callback stands for those that the
callback captured and for the one that its fiber has to itself. -/
def Frame.handles : Frame → List FiberId
  | .waiting p => p.handles
  | .task f _ keep => f :: keep
  | _ => []

/-- The handles in code. -/
def Frame.allHandles (k : List Frame) : List FiberId :=
  k.flatMap Frame.handles

@[simp]
theorem Frame.allHandles_nil : Frame.allHandles [] = [] :=
  rfl

@[simp]
theorem Frame.allHandles_cons (fr : Frame) (k : List Frame) :
    Frame.allHandles (fr :: k) = fr.handles ++ Frame.allHandles k :=
  rfl

/-- The handles in a context. -/
def Context.handles : Context → List FiberId
  | .suspended k => Frame.allHandles k
  | .fresh | .spent => []

/-- The handles in the code and in the callback of a fiber. -/
def Fiber.owns (f : Fiber) : List FiberId :=
  f.context.elim [] Context.handles ++ f.pending.elim [] Callback.keep

/-- All handles of a thread but those of the code that runs. -/
def Thread.kept (t : Thread) : List FiberId :=
  t.slots.map Prod.snd ++ t.main.toList ++ t.fibers.flatMap Fiber.owns

/-! ## 2. Handles as fibers count them -/

/-- How many handles to a fiber there are, by what the fibers count. -/
def handlesTo : List Fiber → FiberId → Nat
  | [], _ => 0
  | f :: fs, id => (if f.id = id then f.handles else 0) + handlesTo fs id

@[simp]
theorem handlesTo_nil (id : FiberId) : handlesTo [] id = 0 :=
  rfl

@[simp]
theorem handlesTo_cons (f : Fiber) (fs : List Fiber) (id : FiberId) :
    handlesTo (f :: fs) id = (if f.id = id then f.handles else 0) + handlesTo fs id :=
  rfl

@[simp]
theorem handlesTo_append (fs gs : List Fiber) (id : FiberId) :
    handlesTo (fs ++ gs) id = handlesTo fs id + handlesTo gs id := by
  induction fs with
  | nil => simp
  | cons f rest ih => simp [ih, Nat.add_assoc]

theorem handlesTo_perm {fs gs : List Fiber} (h : fs.Perm gs) (id : FiberId) :
    handlesTo fs id = handlesTo gs id := by
  induction h with
  | nil => rfl
  | cons f _ ih => simp [ih]
  | swap f g rest =>
    simp only [handlesTo_cons]
    omega
  | trans _ _ first second => rw [first, second]

/-- There are no handles to a fiber that is not there. -/
theorem handlesTo_eq_zero {fs : List Fiber} {id : FiberId} (h : ∀ f ∈ fs, f.id ≠ id) :
    handlesTo fs id = 0 := by
  induction fs with
  | nil => rfl
  | cons f rest ih =>
    have hf : f.id ≠ id := h f (by simp)
    have hrest : ∀ g ∈ rest, g.id ≠ id := fun g hg => h g (by simp [hg])
    simp [hf, ih hrest]

/-- If there is a handle to a fiber by their count, the fiber is there. -/
theorem exists_of_handlesTo_pos {fs : List Fiber} {id : FiberId} (h : 0 < handlesTo fs id) :
    ∃ f ∈ fs, f.id = id := by
  by_cases hex : ∃ f ∈ fs, f.id = id
  · exact hex
  · have : handlesTo fs id = 0 := handlesTo_eq_zero fun f hf hid => hex ⟨f, hf, hid⟩
    omega

/-! ## 3. One fiber among others -/

namespace Thread

/-- No two fibers of a thread have one id. -/
def Distinct (t : Thread) : Prop :=
  (t.fibers.map Fiber.id).Nodup

theorem mem_of_fiber? {t : Thread} {id : FiberId} {f : Fiber} (h : t.fiber? id = some f) :
    f ∈ t.fibers :=
  List.mem_of_find?_eq_some h

/-- Among fibers of different ids, each is found under its own. -/
theorem fiber?_of_mem {t : Thread} {f : Fiber} (distinct : t.Distinct) (h : f ∈ t.fibers) :
    t.fiber? f.id = some f := by
  have main : ∀ fs : List Fiber, (fs.map Fiber.id).Nodup → f ∈ fs →
      fs.find? (fun g => g.id == f.id) = some f := by
    intro fs
    induction fs with
    | nil => simp
    | cons g rest ih =>
      intro nodup mem
      obtain ⟨fresh, nodup⟩ := List.nodup_cons.mp nodup
      rcases List.mem_cons.mp mem with rfl | mem
      · simp
      · have other : g.id ≠ f.id := fun same => fresh (List.mem_map.mpr ⟨f, mem, same.symm⟩)
        rw [List.find?_cons_of_neg (by simp [other])]
        exact ih nodup mem
  exact main t.fibers distinct h

theorem exists_fiber? {t : Thread} {id : FiberId} (h : ∃ f ∈ t.fibers, f.id = id) :
    ∃ f, t.fiber? id = some f := by
  obtain ⟨f, mem, same⟩ := h
  have : (t.fiber? id).isSome := by
    simp only [fiber?, List.find?_isSome]
    exact ⟨f, mem, by simpa using same⟩
  exact Option.isSome_iff_exists.mp this

/-- A fiber and the others. -/
theorem fibers_perm {t : Thread} {id : FiberId} {f : Fiber} (distinct : t.Distinct)
    (h : t.fiber? id = some f) : t.fibers.Perm (f :: (t.erase id).fibers) := by
  have main : ∀ fs : List Fiber, (fs.map Fiber.id).Nodup →
      fs.find? (fun g => g.id == id) = some f →
      fs.Perm (f :: fs.filter fun g => g.id != id) := by
    intro fs
    induction fs with
    | nil => simp
    | cons g rest ih =>
      intro nodup found
      obtain ⟨fresh, nodup⟩ := List.nodup_cons.mp nodup
      by_cases same : g.id = id
      · have found : g = f := by simpa [same] using found
        have others : ∀ x ∈ rest, x.id != id := by
          intro x mem
          have : x.id ≠ id := fun hx => fresh (List.mem_map.mpr ⟨x, mem, hx.trans same.symm⟩)
          simpa using this
        rw [List.filter_cons_of_neg (by simp [same]), List.filter_eq_self.mpr others, found]
      · rw [List.find?_cons_of_neg (by simp [same])] at found
        rw [List.filter_cons_of_pos (by simp [same])]
        exact ((ih nodup found).cons g).trans (List.Perm.swap ..)
  exact main t.fibers distinct h

/-- The fibers of a thread after one of them was changed. -/
theorem update_perm {t : Thread} {id : FiberId} {f : Fiber} (change : Fiber → Fiber)
    (distinct : t.Distinct) (h : t.fiber? id = some f) :
    (t.update id change).fibers.Perm (change f :: (t.erase id).fibers) := by
  have same : f.id = id := id_of_fiber? h
  have moved := (fibers_perm distinct h).map fun g => if g.id = id then change g else g
  have rest : (t.erase id).fibers.map (fun g => if g.id = id then change g else g) =
      (t.erase id).fibers := by
    conv => rhs; rw [← List.map_id (t.erase id).fibers]
    apply List.map_congr_left
    intro g mem
    have : g.id ≠ id := by simpa using (List.mem_filter.mp mem).2
    simp [this]
  simpa [update, same, rest] using moved

/-- What is left when a fiber is taken out. -/
theorem mem_erase {t : Thread} {id : FiberId} {f : Fiber} :
    f ∈ (t.erase id).fibers ↔ f ∈ t.fibers ∧ f.id ≠ id := by
  simp [erase]

theorem distinct_update {t : Thread} {id : FiberId} (change : Fiber → Fiber)
    (keeps : ∀ f, (change f).id = f.id) : (t.update id change).Distinct ↔ t.Distinct := by
  have same : (t.update id change).fibers.map Fiber.id = t.fibers.map Fiber.id := by
    simp only [update, List.map_map]
    apply List.map_congr_left
    intro f _
    by_cases h : f.id = id <;> simp [h, keeps]
  rw [Distinct, Distinct, same]

theorem distinct_erase {t : Thread} (id : FiberId) (distinct : t.Distinct) :
    (t.erase id).Distinct :=
  List.Nodup.sublist (List.Sublist.map _ List.filter_sublist) distinct

end Thread

/-! ## 4. Slots in order

A table of slots is kept in the order of names. Were it not, a handle could be
put in front of an older one of the same name and hide it for good. -/

namespace SlotName

theorem before_trans {a b c : SlotName} (hab : a.before b) (hbc : b.before c) : a.before c := by
  cases a with
  | own => cases c <;> cases b <;> simp_all [before]
  | named s =>
    cases b with
    | own => simp [before] at hab
    | named t =>
      cases c with
      | own => simp [before] at hbc
      | named u =>
        simp only [before, decide_eq_true_eq] at hab hbc ⊢
        exact String.lt_trans hab hbc

theorem before_irrefl (a : SlotName) : ¬ a.before a := by
  cases a <;> simp [before]

theorem before_of_not_before {a b : SlotName} (h : ¬ a.before b) (ne : b ≠ a) : b.before a := by
  cases a with
  | own =>
    cases b with
    | own => exact absurd rfl ne
    | named t => simp [before] at h
  | named s =>
    cases b with
    | own => rfl
    | named t =>
      simp only [before, decide_eq_true_eq] at h ⊢
      have : t ≠ s := fun same => ne (same ▸ rfl)
      exact Std.lt_of_le_of_ne h this

end SlotName

namespace Slots

/-- The slots are in the order of their names. -/
def Ordered (slots : Slots) : Prop :=
  slots.Pairwise fun a b => a.1.before b.1

theorem ordered_erase {slots : Slots} (name : SlotName) (h : slots.Ordered) :
    (slots.erase name).Ordered :=
  List.Pairwise.sublist List.filter_sublist h

theorem mem_insert {slots : Slots} {name : SlotName} {id : FiberId} {s : SlotName × FiberId}
    (h : s ∈ slots.insert name id) : s = (name, id) ∨ s ∈ slots := by
  induction slots with
  | nil => simpa [insert] using h
  | cons a rest ih =>
    unfold insert at h
    split at h
    · rcases List.mem_cons.mp h with h | h
      · exact .inl h
      · exact .inr (by simp [h])
    · split at h
      · rcases List.mem_cons.mp h with h | h
        · exact .inl h
        · exact .inr h
      · rcases List.mem_cons.mp h with h | h
        · exact .inr (by simp [h])
        · rcases ih h with h | h
          · exact .inl h
          · exact .inr (by simp [h])

theorem ordered_insert {slots : Slots} (name : SlotName) (id : FiberId) (h : slots.Ordered) :
    (slots.insert name id).Ordered := by
  induction slots with
  | nil => simp [insert, Ordered]
  | cons a rest ih =>
    obtain ⟨first, tail⟩ := List.pairwise_cons.mp h
    unfold insert
    by_cases same : a.1 = name
    · rw [if_pos same]
      exact List.pairwise_cons.mpr ⟨fun s mem => same ▸ first s mem, tail⟩
    · rw [if_neg same]
      by_cases hb : name.before a.1
      · rw [if_pos hb]
        refine List.pairwise_cons.mpr ⟨?_, h⟩
        intro s mem
        rcases List.mem_cons.mp mem with rfl | mem
        · exact hb
        · exact SlotName.before_trans hb (first s mem)
      · rw [if_neg hb]
        refine List.pairwise_cons.mpr ⟨?_, ih tail⟩
        intro s mem
        rcases mem_insert mem with rfl | mem
        · exact SlotName.before_of_not_before hb same
        · exact first s mem

/-- A slot of a name that comes first is not further down. -/
theorem find?_eq_none_of_before {slots : Slots} {name : SlotName}
    (h : ∀ s ∈ slots, name.before s.1) : slots.find? name = none := by
  induction slots with
  | nil => rfl
  | cons a rest ih =>
    have ha : a.1 ≠ name := fun same => SlotName.before_irrefl name (same ▸ h a (by simp))
    rw [find?_cons, if_neg ha]
    exact ih fun s mem => h s (by simp [mem])

/-- Putting a handle into a slot takes out the one that was there, and none else. -/
theorem count_insert {slots : Slots} (name : SlotName) (id : FiberId) (h : slots.Ordered)
    (x : FiberId) :
    ((slots.insert name id).map Prod.snd).count x + (slots.find? name).toList.count x =
      (slots.map Prod.snd).count x + [id].count x := by
  induction slots with
  | nil => simp [insert]
  | cons a rest ih =>
    obtain ⟨first, tail⟩ := List.pairwise_cons.mp h
    unfold insert
    rw [find?_cons]
    by_cases same : a.1 = name
    · simp only [if_pos same, List.map_cons, List.count_cons, Option.toList_some, List.count_nil]
      omega
    · rw [if_neg same, if_neg same]
      by_cases hb : name.before a.1
      · have missing : find? rest name = none :=
          find?_eq_none_of_before fun s mem => SlotName.before_trans hb (first s mem)
        simp only [if_pos hb, missing, List.map_cons, List.count_cons, Option.toList_none,
          List.count_nil]
        omega
      · have := ih tail
        simp only [if_neg hb, List.map_cons, List.count_cons, List.count_nil] at this ⊢
        omega

/-- Clearing a slot takes out the handle that was there. -/
theorem count_erase {slots : Slots} (name : SlotName) (h : slots.Ordered) (x : FiberId) :
    ((slots.erase name).map Prod.snd).count x + (slots.find? name).toList.count x =
      (slots.map Prod.snd).count x := by
  induction slots with
  | nil => rfl
  | cons a rest ih =>
    obtain ⟨first, tail⟩ := List.pairwise_cons.mp h
    have ih := ih tail
    rw [find?_cons]
    by_cases same : a.1 = name
    · have missing : find? rest name = none :=
        find?_eq_none_of_before fun s mem => same ▸ first s mem
      have gone : Slots.erase (a :: rest) name = erase rest name :=
        List.filter_cons_of_neg (by simp [same])
      rw [missing] at ih
      simp only [gone, if_pos same, List.map_cons, List.count_cons, Option.toList_some,
        Option.toList_none, List.count_nil] at ih ⊢
      omega
    · have kept : Slots.erase (a :: rest) name = a :: erase rest name :=
        List.filter_cons_of_pos (by simp [same])
      simp only [kept, if_neg same, List.map_cons, List.count_cons] at ih ⊢
      omega

end Slots

end FiberEngine
