/-
FiberEngine.Thread — what belongs to one thread.

A thread has its own fibers, its own slots and blocks, its own instances of the
allocators that keep a count, and one main fiber at most. Two of its fields are
the heart of the engine: `current`, the fiber that runs, and `frames`, the code
that runs. A switch exchanges both for those of another fiber.

Fibers are kept in order of creation, slots in order of their names.
-/
import FiberEngine.Fiber.Basic

namespace FiberEngine

/-! ## 1. Tables -/

/-- The order in which slots are released. -/
def SlotName.before : SlotName → SlotName → Bool
  | .own, .own => false
  | .own, .named _ => true
  | .named _, .own => false
  | .named s, .named t => s < t

/-- Handles under the names of their slots. -/
abbrev Slots := List (SlotName × FiberId)

namespace Slots

/-- The handle in a slot. -/
def find? (slots : Slots) (name : SlotName) : Option FiberId :=
  (List.find? (fun s => s.1 == name) slots).map Prod.snd

/-- A table with a handle in a slot, and no other under that name. -/
def insert (name : SlotName) (id : FiberId) : Slots → Slots
  | [] => [(name, id)]
  | s :: rest =>
    if s.1 = name then (name, id) :: rest
    else if name.before s.1 then (name, id) :: s :: rest
    else s :: insert name id rest

/-- A table without a slot. -/
def erase (slots : Slots) (name : SlotName) : Slots :=
  slots.filter fun s => s.1 != name

@[simp]
theorem find?_nil (name : SlotName) : find? [] name = none :=
  rfl

theorem find?_cons (s : SlotName × FiberId) (rest : Slots) (name : SlotName) :
    find? (s :: rest) name = if s.1 = name then some s.2 else find? rest name := by
  by_cases h : s.1 = name <;> simp [find?, h]

/-- What was put into a slot is found there, and other slots are as before. -/
theorem find?_insert (slots : Slots) (name other : SlotName) (id : FiberId) :
    find? (insert name id slots) other = if name = other then some id else find? slots other := by
  induction slots with
  | nil => simp [insert, find?_cons]
  | cons s rest ih =>
    unfold insert
    by_cases hs : s.1 = name
    · rw [if_pos hs, find?_cons, find?_cons, hs]
      by_cases h : name = other <;> simp [h]
    · rw [if_neg hs]
      by_cases hb : name.before s.1
      · rw [if_pos hb, find?_cons]
      · rw [if_neg hb, find?_cons, find?_cons, ih]
        by_cases h : name = other
        · subst h; simp [hs]
        · simp [h]

end Slots

/-! ## 2. Threads -/

structure Thread where
  /-- The name that was set last, if one was. -/
  setName : Option String
  /-- The name the thread was started with. -/
  ownName : Option String
  /-- The span of the log that the thread's code runs in. -/
  span : Option String
  slots : Slots
  blocks : List (String × Block)
  current : Option FiberId
  main : Option FiberId
  fibers : List Fiber
  counting : Tally
  doubling : Tally
  /-- The bases of the blocks that the guarded allocator has handed out. -/
  guarded : List Nat
  nextBase : Nat
  frames : List Frame

namespace Thread

/-- A thread that has not touched a fiber, with a script to run. -/
def start (setName ownName span : Option String) (script : List Op) : Thread where
  setName
  ownName
  span
  slots := []
  blocks := []
  current := none
  main := none
  fibers := []
  counting := ⟨0, 0⟩
  doubling := ⟨0, 0⟩
  guarded := []
  nextBase := 0
  frames := [.ops script, .script]

/-- The name of a thread: the last one set, else its own. -/
def name (t : Thread) : String :=
  match t.setName with
  | some name => name
  | none => t.ownName.getD "UNKNOWN"

/-- The id of the current fiber, or zero. -/
def currentId (t : Thread) : FiberId :=
  t.current.getD 0

/-! ### Fibers -/

def fiber? (t : Thread) (id : FiberId) : Option Fiber :=
  t.fibers.find? fun f => f.id == id

/-- Change one fiber. -/
def update (t : Thread) (id : FiberId) (change : Fiber → Fiber) : Thread :=
  { t with fibers := t.fibers.map fun f => if f.id = id then change f else f }

/-- Add a fiber. -/
def insert (t : Thread) (f : Fiber) : Thread :=
  { t with fibers := t.fibers ++ [f] }

/-- Take a fiber out. -/
def erase (t : Thread) (id : FiberId) : Thread :=
  { t with fibers := t.fibers.filter fun f => f.id != id }

def setState (t : Thread) (id : FiberId) (state : FiberState) : Thread :=
  t.update id fun f => { f with state }

def setContext (t : Thread) (id : FiberId) (context : Option Context) : Thread :=
  t.update id fun f => { f with context }

/-- Change the state of the main fiber, if there is one. -/
def setMainState (t : Thread) (state : FiberState) : Thread :=
  match t.main with
  | some id => t.setState id state
  | none => t

/-- One more handle to a fiber. -/
def hold (t : Thread) (id : FiberId) : Thread :=
  t.update id fun f => { f with handles := f.handles + 1 }

/-! ### Frames -/

/-- Go on with these frames. -/
def goOn (t : Thread) (frames : List Frame) : Thread :=
  { t with frames }

/-- Put a frame above those that run. -/
def push (t : Thread) (frame : Frame) : Thread :=
  { t with frames := frame :: t.frames }

/-! ### Slots and blocks -/

def slot? (t : Thread) (name : SlotName) : Option FiberId :=
  t.slots.find? name

def setSlot (t : Thread) (name : SlotName) (id : FiberId) : Thread :=
  { t with slots := t.slots.insert name id }

def clearSlot (t : Thread) (name : SlotName) : Thread :=
  { t with slots := t.slots.erase name }

def block? (t : Thread) (name : String) : Option Block :=
  (t.blocks.find? fun b => b.1 == name).map Prod.snd

def setBlock (t : Thread) (name : String) (b : Block) : Thread :=
  { t with blocks := (name, b) :: t.blocks.filter fun b => b.1 != name }

def clearBlock (t : Thread) (name : String) : Thread :=
  { t with blocks := t.blocks.filter fun b => b.1 != name }

end Thread

/-! ## 3. Laws of the fibers of a thread -/

namespace Thread

theorem id_of_fiber? {t : Thread} {id : FiberId} {f : Fiber} (h : t.fiber? id = some f) :
    f.id = id := by
  simpa using List.find?_some h

/-- A change that keeps ids changes what is found under its own id and nothing else. -/
theorem fiber?_update (t : Thread) (id other : FiberId) (change : Fiber → Fiber)
    (keeps : ∀ f, (change f).id = f.id) :
    (t.update id change).fiber? other =
      (t.fiber? other).map fun f => if other = id then change f else f := by
  simp only [update, fiber?]
  induction t.fibers with
  | nil => rfl
  | cons f rest ih =>
    have same : (if f.id = id then change f else f).id = f.id := by
      split <;> simp [keeps]
    by_cases h : f.id = other
    · subst h
      simp [same]
    · rw [List.map_cons, List.find?_cons_of_neg (by simp [same, h]), ih,
        List.find?_cons_of_neg (by simp [h])]

/-- Changing a fiber adds none and takes none out. -/
theorem length_update (t : Thread) (id : FiberId) (change : Fiber → Fiber) :
    (t.update id change).fibers.length = t.fibers.length := by
  simp [update]

/-- An added fiber is found unless an older one has its id. -/
theorem fiber?_insert (t : Thread) (f : Fiber) (id : FiberId) :
    (t.insert f).fiber? id = (t.fiber? id).or (if f.id = id then some f else none) := by
  by_cases h : f.id = id <;> simp [insert, fiber?, List.find?_append, h]

/-- A fiber that was taken out is not found any more, and others are as before. -/
theorem fiber?_erase (t : Thread) (id other : FiberId) :
    (t.erase id).fiber? other = if id = other then none else t.fiber? other := by
  simp only [erase, fiber?]
  induction t.fibers with
  | nil => simp
  | cons f rest ih =>
    by_cases hf : f.id = id
    · rw [List.filter_cons_of_neg (by simp [hf]), ih]
      by_cases h : id = other
      · simp [h]
      · rw [if_neg h, if_neg h, List.find?_cons_of_neg (by simp [hf, h])]
    · rw [List.filter_cons_of_pos (by simp [hf])]
      by_cases ho : f.id = other
      · have h : id ≠ other := fun h => hf (ho.trans h.symm)
        simp [ho, h]
      · rw [List.find?_cons_of_neg (by simp [ho]), List.find?_cons_of_neg (by simp [ho]), ih]

/-- Taking out a fiber that is there leaves fewer. -/
theorem length_erase_lt {t : Thread} {id : FiberId} {f : Fiber} (h : t.fiber? id = some f) :
    (t.erase id).fibers.length < t.fibers.length := by
  have mem := List.mem_of_find?_eq_some h
  have same := id_of_fiber? h
  have := List.length_filter_lt_length_iff_exists (p := fun f => f.id != id) (l := t.fibers)
  exact this.2 ⟨f, mem, by simpa using same⟩

end Thread

end FiberEngine
