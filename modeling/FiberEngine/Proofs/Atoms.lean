/-
FiberEngine.Proofs.Atoms — code without the operations that suspend it.

`Op.unyielding` takes those operations out of a body by which its fiber suspends
itself, and leaves what the body only hands on: the bodies of other fibers and
of threads.

The atoms of code are what is left when its loops are unrolled, too. A body and
the body without its suspensions have the same atoms, and so has code before and
after a step that only begins or ends a loop, a block or a suspension. Frames
that stop a panic or an early return are atoms themselves, so that leaving frames
is the same thing before and after.
-/
import FiberEngine.Proofs.Weights

namespace FiberEngine

/-! ## 1. Bodies without suspensions -/

mutual

/-- An operation without what suspends the fiber that performs it. -/
def Op.unyielding : Op → List Op
  | .park _ => []
  | .loop times body => [.loop times (Op.unyieldingAll body)]
  | .attempt body => [.attempt (Op.unyieldingAll body)]
  | op => [op]

def Op.unyieldingAll : List Op → List Op
  | [] => []
  | op :: rest => op.unyielding ++ Op.unyieldingAll rest

end

theorem Op.weightAll_append (ops more : List Op) :
    Op.weightAll (ops ++ more) + 1 = Op.weightAll ops + Op.weightAll more := by
  induction ops with
  | nil => simp only [List.nil_append, Op.weightAll]; omega
  | cons op rest ih => simp only [List.cons_append, Op.weightAll]; omega

mutual

/-- A body without suspensions weighs no more than the body. -/
theorem Op.weight_unyielding (op : Op) : Op.weightAll op.unyielding ≤ op.weight + 1 := by
  cases op with
  | loop times body =>
    have less := Op.weightAll_unyielding body
    have le : times * (4 + Op.weightAll (Op.unyieldingAll body)) ≤
        times * (4 + Op.weightAll body) := Nat.mul_le_mul_left _ (by omega)
    simp only [Op.unyielding, Op.weightAll, Op.weight]
    omega
  | attempt body =>
    have less := Op.weightAll_unyielding body
    simp only [Op.unyielding, Op.weightAll, Op.weight]
    omega
  | park _ => simp [Op.unyielding, Op.weightAll]
  | _ => simp [Op.unyielding, Op.weightAll]

theorem Op.weightAll_unyielding (ops : List Op) :
    Op.weightAll (Op.unyieldingAll ops) ≤ Op.weightAll ops := by
  cases ops with
  | nil => exact Nat.le_refl _
  | cons op rest =>
    have here := Op.weight_unyielding op
    have there := Op.weightAll_unyielding rest
    have split := Op.weightAll_append op.unyielding (Op.unyieldingAll rest)
    simp only [Op.unyieldingAll, Op.weightAll] at split ⊢
    omega

end

/-! ## 2. Atoms -/

mutual

/-- What an operation comes to when loops are unrolled and suspensions left out. -/
def Op.atoms : Op → List Op
  | .park _ => []
  | .loop times body => (List.replicate times (Op.allAtoms body)).flatten
  | .attempt body => [.attempt (Op.allAtoms body)]
  | op => [op]

def Op.allAtoms : List Op → List Op
  | [] => []
  | op :: rest => op.atoms ++ Op.allAtoms rest

end

theorem Op.allAtoms_append (ops more : List Op) :
    Op.allAtoms (ops ++ more) = Op.allAtoms ops ++ Op.allAtoms more := by
  induction ops with
  | nil => rfl
  | cons op rest ih => simp only [List.cons_append, Op.allAtoms, ih, List.append_assoc]

mutual

theorem Op.atoms_unyielding (op : Op) : Op.allAtoms op.unyielding = op.atoms := by
  cases op with
  | loop times body =>
    simp [Op.unyielding, Op.allAtoms, Op.atoms, Op.allAtoms_unyielding body]
  | attempt body =>
    simp [Op.unyielding, Op.allAtoms, Op.atoms, Op.allAtoms_unyielding body]
  | park _ => rfl
  | _ => simp [Op.unyielding, Op.allAtoms]

/-- A body has the same atoms without its suspensions. -/
theorem Op.allAtoms_unyielding (ops : List Op) :
    Op.allAtoms (Op.unyieldingAll ops) = Op.allAtoms ops := by
  cases ops with
  | nil => rfl
  | cons op rest =>
    simp only [Op.unyieldingAll, Op.allAtoms_append, Op.allAtoms, Op.atoms_unyielding op,
      Op.allAtoms_unyielding rest]

end

namespace Frame

/-- What a frame comes to. -/
def atoms : Frame → List Frame
  | .ops rest => (Op.allAtoms rest).map fun op => .ops [op]
  | .loop times body =>
    ((List.replicate times (Op.allAtoms body)).flatten).map fun op => .ops [op]
  | .waiting (.park _) => []
  | fr => [fr]

def allAtoms (k : List Frame) : List Frame :=
  k.flatMap atoms

@[simp]
theorem allAtoms_nil : allAtoms [] = [] :=
  rfl

@[simp]
theorem allAtoms_cons (fr : Frame) (k : List Frame) :
    allAtoms (fr :: k) = fr.atoms ++ allAtoms k :=
  rfl

theorem allAtoms_congr (fr : Frame) {k k' : List Frame} (same : allAtoms k = allAtoms k') :
    allAtoms (fr :: k) = allAtoms (fr :: k') := by
  rw [allAtoms_cons, allAtoms_cons, same]

/-- A frame that stops a panic is an atom. -/
theorem atoms_of_stopsPanic {fr : Frame} (stops : fr.stopsPanic = true) : fr.atoms = [fr] := by
  cases fr <;> first | rfl | cases stops

/-- Other atoms are operations, or operations that wait. -/
theorem stopsPanic_of_atoms {fr a : Frame} (mem : a ∈ fr.atoms) (ne : a ≠ fr) :
    a.stopsPanic = false := by
  cases fr with
  | ops rest =>
    obtain ⟨op, -, rfl⟩ := List.mem_map.mp mem
    rfl
  | loop times body =>
    obtain ⟨op, -, rfl⟩ := List.mem_map.mp mem
    rfl
  | waiting p => cases p <;> simp_all [atoms]
  | catching | program d | task f tag keep | script => exact absurd (List.mem_singleton.mp mem) ne

/-! ## 3. Leaving frames -/

variable {p : Frame → Bool} {k k' : List Frame} {fr : Frame}

/-- Leaving frames up to one that stops a panic leaves the atoms of these frames. -/
theorem allAtoms_dropWhile (stops : ∀ fr, p fr = false → fr.stopsPanic) (k : List Frame) :
    allAtoms (k.dropWhile p) = (allAtoms k).dropWhile p := by
  induction k with
  | nil => rfl
  | cons fr k ih =>
    cases passed : p fr with
    | true =>
      have all : ∀ a ∈ fr.atoms, p a = true := by
        intro a mem
        by_cases same : a = fr
        · rw [same, passed]
        · refine Decidable.byContradiction fun stays => ?_
          have marks := stops a (by simpa using stays)
          simp [stopsPanic_of_atoms mem same] at marks
      rw [List.dropWhile_cons_of_pos passed, ih, allAtoms_cons, List.dropWhile_append_of_pos all]
    | false =>
      rw [List.dropWhile_cons_of_neg (by simp [passed]), allAtoms_cons,
        atoms_of_stopsPanic (stops fr passed), List.singleton_append,
        List.dropWhile_cons_of_neg (by simp [passed])]

/-- Code with the same atoms is left at the same frame, and what is below has the
same atoms. -/
theorem dropWhile_alike (stops : ∀ fr, p fr = false → fr.stopsPanic)
    (same : allAtoms k = allAtoms k') {rest : List Frame} (left : k.dropWhile p = fr :: rest) :
    ∃ rest', k'.dropWhile p = fr :: rest' ∧ allAtoms rest = allAtoms rest' := by
  have ends : ∀ {l : List Frame} {a r}, l.dropWhile p = a :: r → a.stopsPanic = true := by
    intro l a r eq
    have first := List.head?_dropWhile_not p l
    rw [eq] at first
    exact stops a (by simpa using first)
  have whole : allAtoms (k.dropWhile p) = allAtoms (k'.dropWhile p) := by
    rw [allAtoms_dropWhile stops, allAtoms_dropWhile stops, same]
  rw [left, allAtoms_cons, atoms_of_stopsPanic (ends left), List.singleton_append] at whole
  cases left' : k'.dropWhile p with
  | nil => simp [left'] at whole
  | cons fr' rest' =>
    rw [left', allAtoms_cons, atoms_of_stopsPanic (ends left'), List.singleton_append] at whole
    obtain ⟨rfl, below⟩ := List.cons.inj whole
    exact ⟨rest', rfl, below⟩

/-! ## 4. Where two codes meet -/

/-- A step only begins or ends a loop, a block or a suspension. -/
def isIdle : Frame → Bool
  | .ops [] | .ops (.park _ :: _) | .ops (.loop _ _ :: _) | .loop _ _ | .waiting (.park _) => true
  | _ => false

/-- Two codes whose next steps are alike, after which they have the same atoms. -/
inductive Meets : List Frame → List Frame → Prop
  | request (op : Op) {rest rest' : List Op} {k k' : List Frame}
    (simple : ∀ body, op ≠ .attempt body)
    (same : allAtoms (.ops rest :: k) = allAtoms (.ops rest' :: k')) :
    Meets (.ops (op :: rest) :: k) (.ops (op :: rest') :: k')
  | attempt {body body' rest rest' : List Op} {k k' : List Frame}
    (inside : Op.allAtoms body = Op.allAtoms body')
    (same : allAtoms (.ops rest :: k) = allAtoms (.ops rest' :: k')) :
    Meets (.ops (.attempt body :: rest) :: k) (.ops (.attempt body' :: rest') :: k')
  | frame (fr : Frame) {k k' : List Frame} (ends : ∀ rest, fr ≠ .ops rest)
    (same : allAtoms k = allAtoms k') : Meets (fr :: k) (fr :: k')

/-- The first atom of a frame that is not idle. -/
theorem allAtoms_cons_of_busy {fr : Frame} (busy : fr.isIdle = false) (k : List Frame) :
    (∃ op rest a, fr = .ops (op :: rest) ∧
      ((a = op ∧ ∀ body, op ≠ .attempt body) ∨
        ∃ body, op = .attempt body ∧ a = .attempt (Op.allAtoms body)) ∧
      allAtoms (fr :: k) = .ops [a] :: allAtoms (.ops rest :: k)) ∨
    ((∀ rest, fr ≠ .ops rest) ∧ allAtoms (fr :: k) = fr :: allAtoms k) := by
  cases fr with
  | ops rest =>
    left
    cases rest with
    | nil => cases busy
    | cons op rest =>
      refine ⟨op, rest, ?_⟩
      cases op with
      | park p | loop times body => cases busy
      | attempt body => exact ⟨.attempt (Op.allAtoms body), rfl, .inr ⟨body, rfl, rfl⟩, rfl⟩
      | _ => exact ⟨_, rfl, .inl ⟨rfl, nofun⟩, rfl⟩
  | loop times body => cases busy
  | waiting p =>
    cases p with
    | park p => cases busy
    | _ => exact .inr ⟨nofun, rfl⟩
  | catching | program d | task f tag keep | script => exact .inr ⟨nofun, rfl⟩

/-- Two codes with the same atoms meet where neither is idle. -/
theorem meets {fr fr' : Frame} (same : allAtoms (fr :: k) = allAtoms (fr' :: k'))
    (busy : fr.isIdle = false) (busy' : fr'.isIdle = false) : Meets (fr :: k) (fr' :: k') := by
  rcases allAtoms_cons_of_busy busy k with ⟨op, rest, a, rfl, atom, first⟩ | ⟨ends, first⟩ <;>
    rcases allAtoms_cons_of_busy busy' k' with ⟨op', rest', a', rfl, atom', first'⟩ |
      ⟨ends', first'⟩ <;>
    rw [first, first'] at same <;> obtain ⟨head, below⟩ := List.cons.inj same
  · obtain rfl : a = a' := by simpa using head
    rcases atom with ⟨rfl, simple⟩ | ⟨body, rfl, rfl⟩ <;>
      rcases atom' with ⟨rfl, simple'⟩ | ⟨body', rfl, eq⟩
    · exact .request _ simple below
    · exact absurd eq (simple _)
    · exact absurd rfl (simple' _)
    · exact .attempt (Op.attempt.inj eq) below
  · exact absurd head.symm (ends' _)
  · exact absurd head (ends _)
  · subst head
    exact .frame _ ends below

end Frame

end FiberEngine
