/-
FiberEngine.Proofs.Names — the names of tunables, and what is found under them.

A request may spell a name in either case. There are two routes from there to the
registry: a lookup checks the spelling and registers what it does not find, while all other
requests only put the name in lower case. That both come to the same variable is due to
what holds of a registry: every variable has a name that the check lets pass, and no two
have the same name. `Registry.Valid` says so.

A registry is read through `find?`, and each change of it is described by what is found
afterwards: `find?_set` and `find?_insertVar`.
-/
import Mathlib.Data.String.Basic
import FiberEngine.Config.Registry

namespace FiberEngine.Config

/-! ## 1. Lower case -/

@[simp]
theorem toList_lowercase (s : String) : (lowercase s).toList = s.toList.map Char.toLower :=
  String.toList_ofList

/-- A letter in lower case has no other one. -/
theorem toLower_of_isNameChar {c : Char} (name : isNameChar c = true) : c.toLower = c := by
  simp only [isNameChar, Char.isDigit, Bool.or_eq_true, beq_iff_eq] at name
  unfold Char.toLower
  rcases name with ((letter | digit) | rfl) | rfl
  · have least : 'a'.val ≤ c.val := of_decide_eq_true (Bool.and_eq_true_iff.mp letter).1
    grind
  · grind
  · decide
  · decide

/-- A letter that has been put in lower case is in lower case. -/
theorem toLower_toLower (c : Char) : c.toLower.toLower = c.toLower := by
  unfold Char.toLower
  grind [UInt32.toNat_add, Char.toNat_val]

@[simp]
theorem lowercase_lowercase (s : String) : lowercase (lowercase s) = lowercase s := by
  rw [← String.toList_inj, toList_lowercase, toList_lowercase, List.map_map]
  exact List.map_congr_left fun c _ => toLower_toLower c

/-- A name is spelled in lower case. -/
theorem lowercase_of_isName {s : String} (name : isName s = true) : lowercase s = s := by
  simp only [isName, Bool.and_eq_true, List.all_eq_true] at name
  rw [← String.toList_inj, toList_lowercase]
  exact (List.map_congr_left fun c mem => toLower_of_isNameChar (name.2 c mem)).trans
    (List.map_id _)

/-- Whether a name can be registered, and as what, does not depend on case. -/
theorem normalize_congr {name other : String} (same : lowercase name = lowercase other) :
    normalize name = normalize other := by
  rw [normalize, normalize, same]

namespace Registry

variable {r : Registry} {v new : Var} {name other : String} {kind : Kind} {value : Value}

/-! ## 2. What is found -/

theorem mem_of_find? (found : r.find? name = some v) : v ∈ r.vars :=
  List.mem_of_find?_eq_some found

theorem name_of_find? (found : r.find? name = some v) : v.name = name := by
  simpa using List.find?_some found

theorem name_of_get? (found : r.get? name = some v) : v.name = lowercase name :=
  name_of_find? found

/-- Names that differ in case alone denote the same variable. -/
theorem get?_congr (same : lowercase name = lowercase other) : r.get? name = r.get? other := by
  rw [get?, get?, same]

/-- So a lookup comes to the same for them. -/
theorem lookup_congr (same : lowercase name = lowercase other) (default : Value)
    (description : String) :
    r.lookup name default description = r.lookup other default description := by
  rw [lookup, lookup, normalize_congr same, same]

theorem typed?_eq_some : r.typed? kind name = some v ↔ r.get? name = some v ∧ v.value.kind = kind := by
  simp [typed?, Option.filter_eq_some_iff]

/-- A new value under a name changes this variable and no other. -/
theorem find?_set (r : Registry) (name : String) (value : Value) (other : String) :
    (r.set name value).find? other =
      (r.find? other).map fun v => if other = name then { v with value } else v := by
  have keeps : ((fun v => v.name == other) ∘ fun v : Var => if v.name = name then { v with value } else v) =
      fun v => v.name == other := by
    funext v
    by_cases h : v.name = name <;> simp [h]
  rw [set, find?, List.find?_map, keeps]
  cases found : r.find? other with
  | none =>
    have found : r.vars.find? (fun v => v.name == other) = none := found
    rw [found]
    rfl
  | some v =>
    have same := name_of_find? found
    have found : r.vars.find? (fun v => v.name == other) = some v := found
    rw [found, Option.map_some, Option.map_some, same]

theorem vars_set (r : Registry) (name : String) (value : Value) :
    (r.set name value).vars.map Var.name = r.vars.map Var.name := by
  rw [set, List.map_map]
  refine List.map_congr_left fun v _ => ?_
  by_cases h : v.name = name <;> simp [h]

/-- A new variable is found under its name, and all others are found as before. -/
theorem find?_insertVar (free : r.find? new.name = none) (other : String) :
    (Registry.mk (insertVar new r.vars)).find? other =
      if other = new.name then some new else r.find? other := by
  obtain ⟨vars⟩ := r
  simp only [find?] at free ⊢
  induction vars with
  | nil =>
    by_cases h : other = new.name
    · simp [insertVar, h]
    · simp [insertVar, h, Ne.symm h]
  | cons v rest ih =>
    have apart : v.name ≠ new.name := by
      intro same
      simp [same] at free
    have free : rest.find? (fun v => v.name == new.name) = none := by
      simpa [apart] using free
    unfold insertVar
    split
    · by_cases h : other = new.name
      · simp [h]
      · rw [if_neg h, List.find?_cons_of_neg (by simpa using Ne.symm h)]
    · by_cases h : v.name = other
      · subst h
        simp [apart]
      · simp [h, ih free]

theorem mem_insertVar {vars : List Var} : v ∈ insertVar new vars ↔ v = new ∨ v ∈ vars := by
  induction vars with
  | nil => simp [insertVar]
  | cons u rest ih =>
    unfold insertVar
    split
    · simp
    · simp only [List.mem_cons, ih]
      exact or_left_comm

/-! ## 3. Registries in order -/

/-- Every variable has a name as names are, and they stand in ascending order of their names. -/
structure Valid (r : Registry) : Prop where
  named : ∀ v ∈ r.vars, isName v.name = true
  ascending : r.vars.Pairwise fun v v' => v.name < v'.name

theorem empty_valid : empty.Valid :=
  ⟨fun _ mem => absurd mem List.not_mem_nil, .nil⟩

namespace Valid

/-- Each variable is the only one of its name. -/
theorem find?_of_mem (valid : r.Valid) (mem : v ∈ r.vars) : r.find? v.name = some v := by
  obtain ⟨vars⟩ := r
  have ascending : vars.Pairwise fun v v' => v.name < v'.name := valid.ascending
  clear valid
  induction ascending with
  | nil => cases mem
  | @cons u rest first _ ih =>
    rcases List.mem_cons.mp mem with rfl | mem
    · simp [find?]
    · have apart : u.name ≠ v.name := (first v mem).ne
      simpa [find?, apart] using ih mem

theorem isName_of_find? (valid : r.Valid) (found : r.find? name = some v) : isName name = true :=
  name_of_find? found ▸ valid.named v (mem_of_find? found)

theorem set (valid : r.Valid) (name : String) (value : Value) : (r.set name value).Valid := by
  constructor
  · intro v mem
    obtain ⟨u, there, rfl⟩ := List.mem_map.mp mem
    by_cases h : u.name = name
    · simpa [h] using valid.named u there
    · simpa [h] using valid.named u there
  · have names := valid.ascending
    rw [← List.pairwise_map (R := (· < ·)), ← vars_set r name value, List.pairwise_map] at names
    exact names

theorem insertVar (valid : r.Valid) (good : isName new.name = true) (free : r.find? new.name = none) :
    (Registry.mk (Registry.insertVar new r.vars)).Valid := by
  constructor
  · intro v mem
    rcases mem_insertVar.mp mem with rfl | mem
    · exact good
    · exact valid.named v mem
  · obtain ⟨vars⟩ := r
    have ascending : vars.Pairwise fun v v' => v.name < v'.name := valid.ascending
    have apart : ∀ v ∈ vars, v.name ≠ new.name := fun v mem same => by
      simpa [same] using List.find?_eq_none.mp free v mem
    clear valid free
    -- before the first greater name all names are less, since none is the same
    induction ascending with
    | nil => exact List.pairwise_singleton ..
    | @cons v rest first later ih =>
      unfold Registry.insertVar
      split
      · rename_i less
        refine .cons ?_ (.cons first later)
        intro u mem
        rcases List.mem_cons.mp mem with rfl | mem
        · exact less
        · exact less.trans (first u mem)
      · rename_i notLess
        refine .cons ?_ (ih fun u mem => apart u (List.mem_cons_of_mem v mem))
        intro u mem
        rcases mem_insertVar.mp mem with rfl | mem
        · exact lt_of_le_of_ne (not_lt.mp notLess) (apart v List.mem_cons_self)
        · exact first u mem

end Valid

end Registry

end FiberEngine.Config
