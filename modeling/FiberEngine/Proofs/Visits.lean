/-
FiberEngine.Proofs.Visits — a visit enumerates what was registered when it began.

A visit calls a visitor with one variable after the other. What the visitor does is not
known: each call may make any requests on the tunables, which variables it asks for may
depend on the answers, and it keeps a state of its own from call to call. So a visitor is a
tree of questions (`Errand`), and all statements are about every such tree.

Two things keep the enumeration in order. Which variables are visited is settled before the
first call, so that what the visitor registers is not visited. Requests never remove a
variable or change more of it than its value, so that each of these variables is still
there when its turn comes, and is seen with the value that it holds then.

The main statement is `visit_enumerates`.
-/
import FiberEngine.Proofs.Tunings

namespace FiberEngine

/-! ## 1. The order of bytes -/

namespace Text

/-- The bytes of a text. -/
def bytes (s : String) : List UInt8 :=
  s.toUTF8.data.toList

variable {s t : String}

/-- A character below 128 is its own byte. -/
theorem bytes_of_ascii (ascii : ∀ c ∈ s.toList, c.toNat < 128) :
    bytes s = s.toList.map fun c => c.val.toUInt8 := by
  have encoded : bytes s = s.toList.flatMap String.utf8EncodeChar := by
    rw [bytes, String.toUTF8_eq_toByteArray, ← String.utf8Encode_toList, List.utf8Encode,
      List.toList_data_toByteArray]
  rw [encoded]
  generalize s.toList = cs at ascii
  induction cs with
  | nil => rfl
  | cons c rest ih =>
    obtain ⟨low, ascii⟩ := List.forall_mem_cons.mp ascii
    have small : c.utf8Size = 1 := by
      rw [Char.utf8Size_eq_one_iff, UInt32.le_iff_toNat_le]
      exact Nat.lt_succ_iff.mp low
    rw [List.flatMap_cons, List.map_cons, ih ascii, String.utf8EncodeChar_eq_singleton small,
      List.singleton_append]

/-- Texts below 128 stand in the order of their bytes. -/
theorem bytes_lt (less : s < t) (asciiS : ∀ c ∈ s.toList, c.toNat < 128)
    (asciiT : ∀ c ∈ t.toList, c.toNat < 128) : bytes s < bytes t := by
  rw [bytes_of_ascii asciiS, bytes_of_ascii asciiT]
  have less : s.toList < t.toList := less
  generalize s.toList = cs at less asciiS
  generalize t.toList = ds at less asciiT
  have mono : ∀ c d : Char, c.toNat < 128 → d.toNat < 128 → c < d →
      c.val.toUInt8 < d.val.toUInt8 := by
    intro c d lowC lowD less
    have less : c.toNat < d.toNat := less
    rw [UInt8.lt_iff_toNat_lt, UInt32.toNat_toUInt8, UInt32.toNat_toUInt8]
    exact (Nat.mod_le ..).trans_lt (by rw [Nat.mod_eq_of_lt (by change d.toNat < _; omega)]; exact less)
  induction cs generalizing ds with
  | nil =>
    cases ds with
    | nil => cases less
    | cons d ds => exact List.nil_lt_cons ..
  | cons c cs ih =>
    cases ds with
    | nil => cases less
    | cons d ds =>
      obtain ⟨lowC, asciiS⟩ := List.forall_mem_cons.mp asciiS
      obtain ⟨lowD, asciiT⟩ := List.forall_mem_cons.mp asciiT
      rw [List.map_cons, List.map_cons, List.cons_lt_cons_iff]
      rcases List.cons_lt_cons_iff.mp less with first | ⟨same, later⟩
      · exact .inl (mono c d lowC lowD first)
      · exact .inr ⟨congrArg (fun c : Char => c.val.toUInt8) same, ih asciiS ds later asciiT⟩

end Text

namespace Config

theorem ascii_of_isNameChar {c : Char} (good : isNameChar c = true) : c.toNat < 128 := by
  simp only [isNameChar, Bool.or_eq_true, beq_iff_eq] at good
  rcases good with ((letter | digit) | rfl) | rfl
  · have most : c.val ≤ 'z'.val := of_decide_eq_true (Bool.and_eq_true_iff.mp letter).2
    exact (UInt32.le_iff_toNat_le.mp most).trans_lt (by decide)
  · exact (Char.isDigit_iff_toNat.mp digit).2.trans_lt (by decide)
  · decide
  · decide

/-- Variables in order stand in the order of the bytes of their names. -/
theorem Registry.Valid.bytes_ascending {r : Registry} (valid : r.Valid) :
    r.vars.Pairwise fun v v' => Text.bytes v.name < Text.bytes v'.name := by
  have ascii : ∀ v ∈ r.vars, ∀ c ∈ v.name.toList, c.toNat < 128 := by
    intro v mem c inside
    have named := valid.named v mem
    simp only [isName, Bool.and_eq_true, List.all_eq_true] at named
    exact ascii_of_isNameChar (named.2 c inside)
  exact valid.ascending.imp_of_mem fun mem mem' less =>
    Text.bytes_lt less (ascii _ mem) (ascii _ mem')

/-! ## 2. Variables that stay -/

/-- The variable is registered, whatever its value is by now. -/
def Registry.Keeps (r : Registry) (v : Var) : Prop :=
  ∃ v', r.find? v.name = some v' ∧ v'.fixed = v.fixed

namespace Registry

variable {r : Registry} {v : Var}

theorem Valid.keeps (valid : r.Valid) (mem : v ∈ r.vars) : r.Keeps v :=
  ⟨v, valid.find?_of_mem mem, rfl⟩

/-- No tuning takes a variable away. -/
theorem Keeps.after_all (keeps : r.Keeps v) (ts : List Tuning) :
    (ts.foldl Registry.after r).Keeps v := by
  obtain ⟨v', found, same⟩ := keeps
  obtain ⟨v'', later, same'⟩ := Tuning.becomes_all_some v.name v' ts
  exact ⟨v'', by rw [find?_after_all, found, later], same'.trans same⟩

end Registry

/-- A tuning registers a name exactly if it looks it up. -/
theorem Tuning.isSome_becomes {name : String} (good : isName name = true) (x : Option Var)
    (t : Tuning) : (t.becomes name x).isSome ↔ x.isSome ∨ t.LooksUp name := by
  cases t with
  | store asked value => simp [becomes, LooksUp]
  | lookup asked default description =>
    cases x with
    | some v => simp [becomes]
    | none => by_cases same : lowercase asked = name <;> simp [becomes, LooksUp, good, same]

/-- After a history a name is registered if it was so before, or if it has been looked up. -/
theorem Tuning.isSome_becomes_all {name : String} (good : isName name = true) (x : Option Var)
    (ts : List Tuning) :
    (ts.foldl (becomes name) x).isSome ↔ x.isSome ∨ ∃ t ∈ ts, t.LooksUp name := by
  induction ts generalizing x with
  | nil => simp
  | cons t rest ih => rw [List.foldl_cons, ih, isSome_becomes good]; simp [or_assoc]

end Config

/-! ## 3. Visitors -/

open Config (Tuning Var Registry isName)

/-- What a visitor does when it is called: it makes requests on the tunables, each in
dependence on what became of those before, and is through with a new state of its own. -/
inductive Errand (σ : Type) where
  | done (s : σ)
  | ask (op : Op) (tunes : op.tunes = true) (next : Outcome → Errand σ)

namespace Errand

variable {σ : Type}

def run : Errand σ → World → World × σ
  | done s, w => (w, s)
  | ask op _ next, w => (next (w.perform op).2).run (w.perform op).1

/-- The tunings that the requests make. -/
def tunings : Errand σ → World → List Tuning
  | done _, _ => []
  | ask op _ next, w =>
    op.tunings w.settings ++ (next (w.perform op).2).tunings (w.perform op).1

/-- An errand does to the registry what its tunings do. -/
theorem registry_run (e : Errand σ) (w : World) : (e.run w).1.process.registry =
    (e.tunings w).foldl Registry.after w.process.registry := by
  induction e generalizing w with
  | done s => rfl
  | ask op tunes next ih =>
    rw [run, tunings, List.foldl_append, ← World.registry_perform]
    exact ih _ _

end Errand

/-- A visitor, with a state of its own: what it does when it is called with a variable. -/
structure Visitor (σ : Type) where
  call : σ → Var → Errand σ

/-- A call of a visitor: what it finds, and the variable that it is called with. -/
structure Call (σ : Type) where
  world : World
  state : σ
  var : Var

namespace Visitor

variable {σ : Type} (f : Visitor σ)

/-- What a call leaves behind. -/
def after (c : Call σ) : World × σ :=
  (f.call c.state c.var).run c.world

/-- The tunings that a call makes. -/
def tunings (c : Call σ) : List Tuning :=
  (f.call c.state c.var).tunings c.world

/-- The calls are made one after the other, and each finds what the one before has left. -/
inductive Calls : World × σ → List (Call σ) → World × σ → Prop where
  | nil (x : World × σ) : Calls x [] x
  | cons {c : Call σ} {cs : List (Call σ)} {y : World × σ} :
      Calls (f.after c) cs y → Calls (c.world, c.state) (c :: cs) y

end Visitor

/-- A visit: the calls that it has made, and what it leaves behind. -/
structure Visit (σ : Type) where
  calls : List (Call σ)
  world : World
  state : σ

namespace World

variable {σ τ : Type}

/-- The variable behind a handle, with the value that it holds now. -/
def present (w : World) (v : Var) : Var :=
  (w.process.registry.find? v.name).getD v

/-- Call a visitor with variables, one after the other. -/
def visitEach (f : Visitor σ) : World → σ → List Var → Visit σ
  | w, s, [] => ⟨[], w, s⟩
  | w, s, v :: rest =>
    let c : Call σ := ⟨w, s, w.present v⟩
    let later := visitEach f (f.after c).1 (f.after c).2 rest
    { later with calls := c :: later.calls }

/-- Call a visitor with the variables that are registered now, in the order of their names. -/
def visit (w : World) (f : Visitor σ) (s : σ) : Visit σ :=
  visitEach f w s w.process.registry.vars

end World

/-! ## 4. Calls in turn -/

namespace Visitor

variable {σ : Type} {f : Visitor σ} {x y : World × σ} {before cs : List (Call σ)}

theorem registry_after (f : Visitor σ) (c : Call σ) : (f.after c).1.process.registry =
    (f.tunings c).foldl Registry.after c.world.process.registry :=
  (f.call c.state c.var).registry_run c.world

namespace Calls

/-- Calls do to the registry what their tunings do. -/
theorem registry (calls : f.Calls x cs y) : y.1.process.registry =
    (cs.flatMap f.tunings).foldl Registry.after x.1.process.registry := by
  induction calls with
  | nil x => rfl
  | @cons c cs y _ ih =>
    rw [ih, registry_after, List.flatMap_cons, List.foldl_append]

/-- Each call finds what the calls before it have left. -/
theorem split (calls : f.Calls x (before ++ cs) y) : ∃ z, f.Calls x before z ∧ f.Calls z cs y := by
  induction before generalizing x with
  | nil => exact ⟨x, .nil x, calls⟩
  | cons c before ih =>
    cases calls with
    | cons rest =>
      obtain ⟨z, first, later⟩ := ih rest
      exact ⟨z, .cons first, later⟩

theorem registry_at {c : Call σ} (calls : f.Calls x (before ++ c :: cs) y) :
    c.world.process.registry =
      (before.flatMap f.tunings).foldl Registry.after x.1.process.registry := by
  obtain ⟨z, first, later⟩ := calls.split
  cases later with
  | cons rest => exact first.registry

end Calls

end Visitor

namespace World

variable {σ : Type} {w : World} {v : Var}

/-- A variable that is registered is found behind its handle. -/
theorem find?_present (keeps : w.process.registry.Keeps v) :
    w.process.registry.find? v.name = some (w.present v) ∧ (w.present v).fixed = v.fixed := by
  obtain ⟨v', found, same⟩ := keeps
  have here : w.present v = v' := by rw [present, found, Option.getD_some]
  exact here ▸ ⟨found, same⟩

theorem present_name (keeps : w.process.registry.Keeps v) : (w.present v).name = v.name :=
  Registry.name_of_find? (find?_present keeps).1

/-- Variables that are registered are visited once each, in turn, as they are when their turn
comes. -/
theorem visitEach_calls (f : Visitor σ) (w : World) (s : σ) {vars : List Var}
    (keeps : ∀ v ∈ vars, w.process.registry.Keeps v) :
    let x := visitEach f w s vars
    f.Calls (w, s) x.calls (x.world, x.state) ∧
    x.calls.map (fun c => c.var.name) = vars.map Var.name ∧
    ∀ c ∈ x.calls, c.world.process.registry.find? c.var.name = some c.var := by
  induction vars generalizing w s with
  | nil => exact ⟨.nil _, rfl, fun c mem => absurd mem List.not_mem_nil⟩
  | cons v rest ih =>
    obtain ⟨mine, others⟩ := List.forall_mem_cons.mp keeps
    let c : Call σ := ⟨w, s, w.present v⟩
    have still : ∀ u ∈ rest, (f.after c).1.process.registry.Keeps u := fun u mem =>
      f.registry_after c ▸ (others u mem).after_all (f.tunings c)
    obtain ⟨turns, names, live⟩ := ih (f.after c).1 (f.after c).2 still
    refine ⟨.cons (c := c) turns, ?_, List.forall_mem_cons.mpr ⟨?_, live⟩⟩
    · exact List.cons_eq_cons.mpr ⟨present_name mine, names⟩
    · change w.process.registry.find? (w.present v).name = some (w.present v)
      rw [present_name mine, (find?_present mine).1]

/-! ## 5. The request for a list -/

theorem lookupVar_fst (w : World) (name : String) (default : Config.Value) (description : String) :
    (w.lookupVar name default description).1 = (w.lookup name default description).1 := by
  unfold lookupVar
  rcases w.lookup name default description with ⟨v, e | x⟩ <;> rfl

/-- The visitor that lists the variables it is called with, and that looks up another one
beside each if asked to. -/
def lister (register : Option String) : Visitor (List (String × String × String)) where
  call rows v :=
    match register with
    | some ending => .ask (.lookup (v.name ++ ending) visitDefault "added") rfl fun _ =>
        .done (rows ++ [(v.name, v.text, v.description)])
    | none => .done (rows ++ [(v.name, v.text, v.description)])

/-- A call of it adds a row, and the other variable if there is to be one. -/
theorem lister_after (register : Option String) (rows : List (String × String × String))
    (keeps : w.process.registry.Keeps v) :
    (lister register).after ⟨w, rows, w.present v⟩ =
      (match register with
        | some ending => (w.lookup (v.name ++ ending) visitDefault "added").1
        | none => w,
      rows ++ [(v.name, w.textOf v.name, v.description)]) := by
  obtain ⟨found, same⟩ := find?_present keeps
  have name := present_name keeps
  have description : (w.present v).description = v.description :=
    congrArg (fun x : String × String × Config.Kind => x.2.1) same
  rw [textOf_of_find? found, ← name, ← description]
  cases register with
  | none => rfl
  | some ending => simp only [Visitor.after, lister, Errand.run, perform, answered, lookupVar_fst]

theorem visitEach_lister (register : Option String) (w : World)
    (rows : List (String × String × String)) {vars : List Var}
    (keeps : ∀ v ∈ vars, w.process.registry.Keeps v) :
    (visitEach (lister register) w rows vars).world = (w.visitAll register vars).1 ∧
    (visitEach (lister register) w rows vars).state = rows ++ (w.visitAll register vars).2 := by
  induction vars generalizing w rows with
  | nil => exact ⟨rfl, (List.append_nil rows).symm⟩
  | cons v rest ih =>
    obtain ⟨mine, others⟩ := List.forall_mem_cons.mp keeps
    have after := lister_after register rows mine
    have still : ∀ u ∈ rest,
        ((lister register).after ⟨w, rows, w.present v⟩).1.process.registry.Keeps u :=
      fun u mem => (lister register).registry_after _ ▸ (others u mem).after_all _
    simp only [visitEach, visitAll]
    rw [after] at still ⊢
    obtain ⟨world, state⟩ := ih _ (rows ++ [(v.name, w.textOf v.name, v.description)]) still
    exact ⟨world, state.trans (List.append_assoc ..)⟩

/-- The request to list the variables is a visit. -/
theorem visitVars_eq_visit (valid : w.process.registry.Valid) (register : Option String) :
    w.visitVars register = ((w.visit (lister register) []).world,
      .vars (w.visit (lister register) []).state) := by
  obtain ⟨world, state⟩ := visitEach_lister register w [] fun _ mem => valid.keeps mem
  rw [visitVars, visit, world, state, List.nil_append]

/-! ## 6. Visits -/

/-- A visit enumerates what is registered when it begins. -/
structure Enumerates (w : World) (f : Visitor σ) (s : σ) : Prop where
  /-- The calls are made one after the other, and the visit leaves what the last one has left. -/
  turns : f.Calls (w, s) (w.visit f s).calls ((w.visit f s).world, (w.visit f s).state)
  /-- There is one call for each variable that is registered when the visit begins, -/
  once : (w.visit f s).calls.map (fun c => c.var.name) = w.process.registry.vars.map Var.name
  /-- in strictly ascending order of the bytes of their names, -/
  ascending : (w.visit f s).calls.Pairwise fun c d =>
    Text.bytes c.var.name < Text.bytes d.var.name
  /-- and none for a variable that is registered later. -/
  registered : ∀ name,
    (∃ c ∈ (w.visit f s).calls, c.var.name = name) ↔ (w.process.registry.find? name).isSome
  /-- A call shows the variable as it is registered at that moment. This is what the calls
  before it have made of the variable that was there when the visit began. -/
  live : ∀ before c later, (w.visit f s).calls = before ++ c :: later →
    c.world.process.registry.find? c.var.name = some c.var ∧
    (before.flatMap f.tunings).foldl (Tuning.becomes c.var.name)
      (w.process.registry.find? c.var.name) = some c.var
  /-- Afterwards each name is as the calls have made it, -/
  becomes : ∀ name, (w.visit f s).world.process.registry.find? name =
    ((w.visit f s).calls.flatMap f.tunings).foldl (Tuning.becomes name)
      (w.process.registry.find? name)
  /-- the variables that were there are still there, with their descriptions and kinds, -/
  kept : ∀ name v, w.process.registry.find? name = some v →
    ∃ v', (w.visit f s).world.process.registry.find? name = some v' ∧ v'.fixed = v.fixed
  /-- and besides them those that the visitor has looked up. -/
  holds : ∀ name, ((w.visit f s).world.process.registry.find? name).isSome ↔
    (w.process.registry.find? name).isSome ∨
      isName name ∧ ∃ c ∈ (w.visit f s).calls, ∃ t ∈ f.tunings c, t.LooksUp name

section

variable (valid : w.process.registry.Valid) (f : Visitor σ) (s : σ)

include valid

/-- The calls of a visit, the variables that they are made with, and how these are seen. -/
theorem visit_calls :
    f.Calls (w, s) (w.visit f s).calls ((w.visit f s).world, (w.visit f s).state) ∧
    (w.visit f s).calls.map (fun c => c.var.name) = w.process.registry.vars.map Var.name ∧
    ∀ c ∈ (w.visit f s).calls, c.world.process.registry.find? c.var.name = some c.var :=
  visitEach_calls f w s fun _ mem => valid.keeps mem

/-- A visit leaves the registry in order. -/
theorem visit_valid : (w.visit f s).world.process.registry.Valid := by
  obtain ⟨turns, -, -⟩ := visit_calls valid f s
  exact turns.registry ▸ valid.after_all _

theorem find?_visit (name : String) : (w.visit f s).world.process.registry.find? name =
    ((w.visit f s).calls.flatMap f.tunings).foldl (Tuning.becomes name)
      (w.process.registry.find? name) := by
  obtain ⟨turns, -, -⟩ := visit_calls valid f s
  rw [← Registry.find?_after_all]
  exact congrArg (Registry.find? · name) turns.registry

theorem isSome_visit (name : String) :
    ((w.visit f s).world.process.registry.find? name).isSome ↔
      (w.process.registry.find? name).isSome ∨
        isName name ∧ ∃ c ∈ (w.visit f s).calls, ∃ t ∈ f.tunings c, t.LooksUp name := by
  by_cases good : isName name = true
  · rw [find?_visit valid, Tuning.isSome_becomes_all good]
    simp only [good, true_and, List.mem_flatMap]
    grind
  · -- what is no name is registered neither before nor afterwards
    have free : ∀ r : Registry, r.Valid → r.find? name = none := fun r valid =>
      Option.eq_none_iff_forall_ne_some.mpr fun v found => good (valid.isName_of_find? found)
    simp [free _ valid, free _ (visit_valid valid f s), good]

/-- What is called for is what was registered. -/
theorem called_iff (name : String) :
    (∃ c ∈ (w.visit f s).calls, c.var.name = name) ↔ (w.process.registry.find? name).isSome := by
  obtain ⟨-, once, -⟩ := visit_calls valid f s
  have listed : (∃ c ∈ (w.visit f s).calls, c.var.name = name) ↔
      name ∈ w.process.registry.vars.map Var.name := by
    rw [← once]
    exact List.mem_map.symm
  rw [listed, List.mem_map, Option.isSome_iff_exists]
  constructor
  · rintro ⟨v, mem, rfl⟩
    exact ⟨v, valid.find?_of_mem mem⟩
  · rintro ⟨v, found⟩
    exact ⟨v, Registry.mem_of_find? found, Registry.name_of_find? found⟩

/-- The variable that a call shows is what the calls before it have made of it. -/
theorem shown_at {before later : List (Call σ)} {c : Call σ}
    (calls : (w.visit f s).calls = before ++ c :: later) :
    c.world.process.registry.find? c.var.name = some c.var ∧
    (before.flatMap f.tunings).foldl (Tuning.becomes c.var.name)
      (w.process.registry.find? c.var.name) = some c.var := by
  obtain ⟨turns, -, live⟩ := visit_calls valid f s
  rw [calls] at turns live
  have now := live c (List.mem_append_right before List.mem_cons_self)
  refine ⟨now, ?_⟩
  rw [← Registry.find?_after_all, ← now, turns.registry_at]

/-- A variable stays, with its description and its kind. -/
theorem find?_visit_some {name : String} (found : w.process.registry.find? name = some v) :
    ∃ v', (w.visit f s).world.process.registry.find? name = some v' ∧ v'.fixed = v.fixed := by
  rw [find?_visit valid, found]
  exact Tuning.becomes_all_some name v _

theorem enumerates_of_valid : w.Enumerates f s := by
  obtain ⟨turns, once, -⟩ := visit_calls valid f s
  exact {
    turns
    once
    ascending := by
      rw [← List.pairwise_map (R := (Text.bytes · < Text.bytes ·)), once, List.pairwise_map]
      exact valid.bytes_ascending
    registered := called_iff valid f s
    live := fun _ _ _ => shown_at valid f s
    becomes := find?_visit valid f s
    kept := fun _ _ => find?_visit_some valid f s
    holds := isSome_visit valid f s }

end

/-- **A visit enumerates a snapshot.** Let the registry be in order, as it is in every state of
every run (`Machine.registry_valid`). Whatever a visitor does, it is called once for each
variable that is registered when the visit begins, in strictly ascending order of the bytes
of the names, and never for one that is registered meanwhile. It sees each variable with the
value that it holds at that moment, after all that earlier calls have changed. Afterwards
the registry holds the variables that were there, and those that the visitor has looked up.
Another visit enumerates them all in the same way, also with another visitor. The request to
list the variables is such a visit. -/
theorem visit_enumerates (valid : w.process.registry.Valid) (f : Visitor σ) (s : σ) :
    w.Enumerates f s ∧
    (∀ {τ : Type} (g : Visitor τ) (t : τ), (w.visit f s).world.Enumerates g t) ∧
    ∀ register, w.visitVars register =
      ((w.visit (lister register) []).world, .vars (w.visit (lister register) []).state) :=
  ⟨enumerates_of_valid valid f s, fun g t => enumerates_of_valid (visit_valid valid f s) g t,
    visitVars_eq_visit valid⟩

/-- Two variables, the one with the greater name registered first. -/
def twoRegistered : World :=
  ((Machine.start none .sink [.lookup "b" visitDefault "", .lookup "a" visitDefault ""]).steps
    2).world

/-- A visitor that notes what it sees, and that sets another variable and registers a third
one when it is called with the first. -/
def meddler : Visitor (List String) where
  call seen v :=
    if v.name = "a" then
      .ask (.parse "b" "5") rfl fun _ => .ask (.lookup "c" visitDefault "") rfl fun _ =>
        .done (seen ++ [v.text])
    else .done (seen ++ [v.text])

/-- The second variable is seen with its new value, and the third one by the next visit. -/
theorem meddler_enumerates :
    twoRegistered.process.registry.Valid ∧ twoRegistered.Enumerates meddler [] ∧
    (twoRegistered.visit meddler []).state = ["1", "5"] ∧
    (twoRegistered.visit meddler []).world.Enumerates meddler [] ∧
    ((twoRegistered.visit meddler []).world.visit meddler []).state = ["1", "5", "1"] := by
  have valid : twoRegistered.process.registry.Valid := Machine.registry_valid ..
  obtain ⟨first, next, -⟩ := visit_enumerates valid meddler []
  exact ⟨valid, first, by decide +kernel, next meddler [], by decide +kernel⟩

end World

end FiberEngine
