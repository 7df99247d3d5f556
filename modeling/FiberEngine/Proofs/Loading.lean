/-
FiberEngine.Proofs.Loading — a document is applied as a whole or not at all.

A document is applied in two phases: every leaf that names a variable is read first, and
what was read is stored only if all could be read. The plain way to do the same is to set
the variables from their texts one after the other, which `World.parseEach` does up to the
first text that cannot be read. The two come to the same as long as nothing fails, also
when several leaves name one variable: storing a value keeps what decides how a text is
read for a variable, its name and its kind (`SameVars`).

The main statement is `loads_as_a_whole`.
-/
import FiberEngine.Proofs.Documents
import FiberEngine.Proofs.Names
import FiberEngine.Proofs.Sound
import FiberEngine.World.Tunables

namespace FiberEngine

namespace Config

/-! ## 1. Registries with the same variables -/

/-- All of a variable but its value. -/
def Var.fixed (v : Var) : String × String × Kind :=
  (v.name, v.description, v.value.kind)

theorem Var.fixed_with {v : Var} {value : Value} (same : v.value.kind = value.kind) :
    Var.fixed { v with value } = v.fixed := by
  simp [Var.fixed, same]

/-- What is read for a variable has its kind. -/
theorem Var.kind_of_stage {v : Var} {text : String} {value : Value}
    (staged : v.stage text = .ok value) : value.kind = v.value.kind := by
  unfold stage at staged
  split at staged
  · rename_i read
    cases staged
    exact Value.kind_of_read? read
  · cases staged

/-- The variable after it was set from a text: with the value read, if there is one. -/
def Var.parsed (v : Var) (text : String) : Var :=
  match v.stage text with
  | .ok value => { v with value }
  | .error _ => v

theorem Var.parsed_of_stage {v : Var} {text : String} {value : Value}
    (staged : v.stage text = .ok value) : v.parsed text = { v with value } := by
  simp only [parsed, staged]

/-- A text that cannot be read is told with the name of the variable. -/
theorem Var.error_of_stage {v : Var} {text : String} {e : ConfigError}
    (refused : v.stage text = .error e) : e = .parse v.name text := by
  unfold stage at refused
  split at refused
  · cases refused
  · exact (Except.error.inj refused).symm

/-- Whether a text can be read, and as what, is up to all of a variable but its value. -/
theorem Var.stage_congr {v v' : Var} (same : v'.fixed = v.fixed) (text : String) :
    v'.stage text = v.stage text := by
  simp only [fixed, Prod.mk.injEq] at same
  rw [stage, stage, same.1, same.2.2]

namespace Registry

variable {r r' r'' : Registry} {v : Var} {name : String} {value : Value}
  {leaves : List (String × String)}

/-- The same variables are registered, whatever their values are. -/
structure SameVars (r r' : Registry) : Prop where
  names : r'.vars.map Var.name = r.vars.map Var.name
  fixed : ∀ name, (r'.find? name).map Var.fixed = (r.find? name).map Var.fixed

namespace SameVars

theorem refl (r : Registry) : r.SameVars r :=
  ⟨rfl, fun _ => rfl⟩

theorem trans (first : r.SameVars r') (second : r'.SameVars r'') : r.SameVars r'' :=
  ⟨second.names.trans first.names, fun name => (second.fixed name).trans (first.fixed name)⟩

/-- A name that denotes a variable still denotes it. -/
theorem get? (same : r.SameVars r') (found : r.get? name = some v) :
    ∃ v', r'.get? name = some v' ∧ v'.fixed = v.fixed := by
  have fixed := same.fixed (lowercase name)
  rw [show r.find? (lowercase name) = some v from found] at fixed
  exact Option.map_eq_some_iff.mp fixed

end SameVars

/-- A value of its kind keeps a variable what it is. -/
theorem set_sameVars (found : r.find? name = some v) (kind : value.kind = v.value.kind) :
    r.SameVars (r.set name value) := by
  refine ⟨vars_set r name value, fun other => ?_⟩
  rw [find?_set, Option.map_map]
  cases there : r.find? other with
  | none => rfl
  | some u =>
    by_cases h : other = name
    · subst h
      obtain rfl : v = u := Option.some.inj (found.symm.trans there)
      simp [Var.fixed_with kind.symm]
    · simp [h]

/-! ## 2. Reading the leaves -/

/-- The leaves that name a variable. -/
def known (r : Registry) (leaves : List (String × String)) : List (String × String) :=
  leaves.filter fun l => (r.get? l.1).isSome

theorem known_cons_of_none {text : String} (missing : r.get? name = none) :
    r.known ((name, text) :: leaves) = r.known leaves := by
  simp [known, missing]

theorem known_cons_of_some {text : String} (found : r.get? name = some v) :
    r.known ((name, text) :: leaves) = (name, text) :: r.known leaves := by
  simp [known, found]

/-- The leaf can be read for the variable that it names. -/
def Reads (r : Registry) (l : String × String) (value : Value) : Prop :=
  ∃ v, r.get? l.1 = some v ∧ v.stage l.2 = .ok value

/-- The error is that of the first leaf that cannot be read. -/
def Refuses (r : Registry) (leaves : List (String × String)) (e : ConfigError) : Prop :=
  ∃ before l after v, leaves = before ++ l :: after ∧
    (∀ l ∈ before, ∃ value, r.Reads l value) ∧ r.get? l.1 = some v ∧
    v.stage l.2 = .error e ∧ e = .parse v.name l.2

/-- What is staged are the leaves that name a variable, in order, each with its value. -/
theorem stageAll_ok {staged : List Staged} (ok : r.stageAll leaves = .ok staged) :
    staged.map (fun s => (s.name, s.text)) = r.known leaves ∧
      ∀ s ∈ staged, r.Reads (s.name, s.text) s.value := by
  induction leaves generalizing staged with
  | nil =>
    cases ok
    exact ⟨rfl, by simp⟩
  | cons l rest ih =>
    obtain ⟨name, text⟩ := l
    simp only [stageAll] at ok
    split at ok
    · rename_i missing
      rw [known_cons_of_none missing]
      exact ih ok
    · rename_i v found
      split at ok
      · cases ok
      · rename_i value read
        split at ok
        · cases ok
        · rename_i later all
          cases ok
          obtain ⟨same, reads⟩ := ih all
          rw [known_cons_of_some found, List.map_cons, same]
          exact ⟨rfl, List.forall_mem_cons.mpr ⟨⟨v, found, read⟩, reads⟩⟩

theorem stageAll_error {e : ConfigError} (refused : r.stageAll leaves = .error e) :
    r.Refuses (r.known leaves) e := by
  induction leaves with
  | nil => cases refused
  | cons l rest ih =>
    obtain ⟨name, text⟩ := l
    simp only [stageAll] at refused
    split at refused
    · rename_i missing
      rw [known_cons_of_none missing]
      exact ih refused
    · rename_i v found
      rw [known_cons_of_some found]
      split at refused
      · rename_i e' failed
        cases refused
        exact ⟨[], (name, text), r.known rest, v, rfl, by simp, found, failed,
          Var.error_of_stage failed⟩
      · rename_i value read
        split at refused
        · rename_i e' failed
          cases refused
          obtain ⟨before, l, after, u, same, reads, rest⟩ := ih failed
          exact ⟨(name, text) :: before, l, after, u, by rw [same, List.cons_append],
            List.forall_mem_cons.mpr ⟨⟨value, v, found, read⟩, reads⟩, rest⟩
        · cases refused

/-! ## 3. Storing what was read -/

@[simp]
theorem apply_nil (r : Registry) : r.apply [] = r :=
  rfl

theorem apply_cons (r : Registry) (s : Staged) (rest : List Staged) :
    r.apply (s :: rest) = (r.set (lowercase s.name) s.value).apply rest :=
  rfl

/-- Of several values for one variable, the last one stays. -/
theorem find?_apply (r : Registry) (staged : List Staged) (name : String) :
    (r.apply staged).find? name = (r.find? name).map fun v =>
      ((staged.filter fun s => lowercase s.name = name).getLast?).elim v
        fun s => { v with value := s.value } := by
  induction staged generalizing r with
  | nil => simp
  | cons s rest ih =>
    rw [apply_cons, ih, find?_set, Option.map_map]
    congr 1
    funext v
    by_cases mine : lowercase s.name = name
    · cases last : (rest.filter fun s => lowercase s.name = name).getLast? with
      | none => simp [mine, List.getLast?_cons, last]
      | some s' => simp [mine, List.getLast?_cons, last]
    · simp [mine, Ne.symm mine]

/-- The leaf that comes last among those that denote one variable decides its value. -/
theorem find?_apply_of_stageAll {staged : List Staged} (ok : r.stageAll leaves = .ok staged)
    (name : String) :
    (r.apply staged).find? name = (r.find? name).map fun v =>
      (((r.known leaves).filter fun l => lowercase l.1 = name).getLast?).elim v
        fun l => v.parsed l.2 := by
  obtain ⟨known, reads⟩ := stageAll_ok ok
  rw [find?_apply, ← known, List.filter_map, List.getLast?_map]
  refine Option.map_congr fun v found => ?_
  cases last : (staged.filter fun s => lowercase s.name = name).getLast? with
  | none => simp [Function.comp_def, last]
  | some s =>
    obtain ⟨mem, mine⟩ := List.mem_filter.mp (List.mem_of_getLast? last)
    obtain ⟨u, there, read⟩ := reads s mem
    obtain rfl : v = u := Option.some.inj (found.symm.trans (of_decide_eq_true mine ▸ there))
    simp [Function.comp_def, last, Var.parsed_of_stage read]

/-- Values of the right kinds keep all variables what they are. -/
theorem apply_sameVars {staged : List Staged}
    (reads : ∀ s ∈ staged, r.Reads (s.name, s.text) s.value) : r.SameVars (r.apply staged) := by
  suffices all : ∀ r', r.SameVars r' → r.SameVars (r'.apply staged) from all r (.refl r)
  induction staged with
  | nil => exact fun r' same => same
  | cons s rest ih =>
    intro r' same
    obtain ⟨⟨v, found, read⟩, reads⟩ := List.forall_mem_cons.mp reads
    obtain ⟨v', found', fixed⟩ := same.get? found
    refine ih reads _ (same.trans (set_sameVars found' ?_))
    exact Var.kind_of_stage ((Var.stage_congr fixed s.text).trans read)

end Registry

end Config

/-! ## 4. One variable after the other -/

namespace World

open Config (Var Registry lowercase)

variable {w v : World}

/-- Set variables from texts, one after the other, up to the first text that cannot be
read for its variable. -/
def parseEach (w : World) : List (String × String) → World × Option ConfigError
  | [] => (w, none)
  | (name, text) :: rest =>
    match w.parseVar name text with
    | (v, .parsed (some e) _) => (v, some e)
    | (v, _) => parseEach v rest

/-- Log that the leaves have been stored. -/
def logUpdates (w : World) (leaves : List (String × String)) : World :=
  leaves.foldl (fun w l => w.log (.configUpdated l.1 l.2)) w

theorem parseEach_of_ok {name text : String} {rest : List (String × String)} {x : Var}
    {value : Config.Value} (found : w.process.registry.get? name = some x)
    (read : x.stage text = .ok value) :
    w.parseEach ((name, text) :: rest) = (w.store (lowercase name) value).parseEach rest := by
  simp only [parseEach, parseVar, found, read, Registry.name_of_get? found]

theorem parseEach_of_error {name text : String} {rest : List (String × String)} {x : Var}
    {e : ConfigError} (found : w.process.registry.get? name = some x)
    (refused : x.stage text = .error e) : w.parseEach ((name, text) :: rest) = (w, some e) := by
  simp only [parseEach, parseVar, found, refused]

/-- If all leaves can be read, setting them in turn stores what was staged for them. -/
theorem parseEach_of_staged {r : Registry} {leaves : List (String × String)}
    {staged : List Registry.Staged} (ok : r.stageAll leaves = .ok staged) (w : World)
    (same : r.SameVars w.process.registry) :
    w.parseEach (r.known leaves) = (w.withRegistry (w.process.registry.apply staged), none) := by
  obtain ⟨known, reads⟩ := Registry.stageAll_ok ok
  rw [← known]
  clear known ok
  induction staged generalizing w with
  | nil => rfl
  | cons s rest ih =>
    obtain ⟨⟨x, found, read⟩, reads⟩ := List.forall_mem_cons.mp reads
    obtain ⟨x', found', fixed⟩ := same.get? found
    have read' := (Config.Var.stage_congr fixed s.text).trans read
    rw [List.map_cons, parseEach_of_ok found' read',
      ih _ (same.trans (Registry.set_sameVars found' (Config.Var.kind_of_stage read'))) reads]
    rfl

/-- If some leaf cannot be read, setting them in turn meets the same error first. -/
theorem parseEach_of_refused {r : Registry} {leaves : List (String × String)} {e : ConfigError}
    (refused : r.stageAll leaves = .error e) (w : World) (same : r.SameVars w.process.registry) :
    (w.parseEach (r.known leaves)).2 = some e := by
  obtain ⟨before, l, after, x, known, reads, found, failed, -⟩ := Registry.stageAll_error refused
  rw [known]
  clear known refused
  induction before generalizing w with
  | nil =>
    obtain ⟨x', found', fixed⟩ := same.get? found
    rw [List.nil_append,
      parseEach_of_error found' ((Config.Var.stage_congr fixed l.2).trans failed)]
  | cons l' before ih =>
    obtain ⟨⟨value, y, found', read⟩, reads⟩ := List.forall_mem_cons.mp reads
    obtain ⟨y', found'', fixed⟩ := same.get? found'
    have read' := (Config.Var.stage_congr fixed l'.2).trans read
    rw [List.cons_append, parseEach_of_ok found'' read']
    exact ih _ (same.trans (Registry.set_sameVars found'' (Config.Var.kind_of_stage read'))) reads

/-! ## 5. The whole document -/

theorem loadDocument_of_staged {source : String} {entries : List (String × Toml.Value)}
    {staged : List Registry.Staged} (parsed : Toml.document? source = some entries)
    (ok : w.process.registry.stageAll (Toml.leaves "" entries) = .ok staged) :
    w.loadDocument source =
      ((w.withRegistry (w.process.registry.apply staged)).logUpdates
        (w.process.registry.known (Toml.leaves "" entries)), .fine) := by
  simp only [loadDocument, parsed, ok]
  rw [← (Registry.stageAll_ok ok).1, logUpdates, List.foldl_map]

theorem loadDocument_of_refused {source : String} {entries : List (String × Toml.Value)}
    {e : ConfigError} (parsed : Toml.document? source = some entries)
    (refused : w.process.registry.stageAll (Toml.leaves "" entries) = .error e) :
    w.loadDocument source = (w, .configFailed e) := by
  simp only [loadDocument, parsed, refused]

@[simp]
theorem registry_logUpdates (w : World) (leaves : List (String × String)) :
    (w.logUpdates leaves).process.registry = w.process.registry := by
  induction leaves generalizing w with
  | nil => rfl
  | cons l rest ih => exact (ih _).trans (log_same w _).registry

theorem loadDocument_sameVars (w : World) (source : String) :
    w.process.registry.SameVars (w.loadDocument source).1.process.registry := by
  cases parsed : Toml.document? source with
  | none =>
    simp only [loadDocument, parsed]
    exact .refl _
  | some entries =>
    cases staging : w.process.registry.stageAll (Toml.leaves "" entries) with
    | error e =>
      rw [loadDocument_of_refused parsed staging]
      exact .refl _
    | ok staged =>
      rw [loadDocument_of_staged parsed staging, registry_logUpdates]
      exact Registry.apply_sameVars (Registry.stageAll_ok staging).2

/-- **A document is loaded as a whole or not at all.** What is no document is refused. Of a
document, whose tables are in ascending order of their keys, the leaves that name a
variable count. If the variables can be set from all of them, one after the other, loading
comes to the same and logs each leaf, so that the last one for a variable decides; if not,
it changes nothing, and the error is that of the first leaf that cannot be read. In no case
is a variable added, removed or changed in its kind or description. -/
theorem loads_as_a_whole (w : World) (source : String) :
    (Toml.document? source = none → w.loadDocument source = (w, .configFailed .document)) ∧
    (∀ entries, Toml.document? source = some entries →
      (Toml.Value.table entries).InOrder ∧
      (∀ v, w.parseEach (w.process.registry.known (Toml.leaves "" entries)) = (v, none) →
        w.loadDocument source =
          (v.logUpdates (w.process.registry.known (Toml.leaves "" entries)), .fine) ∧
        (w.loadDocument source).1.process.registry = v.process.registry ∧
        ∀ name, v.process.registry.find? name = (w.process.registry.find? name).map fun x =>
          (((w.process.registry.known (Toml.leaves "" entries)).filter
            fun l => lowercase l.1 = name).getLast?).elim x fun l => x.parsed l.2) ∧
      (∀ v e, w.parseEach (w.process.registry.known (Toml.leaves "" entries)) = (v, some e) →
        w.loadDocument source = (w, .configFailed e) ∧
        w.process.registry.Refuses (w.process.registry.known (Toml.leaves "" entries)) e)) ∧
    w.process.registry.SameVars (w.loadDocument source).1.process.registry := by
  refine ⟨fun refused => by simp only [loadDocument, refused], fun entries parsed => ?_,
    loadDocument_sameVars w source⟩
  refine ⟨Toml.document?_inOrder parsed, ?_⟩
  cases staging : w.process.registry.stageAll (Toml.leaves "" entries) with
  | error e =>
    have refused := parseEach_of_refused staging w (.refl _)
    refine ⟨fun v each => ?_, fun v e' each => ?_⟩
    · rw [each] at refused
      cases refused
    · rw [each] at refused
      cases refused
      exact ⟨loadDocument_of_refused parsed staging, Registry.stageAll_error staging⟩
  | ok staged =>
    rw [parseEach_of_staged staging w (.refl _)]
    refine ⟨fun v each => ?_, fun v e each => by cases each⟩
    cases each
    have loaded := loadDocument_of_staged parsed staging
    exact ⟨loaded, by rw [loaded, registry_logUpdates],
      Registry.find?_apply_of_stageAll staging⟩

end World

end FiberEngine
