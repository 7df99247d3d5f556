/-
FiberEngine.Proofs.Tunings — what has been asked for decides what is registered.

All that changes a registry comes down to two things (`Tuning`): a name is looked up with
a default, or a value is stored under a name. Each operation makes some of these,
`Op.tunings`, in dependence on the settings that it finds, and the registry after any run
is the one after all tunings of the run.

What such a history leaves under one name can be told without the rest of the registry:
`Tuning.becomes` says what becomes of the variable of one name, and `find?_after` that a
registry does just that. The first lookup of a name makes the variable, and no later
tuning changes more of it than its value.

The main statement is `registry_law`. How a single request comes to its variable is in
`World.Lawful`, which holds of every world with a registry in order.
-/
import FiberEngine.Proofs.Loading
import FiberEngine.Proofs.Settings

namespace FiberEngine

namespace Config

/-! ## 1. Tunings -/

/-- What can change a registry. -/
inductive Tuning where
  | lookup (name : String) (default : Value) (description : String)
  | store (name : String) (value : Value)

/-- The tuning is a lookup of this name. -/
def Tuning.LooksUp (name : String) (t : Tuning) : Prop :=
  ∃ asked default description, t = .lookup asked default description ∧ lowercase asked = name

/-- The tuning is made under this name. -/
def Tuning.Concerns (name : String) : Tuning → Prop
  | .lookup asked _ _ | .store asked _ => lowercase asked = name

/-- What becomes of the variable of a name, if there is one. -/
def Tuning.becomes (name : String) (x : Option Var) : Tuning → Option Var
  | .lookup asked default description =>
    match x with
    | some v => some v
    | none =>
      if lowercase asked = name ∧ isName name then some ⟨name, description, default⟩ else none
  | .store asked value =>
    x.map fun v =>
      if lowercase asked = name ∧ v.value.kind = value.kind then { v with value } else v

namespace Registry

variable {r : Registry} {v : Var} {name other : String} {default value : Value}
  {description : String}

/-- The registry that a lookup leaves behind. -/
def Lookup.leaves (r : Registry) : Lookup → Registry
  | .invalid _ _ | .mismatched _ | .found _ => r
  | .added _ r' => r'

/-- The registry after a tuning. A value is stored if the name denotes a variable of its
kind. -/
def after (r : Registry) : Tuning → Registry
  | .lookup name default description => (r.lookup name default description).leaves r
  | .store name value =>
    if (r.typed? value.kind name).isSome then r.set (lowercase name) value else r

theorem lookup_of_invalid (invalid : isName (lowercase name) = false) :
    r.lookup name default description =
      .invalid (.invalidName (lowercase name)) (lowercase name) := by
  simp [lookup, normalize, invalid]

theorem lookup_of_found (good : isName (lowercase name) = true) (found : r.get? name = some v) :
    r.lookup name default description =
      if v.value.kind = default.kind then .found v else .mismatched v.name := by
  have there : r.find? (lowercase name) = some v := found
  simp only [lookup, normalize, good, if_true, there, name_of_get? found]

theorem lookup_of_free (good : isName (lowercase name) = true) (free : r.get? name = none) :
    r.lookup name default description = .added ⟨lowercase name, description, default⟩
      ⟨insertVar ⟨lowercase name, description, default⟩ r.vars⟩ := by
  have missing : r.find? (lowercase name) = none := free
  simp only [lookup, normalize, good, if_true, missing]

/-- Looking up what is there changes nothing, also when the kind is another. -/
theorem after_lookup_of_found (good : isName (lowercase name) = true) (found : r.get? name = some v) :
    r.after (.lookup name default description) = r := by
  rw [after, lookup_of_found good found]
  split <;> rfl

theorem after_store (found : r.typed? value.kind name = some v) :
    r.after (.store name value) = r.set v.name value := by
  simp [after, found, name_of_get? (typed?_eq_some.mp found).1]

/-- A lookup makes the variable of its own name, if there is none, and no other. -/
theorem find?_after_lookup (r : Registry) (asked : String) (default : Value) (description name : String) :
    (r.after (.lookup asked default description)).find? name =
      (Tuning.lookup asked default description).becomes name (r.find? name) := by
  cases good : isName (lowercase asked) with
  | false =>
    simp only [after, lookup_of_invalid good, Lookup.leaves, Tuning.becomes]
    cases r.find? name with
    | some v => rfl
    | none =>
      have other : ¬ (lowercase asked = name ∧ isName name = true) := by
        rintro ⟨rfl, named⟩
        cases good.symm.trans named
      simp [other]
  | true =>
    cases found : r.get? asked with
    | some v =>
      simp only [after_lookup_of_found good found, Tuning.becomes]
      cases there : r.find? name with
      | some u => rfl
      | none =>
        have other : ¬ (lowercase asked = name ∧ isName name = true) := by
          rintro ⟨rfl, -⟩
          cases there.symm.trans found
        simp [other]
    | none =>
      simp only [after, lookup_of_free good found, Lookup.leaves]
      have free : r.find? (Var.name ⟨lowercase asked, description, default⟩) = none := found
      rw [find?_insertVar free]
      by_cases same : name = lowercase asked
      · subst same
        have missing : r.find? (lowercase asked) = none := found
        simp [Tuning.becomes, missing, good]
      · simp only [if_neg same, Tuning.becomes]
        cases r.find? name with
        | some v => rfl
        | none => simp [Ne.symm same]

/-- A value goes to the variable of its name, if that is of its kind, and to no other. -/
theorem find?_after_store (r : Registry) (asked : String) (value : Value) (name : String) :
    (r.after (.store asked value)).find? name =
      (Tuning.store asked value).becomes name (r.find? name) := by
  simp only [Tuning.becomes]
  cases found : r.typed? value.kind asked with
  | some v =>
    obtain ⟨there, kind⟩ := typed?_eq_some.mp found
    rw [after_store found, find?_set, name_of_get? there]
    refine Option.map_congr fun u here => ?_
    by_cases same : name = lowercase asked
    · subst same
      obtain rfl : v = u := Option.some.inj (there.symm.trans here)
      simp [kind]
    · simp [same, Ne.symm same]
  | none =>
    have kept : r.after (.store asked value) = r := by simp [after, found]
    rw [kept]
    cases here : r.find? name with
    | none => rfl
    | some u =>
      have other : ¬ (lowercase asked = name ∧ u.value.kind = value.kind) := by
        rintro ⟨rfl, kind⟩
        rw [typed?_eq_some.mpr ⟨here, kind⟩] at found
        cases found
      simp [other]

/-- A tuning does to the variable of each name what `becomes` says. -/
theorem find?_after (r : Registry) (t : Tuning) (name : String) :
    (r.after t).find? name = t.becomes name (r.find? name) := by
  cases t with
  | lookup asked default description => exact find?_after_lookup r asked default description name
  | store asked value => exact find?_after_store r asked value name

theorem Valid.after (valid : r.Valid) (t : Tuning) : (r.after t).Valid := by
  cases t with
  | lookup asked default description =>
    cases good : isName (lowercase asked) with
    | false =>
      rw [Registry.after, lookup_of_invalid good]
      exact valid
    | true =>
      cases found : r.get? asked with
      | some v =>
        rw [after_lookup_of_found good found]
        exact valid
      | none =>
        rw [Registry.after, lookup_of_free good found]
        exact valid.insertVar good found
  | store asked value =>
    unfold Registry.after
    simp only
    split
    · exact valid.set _ _
    · exact valid

/-! ### Histories -/

variable {ts : List Tuning}

theorem Valid.after_all (valid : r.Valid) (ts : List Tuning) :
    (ts.foldl Registry.after r).Valid := by
  induction ts generalizing r with
  | nil => exact valid
  | cons t rest ih => exact ih (valid.after t)

/-- After any history, each name is as if there were no others. -/
theorem find?_after_all (r : Registry) (ts : List Tuning) (name : String) :
    (ts.foldl Registry.after r).find? name = ts.foldl (Tuning.becomes name) (r.find? name) := by
  induction ts generalizing r with
  | nil => rfl
  | cons t rest ih => rw [List.foldl_cons, ih, find?_after, List.foldl_cons]

end Registry

/-- No tuning changes more of a variable than its value. -/
theorem Tuning.becomes_some (name : String) (v : Var) (t : Tuning) :
    ∃ v', t.becomes name (some v) = some v' ∧ v'.fixed = v.fixed := by
  cases t with
  | lookup asked default description => exact ⟨v, rfl, rfl⟩
  | store asked value =>
    refine ⟨_, rfl, ?_⟩
    dsimp only
    split
    · rename_i same
      exact Var.fixed_with same.2
    · rfl

/-- What is done under other names does not matter. -/
theorem Tuning.becomes_of_other {name : String} {t : Tuning} (other : ¬ t.Concerns name)
    (x : Option Var) : t.becomes name x = x := by
  cases t with
  | lookup asked default description =>
    have unlike : ¬ (lowercase asked = name ∧ isName name = true) := fun same => other same.1
    cases x <;> simp [becomes, unlike]
  | store asked value =>
    have unlike : lowercase asked ≠ name := other
    cases x <;> simp [becomes, unlike]

theorem Tuning.becomes_all_some (name : String) (v : Var) (ts : List Tuning) :
    ∃ v', ts.foldl (becomes name) (some v) = some v' ∧ v'.fixed = v.fixed := by
  induction ts generalizing v with
  | nil => exact ⟨v, rfl, rfl⟩
  | cons t rest ih =>
    obtain ⟨u, kept, same⟩ := becomes_some name v t
    obtain ⟨v', rest, fixed⟩ := ih u
    exact ⟨v', by rw [List.foldl_cons, kept, rest], fixed.trans same⟩

/-- A variable that was not there has been made by the first lookup of its name. -/
theorem Tuning.first_lookup {name : String} {v : Var} {ts : List Tuning} (good : isName name = true)
    (made : ts.foldl (becomes name) none = some v) :
    ∃ before asked default description later,
      ts = before ++ .lookup asked default description :: later ∧ lowercase asked = name ∧
      (∀ t ∈ before, ¬ t.LooksUp name) ∧ v.fixed = (name, description, default.kind) := by
  induction ts with
  | nil => cases made
  | cons t rest ih =>
    rw [List.foldl_cons] at made
    by_cases first : t.LooksUp name
    · obtain ⟨asked, default, description, rfl, same⟩ := first
      obtain ⟨v', kept, fixed⟩ := becomes_all_some name ⟨name, description, default⟩ rest
      simp only [becomes, same, good, and_self, if_true, kept, Option.some.injEq] at made
      subst made
      exact ⟨[], asked, default, description, rest, rfl, same, by simp, fixed⟩
    · have still : t.becomes name none = none := by
        cases t with
        | lookup asked default description =>
          have other : ¬ (lowercase asked = name ∧ isName name = true) := fun ⟨same, _⟩ =>
            first ⟨asked, default, description, rfl, same⟩
          simp [becomes, other]
        | store asked value => rfl
      rw [still] at made
      obtain ⟨before, asked, default, description, later, same, mine, others, fixed⟩ := ih made
      refine ⟨t :: before, asked, default, description, later, by rw [same, List.cons_append],
        mine, ?_, fixed⟩
      exact List.forall_mem_cons.mpr ⟨first, others⟩

end Config

open Config (Tuning Registry lowercase isName)

/-! ## 2. The tunings of an operation -/

/-- What a text stores, if it can be read. -/
def Config.Registry.parsed (r : Registry) (name text : String) : List Tuning :=
  match r.get? name with
  | none => []
  | some v =>
    match v.stage text with
    | .ok value => [.store name value]
    | .error _ => []

/-- What a document stores, if it can be loaded. -/
def Config.Registry.loaded (r : Registry) (source : String) : List Tuning :=
  match Toml.document? source with
  | none => []
  | some entries =>
    match r.stageAll (Toml.leaves "" entries) with
    | .error _ => []
    | .ok staged => staged.map fun s => .store s.name s.value

/-- What a stack of this size is looked up for: only the first one of the default size is. -/
def Settings.bound (s : Settings) (size : Nat) : List Tuning :=
  if size = 0 ∧ s.defaultSize = .unbound then
    [.lookup World.stackSizeName World.stackSizeDefault "fiber stack size"]
  else []

/-- The tunings that an operation makes. -/
def Op.tunings (s : Settings) : Op → List Tuning
  | .lookup name default description => [.lookup name default description]
  | .assign name value => [.store name value]
  | .parse name text => s.registry.parsed name text
  | .stage name text apply => if apply then s.registry.parsed name text else []
  | .visit (some ending) =>
    s.registry.vars.map fun v => .lookup (v.name ++ ending) World.visitDefault "added"
  | .load source => s.registry.loaded source
  | .create _ size _ _ _ _ | .entry size _ _ => s.bound size
  | _ => []

/-- Storing what was staged is storing each value in turn. -/
theorem Config.Registry.apply_eq_after {r : Registry} {staged : List Registry.Staged}
    (reads : ∀ s ∈ staged, r.Reads (s.name, s.text) s.value) :
    r.apply staged = (staged.map fun s => Tuning.store s.name s.value).foldl Registry.after r := by
  suffices all : ∀ r', r.SameVars r' → r'.apply staged =
      (staged.map fun s => Tuning.store s.name s.value).foldl Registry.after r' from all r (.refl r)
  induction staged with
  | nil => exact fun r' _ => rfl
  | cons s rest ih =>
    intro r' same
    obtain ⟨⟨v, found, read⟩, reads⟩ := List.forall_mem_cons.mp reads
    obtain ⟨v', found', fixed⟩ := same.get? found
    have kind := Var.kind_of_stage ((Var.stage_congr fixed s.text).trans read)
    have stored := Registry.after_store (Registry.typed?_eq_some.mpr ⟨found', kind.symm⟩)
    rw [Registry.name_of_get? found'] at stored
    rw [Registry.apply_cons, List.map_cons, List.foldl_cons, stored]
    exact ih reads _ (same.trans (Registry.set_sameVars found' kind))

namespace World

variable {w : World}

theorem registry_of_settings {w v : World} (same : v.settings = w.settings) :
    v.process.registry = w.process.registry :=
  congrArg Settings.registry same

theorem registry_lookup (w : World) (name : String) (default : Config.Value)
    (description : String) : (w.lookup name default description).1.process.registry =
      w.process.registry.after (.lookup name default description) := by
  unfold lookup
  rw [Registry.after]
  cases w.process.registry.lookup name default description with
  | invalid e name => exact registry_of_settings (settings_log ..)
  | mismatched name => exact registry_of_settings (settings_log ..)
  | found v => exact registry_of_settings (settings_log ..)
  | added v r => rfl

theorem registry_lookupVar (w : World) (name : String) (default : Config.Value)
    (description : String) : (w.lookupVar name default description).1.process.registry =
      w.process.registry.after (.lookup name default description) := by
  have looked := registry_lookup w name default description
  unfold lookupVar
  generalize w.lookup name default description = found at looked ⊢
  rcases found with ⟨v, e | x⟩ <;> exact looked

theorem registry_assignVar (w : World) (name : String) (value : Config.Value) :
    (w.assignVar name value).1.process.registry =
      w.process.registry.after (.store name value) := by
  unfold assignVar
  split
  · rename_i v found
    exact (Registry.after_store found).symm
  · rename_i missing
    simp [Registry.after, missing]

theorem after_parsed {r : Registry} {name text : String} {v : Config.Var} {value : Config.Value}
    (found : r.get? name = some v) (read : v.stage text = .ok value) :
    (r.parsed name text).foldl Registry.after r = r.set v.name value := by
  have kind := Config.Var.kind_of_stage read
  simp only [Config.Registry.parsed, found, read]
  exact Registry.after_store (Registry.typed?_eq_some.mpr ⟨found, kind.symm⟩)

theorem registry_parseVar (w : World) (name text : String) :
    (w.parseVar name text).1.process.registry =
      (w.process.registry.parsed name text).foldl Registry.after w.process.registry := by
  unfold parseVar
  cases found : w.process.registry.get? name with
  | none => simp [Config.Registry.parsed, found]
  | some v =>
    cases read : v.stage text with
    | error e => simp [Config.Registry.parsed, found, read]
    | ok value =>
      rw [after_parsed found read]
      simp only [read]
      rfl

theorem registry_stageVar (w : World) (name text : String) (apply : Bool) :
    (w.stageVar name text apply).1.process.registry =
      (if apply then w.process.registry.parsed name text else []).foldl Registry.after
        w.process.registry := by
  unfold stageVar
  cases found : w.process.registry.get? name with
  | none => simp [Config.Registry.parsed, found]
  | some v =>
    cases read : v.stage text with
    | error e => simp [Config.Registry.parsed, found, read]
    | ok value =>
      simp only [read]
      cases apply with
      | true =>
        rw [if_pos rfl, if_pos rfl, after_parsed found read]
        rfl
      | false => rfl

theorem registry_visitAll (w : World) (ending : String) (vars : List Config.Var) :
    (w.visitAll (some ending) vars).1.process.registry =
      (vars.map fun v => Tuning.lookup (v.name ++ ending) visitDefault "added").foldl
        Registry.after w.process.registry := by
  induction vars generalizing w with
  | nil => rfl
  | cons v rest ih =>
    simp only [visitAll, List.map_cons, List.foldl_cons]
    rw [← registry_lookup]
    exact ih _

theorem visitAll_none (w : World) (vars : List Config.Var) : (w.visitAll none vars).1 = w := by
  induction vars with
  | nil => rfl
  | cons v rest ih => exact ih

theorem registry_loadDocument (w : World) (source : String) :
    (w.loadDocument source).1.process.registry =
      (w.process.registry.loaded source).foldl Registry.after w.process.registry := by
  cases parsed : Toml.document? source with
  | none => simp [loadDocument, Config.Registry.loaded, parsed]
  | some entries =>
    cases staging : w.process.registry.stageAll (Toml.leaves "" entries) with
    | error e =>
      rw [loadDocument_of_refused parsed staging]
      simp [Config.Registry.loaded, parsed, staging]
    | ok staged =>
      rw [loadDocument_of_staged parsed staging, registry_logUpdates]
      simp only [Config.Registry.loaded, parsed, staging]
      exact Registry.apply_eq_after (Registry.stageAll_ok staging).2

theorem registry_bindDefaultSize (w : World) : w.bindDefaultSize.1.process.registry =
    w.process.registry.after (.lookup stackSizeName stackSizeDefault "fiber stack size") := by
  rw [← registry_lookup, bindDefaultSize]
  rcases w.lookup stackSizeName stackSizeDefault "fiber stack size" with ⟨v, e | x⟩
  · simp only
    have reported := registry_of_settings (v.settings_report (unavailableText e))
    rw [unavailableText] at reported
    generalize v.report _ = answer at reported ⊢
    rcases answer with ⟨u, _ | p⟩ <;> exact reported
  · rfl

/-- Only the first stack of the default size has its tunable looked up. -/
theorem registry_stackSize (w : World) (size : Nat) : (w.stackSize size).1.process.registry =
    (w.settings.bound size).foldl Registry.after w.process.registry := by
  unfold stackSize defaultSize Settings.bound
  have here : w.settings.defaultSize = w.process.defaultSize := rfl
  rw [here]
  by_cases zero : size = 0
  · cases w.process.defaultSize with
    | unbound => simpa [zero] using registry_bindDefaultSize w
    | bound | unavailable | poisoned => simp [zero]
  · simp [zero]

/-- An operation does to the registry what its tunings do. -/
theorem registry_perform (w : World) (op : Op) : (w.perform op).1.process.registry =
    (op.tunings w.settings).foldl Registry.after w.process.registry := by
  cases op with
  | create slot size a body tag keep =>
    have held := settings_holdAll w keep
    have created := registry_of_settings
      (settings_create (w.holdAll keep).1 slot size a ⟨body, tag, (w.holdAll keep).2⟩)
    refine created.trans ((registry_stackSize ..).trans ?_)
    rw [held, registry_of_settings held]
    rfl
  | entry size shape body =>
    have current := settings_currentFiber w
    have entered := registry_of_settings (settings_enterMain w size shape body)
    refine entered.trans ((registry_stackSize ..).trans ?_)
    rw [current, registry_of_settings current]
    rfl
  | lookup name default description =>
    rw [perform, answered, registry_lookupVar]
    rfl
  | assign name value =>
    rw [perform, answered, registry_assignVar]
    rfl
  | parse name text =>
    rw [perform, answered, registry_parseVar]
    rfl
  | stage name text apply =>
    rw [perform, answered, registry_stageVar]
    rfl
  | visit register =>
    cases register with
    | some ending => exact registry_visitAll w ending w.process.registry.vars
    | none => exact congrArg (fun v : World => v.process.registry) (visitAll_none w _)
  | load source =>
    rw [perform, answered, registry_loadDocument]
    rfl
  | print line => exact registry_of_settings (settings_lineText w line)
  | describe name | get kind name | sameVar kind name other | debugVar kind name => rfl
  | _ => exact registry_of_settings (settings_perform rfl rfl)

/-! ## 3. The tunings of a run -/

/-- The tunings that the next step makes. -/
def tunings (w : World) : List Tuning :=
  match w.next? with
  | some op => op.tunings w.settings
  | none => []

theorem registry_step (w : World) :
    w.step.1.process.registry = w.tunings.foldl Registry.after w.process.registry := by
  unfold tunings
  cases next : w.next? with
  | none => exact registry_of_settings (step_settings_idle next)
  | some op =>
    obtain ⟨v, starts⟩ := exists_starts next
    have stepped := registry_of_settings (step_settings starts)
    rw [stepped, registry_perform, starts.settings, registry_of_settings starts.settings]

end World

namespace Machine

/-- The tunings of a run of at most so many steps. -/
def tunings : Nat → Machine → List Tuning
  | 0, _ => []
  | n + 1, m => if m.done then [] else m.world.tunings ++ tunings n m.step

/-- A run does to the registry what its tunings do. -/
theorem registry_steps (n : Nat) (m : Machine) : (m.steps n).world.process.registry =
    (m.tunings n).foldl Registry.after m.world.process.registry := by
  induction n generalizing m with
  | zero => rfl
  | succ n ih =>
    rw [steps, tunings]
    split
    · rfl
    · rw [ih, List.foldl_append, ← World.registry_step]
      exact congrArg (fun r => (tunings n m.step).foldl Registry.after r)
        (World.registry_of_settings (settings_step m))

theorem registry_start (level : Option Level) (hook : ReportHook) (script : List Op) :
    (start level hook script).world.process.registry = .empty :=
  rfl

/-- The registry is in order in every state of every run. -/
theorem registry_valid (level : Option Level) (hook : ReportHook) (script : List Op) (n : Nat) :
    ((start level hook script).steps n).world.process.registry.Valid := by
  rw [registry_steps, registry_start]
  exact Registry.empty_valid.after_all _

/-- A variable stays for good, and changes no more than its value. -/
theorem find?_steps_add {m : Machine} {n : Nat} {name : String} {v : Config.Var}
    (found : (m.steps n).world.process.registry.find? name = some v) (k : Nat) :
    ∃ v', (m.steps (n + k)).world.process.registry.find? name = some v' ∧ v'.fixed = v.fixed := by
  rw [steps_add, registry_steps, Registry.find?_after_all, found]
  exact Tuning.becomes_all_some ..

end Machine

/-! ## 4. The law of the registry -/

namespace World

/-- How requests come to their variables. -/
structure Lawful (w : World) : Prop where
  /-- Each variable is registered under its own name, and this is a name as names are. -/
  named : ∀ v ∈ w.process.registry.vars,
    isName v.name = true ∧ w.process.registry.find? v.name = some v
  /-- Names that differ in case alone are the same to every request. -/
  caseless : ∀ name other, lowercase name = lowercase other →
    w.process.registry.get? name = w.process.registry.get? other ∧
    (∀ kind, w.getVar kind name = w.getVar kind other) ∧
    w.describeVar name = w.describeVar other ∧
    ∀ default description,
      w.lookup name default description = w.lookup other default description
  /-- What is no name in either case denotes nothing, and is refused by a lookup. -/
  invalid : ∀ name, isName (lowercase name) = false →
    w.process.registry.get? name = none ∧ ∀ default description,
      w.lookup name default description =
        (w.log (.lookupInvalid (lowercase name)), .error (.invalidName (lowercase name)))
  /-- The first lookup of a name registers the variable, and leaves all others. -/
  added : ∀ name, isName (lowercase name) = true → w.process.registry.get? name = none →
    ∀ default description, ∃ r,
      w.lookup name default description =
        (w.withRegistry r, .ok ⟨lowercase name, description, default⟩) ∧
      ∀ other, r.get? other =
        if lowercase other = lowercase name then some ⟨lowercase name, description, default⟩
        else w.process.registry.get? other
  /-- Later lookups find it, whatever their defaults are, if they ask for its kind. -/
  found : ∀ name v, w.process.registry.get? name = some v → ∀ default description,
    w.lookup name default description = (w.log (.lookupFound v.name),
      if v.value.kind = default.kind then .ok v else .error (.typeMismatch v.name))
  typed : ∀ name v kind, w.process.registry.get? name = some v →
    w.getVar kind name = if v.value.kind = kind then .content v.text else .nothing
  /-- A value of another kind is not stored. -/
  kept : ∀ name value, w.process.registry.typed? value.kind name = none →
    w.assignVar name value = (w, .nothing)
  assigned : ∀ name v value, w.process.registry.typed? value.kind name = some v →
    w.assignVar name value = (w.store v.name value, .content value.render)
  parsed : ∀ name v text, w.process.registry.get? name = some v →
    w.parseVar name text =
      match v.stage text with
      | .ok value => (w.store v.name value, .parsed none value.render)
      | .error e => (w, .parsed (some e) v.text)
  /-- What was stored is read through all spellings of the name, and through no other name. -/
  stored : ∀ name v value, w.process.registry.get? name = some v →
    ∀ other, (w.store v.name value).process.registry.get? other =
      if lowercase other = v.name then some { v with value } else w.process.registry.get? other

variable {w : World} {name : String} {v : Config.Var}

theorem textOf_of_find? (found : w.process.registry.find? name = some v) :
    w.textOf name = v.text := by
  simp [textOf, found]

theorem textOf_store (found : w.process.registry.find? name = some v) (value : Config.Value) :
    (w.store name value).textOf name = value.render := by
  have there : (w.store name value).process.registry.find? name = some { v with value } := by
    change (w.process.registry.set name value).find? name = _
    simp [Registry.find?_set, found]
  exact textOf_of_find? there

theorem lookup_added (good : isName (lowercase name) = true)
    (free : w.process.registry.get? name = none) (default : Config.Value) (description : String) :
    ∃ r, w.lookup name default description =
        (w.withRegistry r, .ok ⟨lowercase name, description, default⟩) ∧
      ∀ other, r.get? other =
        if lowercase other = lowercase name then some ⟨lowercase name, description, default⟩
        else w.process.registry.get? other := by
  refine ⟨⟨Registry.insertVar ⟨lowercase name, description, default⟩ w.process.registry.vars⟩,
    by simp only [lookup, Registry.lookup_of_free good free], fun other => ?_⟩
  have missing : w.process.registry.find? (Config.Var.name ⟨lowercase name, description, default⟩) =
      none := free
  exact Registry.find?_insertVar missing _

theorem lookup_found (good : isName (lowercase name) = true)
    (found : w.process.registry.get? name = some v) (default : Config.Value)
    (description : String) :
    w.lookup name default description = (w.log (.lookupFound v.name),
      if v.value.kind = default.kind then .ok v else .error (.typeMismatch v.name)) := by
  simp only [lookup, Registry.lookup_of_found good found]
  by_cases kind : v.value.kind = default.kind <;> simp [kind]

theorem caseless_of_lowercase {other : String} (same : lowercase name = lowercase other) :
    w.process.registry.get? name = w.process.registry.get? other ∧
    (∀ kind, w.getVar kind name = w.getVar kind other) ∧
    w.describeVar name = w.describeVar other ∧
    ∀ default description,
      w.lookup name default description = w.lookup other default description := by
  have get := Registry.get?_congr (r := w.process.registry) same
  refine ⟨get, fun kind => ?_, ?_, fun default description => ?_⟩
  · rw [getVar, getVar, Registry.typed?, Registry.typed?, get]
  · rw [describeVar, describeVar, get]
  · rw [lookup, lookup, Registry.lookup_congr same]

theorem getVar_found (found : w.process.registry.get? name = some v) (kind : Config.Kind) :
    w.getVar kind name = if v.value.kind = kind then .content v.text else .nothing := by
  by_cases same : v.value.kind = kind
  · simp [getVar, Registry.typed?_eq_some.mpr ⟨found, same⟩, same]
  · simp [getVar, Registry.typed?, found, Option.filter, same]

theorem assignVar_typed {value : Config.Value}
    (found : w.process.registry.typed? value.kind name = some v) :
    w.assignVar name value = (w.store v.name value, .content value.render) := by
  have there := (Registry.typed?_eq_some.mp found).1
  have here : w.process.registry.find? v.name = some v := Registry.name_of_get? there ▸ there
  simp only [assignVar, found, textOf_store here value]

theorem parseVar_found (found : w.process.registry.get? name = some v) (text : String) :
    w.parseVar name text =
      match v.stage text with
      | .ok value => (w.store v.name value, .parsed none value.render)
      | .error e => (w, .parsed (some e) v.text) := by
  have here : w.process.registry.find? v.name = some v := Registry.name_of_get? found ▸ found
  simp only [parseVar, found]
  cases v.stage text with
  | error e => simp [textOf_of_find? here]
  | ok value => simp [textOf_store here]

theorem get?_store (found : w.process.registry.get? name = some v) (value : Config.Value)
    (other : String) : (w.store v.name value).process.registry.get? other =
      if lowercase other = v.name then some { v with value } else w.process.registry.get? other := by
  have here : w.process.registry.find? v.name = some v := Registry.name_of_get? found ▸ found
  change (w.process.registry.set v.name value).find? (lowercase other) = _
  rw [Registry.find?_set]
  by_cases same : lowercase other = v.name
  · simp [same, here]
  · simp only [if_neg same, Option.map_id']
    rfl

/-- A registry in order is all that the law needs. -/
theorem lawful_of_valid (valid : w.process.registry.Valid) : w.Lawful where
  named v mem := ⟨valid.named v mem, valid.find?_of_mem mem⟩
  caseless _ _ same := caseless_of_lowercase same
  invalid name invalid := by
    constructor
    · cases found : w.process.registry.get? name with
      | none => rfl
      | some v => cases invalid.symm.trans (valid.isName_of_find? found)
    · intro default description
      simp only [lookup, Registry.lookup_of_invalid invalid]
  added name good free default description := lookup_added good free default description
  found name v found := lookup_found (valid.isName_of_find? found) found
  typed name v kind found := getVar_found found kind
  kept name value other := by simp [assignVar, other]
  assigned name v value found := assignVar_typed found
  parsed name v text found := parseVar_found found text
  stored name v value found := get?_store found value

end World

namespace Machine

/-- **The law of the registry.** In every state of every run, the registry is in order, so
that requests come to their variables as `World.Lawful` says. Under each name there is what
the tunings of the run have left there, as if there were no other names. A variable has been
made by the first lookup of its name, from which it has its description and its kind, and it
stays with both for good. -/
theorem registry_law (level : Option Level) (hook : ReportHook) (script : List Op) (n : Nat) :
    ((start level hook script).steps n).world.Lawful ∧
    ∀ name,
      ((start level hook script).steps n).world.process.registry.find? name =
        ((start level hook script).tunings n).foldl (Tuning.becomes name) none ∧
      ∀ v, ((start level hook script).steps n).world.process.registry.find? name = some v →
        (∃ before asked default description later,
          (start level hook script).tunings n =
            before ++ .lookup asked default description :: later ∧
          lowercase asked = name ∧ (∀ t ∈ before, ¬ t.LooksUp name) ∧
          v.fixed = (name, description, default.kind)) ∧
        ∀ k, ∃ v',
          ((start level hook script).steps (n + k)).world.process.registry.find? name = some v' ∧
          v'.fixed = v.fixed := by
  have valid := registry_valid level hook script n
  refine ⟨World.lawful_of_valid valid, fun name => ?_⟩
  have recalled : ((start level hook script).steps n).world.process.registry.find? name =
      ((start level hook script).tunings n).foldl (Tuning.becomes name) none := by
    rw [registry_steps, Registry.find?_after_all]
    rfl
  refine ⟨recalled, fun v found => ⟨?_, fun k => ?_⟩⟩
  · exact Tuning.first_lookup (valid.isName_of_find? found) (recalled.symm.trans found)
  · exact find?_steps_add found k

end Machine

end FiberEngine
