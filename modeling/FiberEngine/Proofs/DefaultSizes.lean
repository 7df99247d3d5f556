/-
FiberEngine.Proofs.DefaultSizes — the default size of stacks follows its tunable.

The first stack of the default size has the tunable of that size looked up, and the
process keeps what came of it: the tunable, or that there is none because the name is
taken for another kind. `Bound` tells what is kept after so many steps by the creations
that have gone before, and is an invariant of every run. It cannot go stale, since no
variable is ever removed or changes its kind.

The main statement is `default_size_follows`.
-/
import FiberEngine.Proofs.Tunings

namespace FiberEngine

open Config (Var Registry Tuning lowercase isName)

/-! ## 1. Looking the tunable up -/

/-- The name of the default size is registered for another kind than sizes. -/
def Config.Registry.SizeTaken (r : Registry) : Prop :=
  ∃ x, r.find? World.stackSizeName = some x ∧ x.value.kind ≠ .integer .usize

namespace World

variable {w v u : World} {x : Var} {a : Allocator} {asked : Nat} {cb : Callback}

/-- The tuning that a search for the default size makes. -/
def stackSizeTuning : Tuning :=
  .lookup stackSizeName stackSizeDefault "fiber stack size"

theorem isName_stackSizeName : isName stackSizeName = true := by
  decide +kernel

theorem lowercase_stackSizeName : lowercase stackSizeName = stackSizeName :=
  Config.lowercase_of_isName isName_stackSizeName

theorem get?_stackSizeName (r : Registry) : r.get? stackSizeName = r.find? stackSizeName :=
  congrArg r.find? lowercase_stackSizeName

/-- A variable of that name is found, and serves if it holds sizes. -/
theorem lookup_stackSizeName (found : w.process.registry.find? stackSizeName = some x) :
    w.lookup stackSizeName stackSizeDefault "fiber stack size" =
      (w.log (.lookupFound stackSizeName),
        if x.value.kind = .integer .usize then .ok x
        else .error (.typeMismatch stackSizeName)) := by
  have looked := lookup_found (lowercase_stackSizeName ▸ isName_stackSizeName)
    ((get?_stackSizeName _).trans found) stackSizeDefault "fiber stack size"
  rwa [Registry.name_of_find? found] at looked

/-- Where the name is taken, that is reported. -/
theorem bindDefaultSize_of_taken (taken : w.process.registry.SizeTaken) :
    w.bindDefaultSize =
      match (w.log (.lookupFound stackSizeName)).report
        (unavailableText (.typeMismatch stackSizeName)) with
      | (u, none) => (u.withDefaultSize .unavailable, .ok defaultStackSize)
      | (u, some p) => (u.withDefaultSize .poisoned, .error p) := by
  obtain ⟨x, found, other⟩ := taken
  unfold bindDefaultSize
  rw [lookup_stackSizeName found, if_neg other]
  rfl

/-- Otherwise the tunable is there afterwards. If it is new, it holds its default. -/
theorem bindDefaultSize_of_fits (fits : ¬ w.process.registry.SizeTaken) :
    ∃ x, w.bindDefaultSize =
        ((w.lookup stackSizeName stackSizeDefault "fiber stack size").1.withDefaultSize .bound,
          .ok (sizeHeld x.value)) ∧
      w.bindDefaultSize.1.process.registry.find? stackSizeName = some x ∧
      x.value.kind = .integer .usize ∧
      (w.process.registry.find? stackSizeName = some x ∨
        w.process.registry.find? stackSizeName = none ∧ x.value = stackSizeDefault) := by
  have registered : w.bindDefaultSize.1.process.registry.find? stackSizeName =
      stackSizeTuning.becomes stackSizeName (w.process.registry.find? stackSizeName) := by
    rw [registry_bindDefaultSize, Registry.find?_after]
    rfl
  cases found : w.process.registry.find? stackSizeName with
  | some x =>
    have kind : x.value.kind = .integer .usize := not_not.mp fun other => fits ⟨x, found, other⟩
    refine ⟨x, ?_, registered.trans (by rw [found]; rfl), kind, .inl rfl⟩
    unfold bindDefaultSize
    rw [lookup_stackSizeName found, if_pos kind]
  | none =>
    obtain ⟨r, looked, -⟩ := lookup_added (lowercase_stackSizeName ▸ isName_stackSizeName)
      ((get?_stackSizeName _).trans found) stackSizeDefault "fiber stack size"
    refine ⟨⟨stackSizeName, "fiber stack size", stackSizeDefault⟩, ?_, registered.trans ?_, rfl,
      .inr ⟨rfl, rfl⟩⟩
    · unfold bindDefaultSize
      rw [looked]
    · simp [found, stackSizeTuning, Tuning.becomes, lowercase_stackSizeName, isName_stackSizeName]

/-- The first search for the default size binds it. -/
theorem stackSize_of_unbound (kept : w.process.defaultSize = .unbound) :
    w.stackSize 0 = w.bindDefaultSize := by
  simp [stackSize, defaultSize, kept]

theorem stackSize_of_bound (kept : w.process.defaultSize = .bound)
    (found : w.process.registry.find? stackSizeName = some x) :
    w.stackSize 0 = (w, .ok (sizeHeld x.value)) := by
  simp [stackSize, defaultSize, boundSize, kept, found]

theorem stackSize_of_unavailable (kept : w.process.defaultSize = .unavailable) :
    w.stackSize 0 = (w, .ok defaultStackSize) := by
  simp [stackSize, defaultSize, kept]

/-- Later searches change nothing. -/
theorem stackSize_of_kept (kept : w.process.defaultSize ≠ .unbound) : (w.stackSize 0).1 = w := by
  simp only [stackSize, defaultSize, if_true]
  split <;> trivial

/-! ### The tunable left alone -/

/-- While nothing else is done under the name, the tunable holds its default. -/
theorem value_of_becomes {t : Tuning} (own : t = stackSizeTuning ∨ ¬ t.Concerns stackSizeName)
    {o : Option Var} (initial : ∀ x ∈ o, x.value = stackSizeDefault) :
    ∀ x ∈ t.becomes stackSizeName o, x.value = stackSizeDefault := by
  rcases own with rfl | other
  · cases o with
    | some y => exact initial
    | none =>
      intro x new
      simp only [stackSizeTuning, Tuning.becomes, Option.mem_ite_none_right] at new
      cases new.2
      rfl
  · rw [Tuning.becomes_of_other other]
    exact initial

theorem value_of_becomes_all {ts : List Tuning}
    (own : ∀ t ∈ ts, t = stackSizeTuning ∨ ¬ t.Concerns stackSizeName) {o : Option Var}
    (initial : ∀ x ∈ o, x.value = stackSizeDefault) :
    ∀ x ∈ ts.foldl (Tuning.becomes stackSizeName) o, x.value = stackSizeDefault := by
  induction ts generalizing o with
  | nil => exact initial
  | cons t rest ih =>
    obtain ⟨here, others⟩ := List.forall_mem_cons.mp own
    exact ih others (value_of_becomes here initial)

/-! ## 2. Creations -/

/-- The next step creates a fiber: in the world `v`, a stack of the size asked for is
requested from the allocator. -/
inductive Creates (w : World) : World → Allocator → Nat → Callback → Prop
  | create {u : World} {slot : SlotName} {size : Nat} {a : Allocator} {body : List Op}
    {tag : Option String} {keep : List FiberRef}
    (starts : w.Starts (.create slot size a body tag keep) u) :
    Creates w (u.holdAll keep).1 a size ⟨body, tag, (u.holdAll keep).2⟩
  | entry {u : World} {size : Nat} {shape : EntryShape} {body : List Op}
    (starts : w.Starts (.entry size shape body) u) :
    Creates w u.currentFiber.1 .heap size ⟨body, none, []⟩

theorem Creates.settings (creates : w.Creates v a asked cb) : v.settings = w.settings := by
  cases creates with
  | create starts => exact (settings_holdAll ..).trans starts.settings
  | entry starts => exact (settings_currentFiber _).trans starts.settings

/-- Of all that the step does, only the search for the size of the stack concerns the
settings. -/
theorem Creates.step_settings (creates : w.Creates v a asked cb) :
    w.step.1.settings = (v.stackSize asked).1.settings := by
  cases creates with
  | create starts => exact (World.step_settings starts).trans (settings_create ..)
  | entry starts => exact (World.step_settings starts).trans (settings_enterMain ..)

/-- What asks for a stack of the default size creates a fiber. -/
theorem exists_creates {op : Op} (next : w.next? = some op) (sizes : op.sizes = true) :
    ∃ v a cb, w.Creates v a 0 cb := by
  obtain ⟨u, starts⟩ := exists_starts next
  cases op with
  | create slot size a body tag keep =>
    obtain rfl : size = 0 := by simpa [Op.sizes] using sizes
    exact ⟨_, _, _, .create starts⟩
  | entry size shape body =>
    obtain rfl : size = 0 := by simpa [Op.sizes] using sizes
    exact ⟨_, _, _, .entry starts⟩
  | _ => cases sizes

end World

/-! ## 3. Histories -/

namespace Machine

variable {m : Machine} {n : Nat} {v : World} {a : Allocator} {asked : Nat} {cb : Callback}

/-- Step `k` of a run creates a fiber. -/
def Creates (m : Machine) (k : Nat) (v : World) (a : Allocator) (asked : Nat) (cb : Callback) :
    Prop :=
  (m.steps k).done = false ∧ (m.steps k).world.Creates v a asked cb

/-- Step `k` asks for a stack of the default size. -/
def Defaults (m : Machine) (k : Nat) : Prop :=
  ∃ v a cb, m.Creates k v a 0 cb

/-- A panic leaves the creation of a fiber in step `k`. -/
def Raises (m : Machine) (k : Nat) : Prop :=
  ∃ v a asked cb p, m.Creates k v a asked cb ∧ (v.createTask a asked cb).2 = .error (.panic p)

/-- Step `k` is the first to ask for a stack of the default size, and its name has been
registered for another kind before. -/
structure Clashes (m : Machine) (k : Nat) : Prop where
  asks : m.Defaults k
  first : ∀ j < k, ¬ m.Defaults j
  taken : (m.steps k).world.process.registry.SizeTaken

/-- What is kept about the default size after `n` steps, by the creations in them. -/
inductive Bound (m : Machine) (n : Nat) : DefaultSize → Prop
  | unbound (fresh : ∀ j < n, ¬ m.Defaults j) : Bound m n .unbound
  | bound {x : Var} (earlier : ∃ j < n, m.Defaults j) (fits : ∀ j < n, ¬ m.Clashes j)
    (found : (m.steps n).world.process.registry.find? World.stackSizeName = some x)
    (kind : x.value.kind = .integer .usize) : Bound m n .bound
  | unavailable {j : Nat} (past : j < n) (clashes : m.Clashes j) : Bound m n .unavailable
  | poisoned {j : Nat} (past : j < n) (raises : m.Raises j) : Bound m n .poisoned

theorem Creates.settings (creates : m.Creates n v a asked cb) :
    v.settings = (m.steps n).world.settings :=
  creates.2.settings

theorem Creates.settings_next (creates : m.Creates n v a asked cb) :
    (m.steps (n + 1)).world.settings = (v.stackSize asked).1.settings := by
  rw [steps_succ_of_goes creates.1, settings_step]
  exact creates.2.step_settings

/-- Steps that ask for no stack of the default size keep what is kept about it. -/
theorem defaultSize_next (quiet : ¬ m.Defaults n) :
    (m.steps (n + 1)).world.process.defaultSize = (m.steps n).world.process.defaultSize := by
  cases goes : (m.steps n).done with
  | true => rw [steps_succ_of_done goes]
  | false =>
    rw [steps_succ_of_goes goes]
    refine (congrArg Settings.defaultSize (settings_step _)).trans (World.step_defaultSize ?_)
    intro op next
    refine Bool.eq_false_iff.mpr fun sizes => quiet ?_
    obtain ⟨v, a, cb, creates⟩ := World.exists_creates next sizes
    exact ⟨v, a, cb, goes, creates⟩

/-- What has once been settled stays, and nothing is settled before it is asked for. -/
theorem Bound.next {d : DefaultSize} (bound : m.Bound n d)
    (quiet : d = .unbound → ¬ m.Defaults n) : m.Bound (n + 1) d := by
  cases bound with
  | unbound fresh => exact .unbound (Nat.forall_lt_succ_right.mpr ⟨fresh, quiet rfl⟩)
  | @bound x earlier fits found kind =>
    -- The variable may hold another value by now, but still one of its kind.
    obtain ⟨x', found', fixed⟩ := find?_steps_add found 1
    obtain ⟨j, past, defaults⟩ := earlier
    have later : ¬ m.Clashes n := fun clashes => clashes.first j past defaults
    exact .bound ⟨j, Nat.lt_succ_of_lt past, defaults⟩ (Nat.forall_lt_succ_right.mpr ⟨fits, later⟩)
      found' ((congrArg (fun f => f.2.2) fixed).trans kind)
  | unavailable past clashes => exact .unavailable (Nat.lt_succ_of_lt past) clashes
  | poisoned past raises => exact .poisoned (Nat.lt_succ_of_lt past) raises

theorem Creates.raises {u : World} {p : Payload} (creates : m.Creates n v a asked cb)
    (left : v.stackSize asked = (u, .error p)) : m.Raises n :=
  ⟨v, a, asked, cb, p, creates, by rw [World.createTask_of_panic left]⟩

/-- What the first search for the default size comes to, in step `n` of a run. -/
inductive Searches (m : Machine) (n : Nat) (v : World) : World × Except Payload Nat → Prop
  | clash {u : World} (clashes : m.Clashes n)
    (reported : (v.log (.lookupFound World.stackSizeName)).report
      (World.unavailableText (.typeMismatch World.stackSizeName)) = (u, none)) :
    Searches m n v (u.withDefaultSize .unavailable, .ok defaultStackSize)
  | raise {u : World} {p : Payload} (clashes : m.Clashes n) :
    Searches m n v (u.withDefaultSize .poisoned, .error p)
  | bind {u : World} {x : Var} (fits : ∀ k ≤ n, ¬ m.Clashes k)
    (looked : u = (v.lookup World.stackSizeName World.stackSizeDefault "fiber stack size").1)
    (found : u.process.registry.find? World.stackSizeName = some x)
    (kind : x.value.kind = .integer .usize)
    (before : v.process.registry.find? World.stackSizeName = some x ∨
      v.process.registry.find? World.stackSizeName = none ∧ x.value = World.stackSizeDefault) :
    Searches m n v (u.withDefaultSize .bound, .ok (World.sizeHeld x.value))

theorem Creates.searches (creates : m.Creates n v a 0 cb) (fresh : ∀ j < n, ¬ m.Defaults j)
    (unbound : v.process.defaultSize = .unbound) : m.Searches n v (v.stackSize 0) := by
  have here := World.registry_of_settings creates.settings
  rw [World.stackSize_of_unbound unbound]
  by_cases taken : v.process.registry.SizeTaken
  · have clashes : m.Clashes n := ⟨⟨v, a, cb, creates⟩, fresh, here ▸ taken⟩
    rw [World.bindDefaultSize_of_taken taken]
    rcases reported : (v.log (.lookupFound World.stackSizeName)).report
      (World.unavailableText (.typeMismatch World.stackSizeName)) with ⟨u, _ | p⟩
    · exact .clash clashes reported
    · exact .raise clashes
  · have fits : ∀ k ≤ n, ¬ m.Clashes k := by
      intro k le clashes
      rcases Nat.lt_or_eq_of_le le with past | rfl
      · exact fresh k past clashes.asks
      · exact taken (here ▸ clashes.taken)
    obtain ⟨x, binds, found, kind, before⟩ := World.bindDefaultSize_of_fits taken
    rw [binds] at found ⊢
    exact .bind fits rfl found kind before

/-- The first step that asks for one settles it. -/
theorem Creates.bound (creates : m.Creates n v a 0 cb) (fresh : ∀ j < n, ¬ m.Defaults j)
    (unbound : v.process.defaultSize = .unbound) :
    m.Bound (n + 1) (v.stackSize 0).1.process.defaultSize := by
  have searches := creates.searches fresh unbound
  have next := World.registry_of_settings creates.settings_next
  generalize search : v.stackSize 0 = found at searches next
  cases searches with
  | clash clashes => exact .unavailable (Nat.lt_succ_self n) clashes
  | raise => exact .poisoned (Nat.lt_succ_self n) (creates.raises search)
  | bind fits looked found kind =>
    exact .bound ⟨n, Nat.lt_succ_self n, v, a, cb, creates⟩
      (fun j past => fits j (Nat.le_of_lt_succ past)) (next ▸ found) kind

/-- What is kept about the default size is, in every state of a run, what the creations
that have gone before have made of it. -/
theorem bound_steps (level : Option Level) (hook : ReportHook) (script : List Op) (n : Nat) :
    (start level hook script).Bound n
      ((start level hook script).steps n).world.process.defaultSize := by
  induction n with
  | zero => exact .unbound fun j lt => absurd lt (Nat.not_lt_zero j)
  | succ n ih =>
    by_cases asks : (start level hook script).Defaults n
    · obtain ⟨v, a, cb, creates⟩ := asks
      have here : v.process.defaultSize =
          ((start level hook script).steps n).world.process.defaultSize :=
        congrArg Settings.defaultSize creates.settings
      have next : ((start level hook script).steps (n + 1)).world.process.defaultSize =
          (v.stackSize 0).1.process.defaultSize :=
        congrArg Settings.defaultSize creates.settings_next
      rw [next]
      rw [← here] at ih
      by_cases unbound : v.process.defaultSize = .unbound
      · rw [unbound] at ih
        cases ih with
        | unbound fresh => exact creates.bound fresh unbound
      · rw [World.stackSize_of_kept unbound]
        exact ih.next fun same => absurd same unbound
    · rw [defaultSize_next asks]
      exact ih.next fun _ => asks

theorem Creates.bound_before {level : Option Level} {hook : ReportHook} {script : List Op}
    (creates : (start level hook script).Creates n v a asked cb) :
    (start level hook script).Bound n v.process.defaultSize := by
  have here : v.process.defaultSize =
      ((start level hook script).steps n).world.process.defaultSize :=
    congrArg Settings.defaultSize creates.settings
  rw [here]
  exact bound_steps level hook script n

/-- Only a name that is taken can cost a creation a panic. -/
theorem exists_clashes {level : Option Level} {hook : ReportHook} {script : List Op}
    (raises : (start level hook script).Raises n) :
    ∃ k ≤ n, (start level hook script).Clashes k := by
  -- A panic is due to a clash now, or to an earlier panic that has left its mark.
  induction n using Nat.strongRecOn with
  | _ n ih =>
    obtain ⟨v, a, asked, cb, p, creates, left⟩ := raises
    have sizeless : ∀ u size, v.stackSize asked ≠ (u, .ok size) := by
      intro u size sized
      rw [World.createTask_of_size sized] at left
      exact World.createSized_ne_panic u a size cb p left
    by_cases zero : asked = 0
    · subst zero
      have bound := creates.bound_before
      generalize kept : v.process.defaultSize = d at bound
      cases bound with
      | unbound fresh =>
        have searches := creates.searches fresh kept
        generalize search : v.stackSize 0 = found at searches
        cases searches with
        | clash clashes | raise clashes => exact ⟨n, Nat.le_refl n, clashes⟩
        | bind => exact absurd search (sizeless _ _)
      | @bound x earlier fits found kind =>
        rw [← World.registry_of_settings creates.settings] at found
        exact absurd (World.stackSize_of_bound kept found) (sizeless _ _)
      | @unavailable j past clashes => exact ⟨j, Nat.le_of_lt past, clashes⟩
      | @poisoned j past raises =>
        obtain ⟨k, le, clashes⟩ := ih j past raises
        exact ⟨k, Nat.le_trans le (Nat.le_of_lt past), clashes⟩
    · exact absurd (if_neg zero) (sizeless v asked)

/-! ## 4. The default size -/

/-- How a size is found for a stack of the default size, in step `n` of a run that goes from
`v` to `u` by it. -/
structure DefaultSized (m : Machine) (n : Nat) (v u : World) (size : Nat) : Prop where
  /-- All but the first are found without any trace. -/
  later : (∃ j < n, m.Defaults j) → u = v
  /-- The first time, the tunable is looked up; -/
  first : (∀ j < n, ¬ m.Defaults j) → ¬ m.Clashes n →
    u = (v.lookup World.stackSizeName World.stackSizeDefault "fiber stack size").1.withDefaultSize
      .bound
  /-- and that its name is taken is reported then, once. -/
  reports : m.Clashes n → u = ((v.log (.lookupFound World.stackSizeName)).report
    (World.unavailableText (.typeMismatch World.stackSizeName))).1.withDefaultSize .unavailable
  /-- From then on it is always the same size. -/
  fixed : (∃ k ≤ n, m.Clashes k) → size = defaultStackSize
  /-- Otherwise it is what the tunable holds, which every request for it gets. It can only be
  new if there was none. -/
  follows : (∀ k ≤ n, ¬ m.Clashes k) → ∃ x : Var, size = World.sizeHeld x.value ∧
    (∀ name, lowercase name = World.stackSizeName →
      u.process.registry.typed? (.integer .usize) name = some x) ∧
    (v.process.registry.find? World.stackSizeName = some x ∨
      v.process.registry.find? World.stackSizeName = none ∧ x.value = World.stackSizeDefault)

theorem typed?_stackSizeName {r : Registry} {x : Var} {name : String}
    (found : r.find? World.stackSizeName = some x) (kind : x.value.kind = .integer .usize)
    (spelled : lowercase name = World.stackSizeName) :
    r.typed? (.integer .usize) name = some x :=
  Registry.typed?_eq_some.mpr ⟨(congrArg r.find? spelled).trans found, kind⟩

/-- The first stack of the default size. -/
theorem Creates.sized_first (creates : m.Creates n v a 0 cb) (fresh : ∀ j < n, ¬ m.Defaults j)
    (unbound : v.process.defaultSize = .unbound) (calm : ¬ m.Raises n) :
    ∃ u size, v.stackSize 0 = (u, .ok size) ∧ m.DefaultSized n v u size := by
  have never : ¬ ∃ j < n, m.Defaults j := fun ⟨j, past, defaults⟩ => fresh j past defaults
  have searches := creates.searches fresh unbound
  generalize search : v.stackSize 0 = found at searches
  cases searches with
  | clash clashes reported =>
    refine ⟨_, _, rfl, ?_⟩
    exact {
      later earlier := absurd earlier never
      first _ clear := absurd clashes clear
      reports _ := by rw [reported]
      fixed _ := rfl
      follows clear := absurd clashes (clear n (Nat.le_refl n)) }
  | raise => exact absurd (creates.raises search) calm
  | @bind u x fits looked found kind before =>
    refine ⟨_, _, rfl, ?_⟩
    exact {
      later earlier := absurd earlier never
      first _ _ := by rw [looked]
      reports clashes := absurd clashes (fits n (Nat.le_refl n))
      fixed := fun ⟨k, le, clashes⟩ => absurd clashes (fits k le)
      follows _ := ⟨x, rfl, fun _ => typed?_stackSizeName found kind, before⟩ }

/-- Later stacks of the default size: what has been kept settles their size. -/
theorem Creates.sized_later (creates : m.Creates n v a 0 cb) (bound : m.Bound n v.process.defaultSize)
    (settled : v.process.defaultSize ≠ .unbound) (calm : ∀ k ≤ n, ¬ m.Raises k) :
    ∃ size, v.stackSize 0 = (v, .ok size) ∧ m.DefaultSized n v v size := by
  have here := World.registry_of_settings creates.settings
  generalize kept : v.process.defaultSize = d at bound settled
  cases bound with
  | unbound => exact absurd rfl settled
  | @bound x earlier fits found kind =>
    obtain ⟨j, past, defaults⟩ := earlier
    rw [← here] at found
    have clear : ∀ k ≤ n, ¬ m.Clashes k := by
      intro k le clashes
      rcases Nat.lt_or_eq_of_le le with past' | rfl
      · exact fits k past' clashes
      · exact clashes.first j past defaults
    refine ⟨_, World.stackSize_of_bound kept found, ?_⟩
    exact {
      later _ := rfl
      first fresh := absurd defaults (fresh j past)
      reports clashes := absurd clashes (clear n (Nat.le_refl n))
      fixed := fun ⟨k, le, clashes⟩ => absurd clashes (clear k le)
      follows _ := ⟨x, rfl, fun _ => typed?_stackSizeName found kind, .inl found⟩ }
  | @unavailable j past clashes =>
    refine ⟨_, World.stackSize_of_unavailable kept, ?_⟩
    exact {
      later _ := rfl
      first fresh := absurd clashes.asks (fresh j past)
      reports clashes' := absurd clashes.asks (clashes'.first j past)
      fixed _ := rfl
      follows clear := absurd clashes (clear j (Nat.le_of_lt past)) }
  | @poisoned j past raises => exact absurd raises (calm j (Nat.le_of_lt past))

/-- The tunable holds its default while it is left alone. -/
theorem value_of_untouched {level : Option Level} {hook : ReportHook} {script : List Op} {x : Var}
    (own : ∀ t ∈ (start level hook script).tunings n,
      t = World.stackSizeTuning ∨ ¬ t.Concerns World.stackSizeName)
    (found : ((start level hook script).steps n).world.process.registry.find?
      World.stackSizeName = some x) : x.value = World.stackSizeDefault := by
  rw [registry_steps, Registry.find?_after_all] at found
  refine World.value_of_becomes_all own ?_ x found
  exact fun _ there => nomatch there

/-- **The default size of stacks follows its tunable.** Let step `n` of a run create a fiber,
and let no creation so far have been left by a panic. Then the fiber gets a stack of some
size, and this is the size that is checked and handed to the allocator. A size that was asked
for is taken as it is, without a look at the tunables, whatever they are. The default size is
found as `DefaultSized` says, and is the built-in one as long as nobody else has used the
name of its tunable. -/
theorem default_size_follows (level : Option Level) (hook : ReportHook) (script : List Op)
    {n : Nat} {v : World} {a : Allocator} {asked : Nat} {cb : Callback}
    (creates : (start level hook script).Creates n v a asked cb)
    (calm : ∀ k ≤ n, ¬ (start level hook script).Raises k) :
    ∃ u size, v.stackSize asked = (u, .ok size) ∧
      v.createTask a asked cb = u.createSized a size cb ∧
      ((start level hook script).steps (n + 1)).world.process.registry = u.process.registry ∧
      (asked ≠ 0 → size = asked ∧ u = v ∧ ∀ s : Settings,
        (s.veil.on v).createTask a asked cb = s.veil.under (v.createTask a asked cb)) ∧
      (asked = 0 → (start level hook script).DefaultSized n v u size ∧
        ((∀ t ∈ (start level hook script).tunings n,
          t = World.stackSizeTuning ∨ ¬ t.Concerns World.stackSizeName) →
            size = defaultStackSize)) := by
  have next := World.registry_of_settings creates.settings_next
  by_cases zero : asked = 0
  · subst zero
    have bound := creates.bound_before
    have sized : ∃ u size, v.stackSize 0 = (u, .ok size) ∧
        (start level hook script).DefaultSized n v u size := by
      by_cases unbound : v.process.defaultSize = .unbound
      · rw [unbound] at bound
        cases bound with
        | unbound fresh => exact creates.sized_first fresh unbound (calm n (Nat.le_refl n))
      · obtain ⟨size, found, sized⟩ := creates.sized_later bound unbound calm
        exact ⟨v, size, found, sized⟩
    obtain ⟨u, size, found, sized⟩ := sized
    rw [found] at next
    refine ⟨u, size, found, World.createTask_of_size found a cb, next, absurd rfl,
      fun _ => ⟨sized, fun own => ?_⟩⟩
    by_cases clashed : ∃ k ≤ n, (start level hook script).Clashes k
    · exact sized.fixed clashed
    · obtain ⟨x, rfl, -, before⟩ := sized.follows fun k le clashes => clashed ⟨k, le, clashes⟩
      have value : x.value = World.stackSizeDefault := by
        rcases before with there | ⟨-, new⟩
        · rw [World.registry_of_settings creates.settings] at there
          exact value_of_untouched own there
        · exact new
      rw [value]
      rfl
  · have found : v.stackSize asked = (v, .ok asked) := if_neg zero
    rw [found] at next
    refine ⟨v, asked, found, World.createTask_of_size found a cb, next,
      fun _ => ⟨rfl, rfl, fun s => ?_⟩, fun default => absurd default zero⟩
    exact World.createTask_veiled _ _ a (.inr zero) cb

/-- A size is stored in the tunable before the first stack of the default size is asked for. -/
def resizing : List Op :=
  [.lookup World.stackSizeName World.stackSizeDefault "",
    .assign World.stackSizeName (.integer .usize 65536 (by decide)),
    .create (.named "f") 0 .heap [] none []]

/-- The stack gets the size that has been stored. -/
theorem first_stack_as_stored : ∃ v u,
    (start none .sink resizing).Creates 2 v .heap 0 ⟨[], none, []⟩ ∧
    (∀ k ≤ 2, ¬ (start none .sink resizing).Raises k) ∧ v.stackSize 0 = (u, .ok 65536) := by
  have starts : ((start none .sink resizing).steps 2).world.Starts
      (.create (.named "f") 0 .heap [] none []) _ := ⟨[], [.script], rfl, rfl⟩
  have creates : (start none .sink resizing).Creates 2 _ .heap 0 ⟨[], none, []⟩ :=
    ⟨rfl, .create starts⟩
  have fits : ∀ k < 3, ∀ x ∈ ((start none .sink resizing).steps k).world.process.registry.find?
      World.stackSizeName, x.value.kind = .integer .usize := by
    decide +kernel
  have clear : ∀ k ≤ 2, ¬ (start none .sink resizing).Clashes k := by
    intro k le clashes
    obtain ⟨x, found, other⟩ := clashes.taken
    exact other (fits k (by omega) x found)
  have calm : ∀ k ≤ 2, ¬ (start none .sink resizing).Raises k := by
    intro k le raises
    obtain ⟨j, le', clashes⟩ := exists_clashes raises
    exact clear j (Nat.le_trans le' le) clashes
  obtain ⟨u, size, found, -, -, -, sized⟩ := default_size_follows none .sink resizing creates calm
  obtain ⟨x, rfl, -, before⟩ := (sized rfl).1.follows clear
  have stored : ((start none .sink resizing).steps 2).world.process.registry.find?
      World.stackSizeName = some ⟨World.stackSizeName, "", .integer .usize 65536 (by decide)⟩ := by
    decide +kernel
  refine ⟨_, u, creates, calm, ?_⟩
  rcases before with before | ⟨none, -⟩
  · obtain rfl := Option.some.inj (stored.symm.trans before)
    exact found
  · cases stored.symm.trans none

end Machine

end FiberEngine
