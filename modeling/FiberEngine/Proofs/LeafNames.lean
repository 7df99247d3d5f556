/-
FiberEngine.Proofs.LeafNames — which tunable a leaf of a document is for.

A leaf is found at the end of a path of keys. `ends` lists the leaves of a table with
their paths, each path once, and `Toml.leaves` lists the same leaves under names. The
name of a path is meant to be its keys in lower case with a dot between any two
(`dotted`). It is built from the root down, and an empty name stands for the root: as
long as all keys have been empty, no dot is written behind them. So the name is that of
the path without its first empty keys, and it is the dotted one exactly if the path does
not begin with an empty key before another one.

The main statement is `leaves_named`.
-/
import FiberEngine.Proofs.Loading

namespace FiberEngine.Toml

open Config (lowercase lowercase_lowercase)

/-! ## 1. Leaves and their paths -/

/-- The value is no table, and the keys lead to it. -/
inductive Leaf : List (String × Value) → List String → Value → Prop
  | here {es : List (String × Value)} {k : String} {v : Value} (mem : (k, v) ∈ es)
      (leaf : v.IsLeaf) : Leaf es [k] v
  | inside {es inner : List (String × Value)} {k : String} {path : List String} {v : Value}
      (mem : (k, .table inner) ∈ es) (leaf : Leaf inner path v) : Leaf es (k :: path) v

mutual

/-- The leaves in a value, with the keys that lead on to them. -/
def Value.ends : Value → List (List String × Value)
  | .table es => ends es
  | .text s => [([], .text s)]
  | .integer n => [([], .integer n)]
  | .float x => [([], .float x)]
  | .boolean b => [([], .boolean b)]
  | .moment m => [([], .moment m)]
  | .array items => [([], .array items)]

/-- The leaves of a table, with their paths. -/
def ends : List (String × Value) → List (List String × Value)
  | [] => []
  | (k, v) :: rest => v.ends.map (fun e => (k :: e.1, e.2)) ++ ends rest

end

theorem Value.ends_of_isLeaf {v : Value} (leaf : v.IsLeaf) : v.ends = [([], v)] := by
  cases v with
  | table es => exact absurd rfl (leaf es)
  | _ => rfl

theorem mem_ends_cons {k : String} {v u : Value} {rest : List (String × Value)}
    {path : List String} : (path, u) ∈ ends ((k, v) :: rest) ↔
      (∃ path', path = k :: path' ∧ (path', u) ∈ v.ends) ∨ (path, u) ∈ ends rest := by
  simp only [ends, List.mem_append, List.mem_map, Prod.mk.injEq, Prod.exists]
  refine or_congr_left ⟨?_, ?_⟩
  · rintro ⟨path', u', mem, rfl, rfl⟩
    exact ⟨path', rfl, mem⟩
  · rintro ⟨path', rfl, mem⟩
    exact ⟨path', u, mem, rfl, rfl⟩

theorem Leaf.mono {es es' : List (String × Value)} {path : List String} {v : Value}
    (leaf : Leaf es path v) (sub : es ⊆ es') : Leaf es' path v := by
  cases leaf with
  | here mem leaf => exact .here (sub mem) leaf
  | inside mem leaf => exact .inside (sub mem) leaf

/-- Every leaf is listed. -/
theorem Leaf.mem_ends {es : List (String × Value)} {path : List String} {v : Value}
    (leaf : Leaf es path v) : (path, v) ∈ ends es := by
  have listed : ∀ {es : List (String × Value)} {k : String} {u v : Value} {path : List String},
      (k, u) ∈ es → (path, v) ∈ u.ends → (k :: path, v) ∈ ends es := by
    intro es k u v path mem inner
    induction es with
    | nil => cases mem
    | cons e rest ih =>
      rcases List.mem_cons.mp mem with rfl | mem
      · exact mem_ends_cons.mpr (.inl ⟨path, rfl, inner⟩)
      · exact mem_ends_cons.mpr (.inr (ih mem))
  induction leaf with
  | here mem leaf => exact listed mem (by simp [Value.ends_of_isLeaf leaf])
  | inside mem leaf ih => exact listed mem ih

mutual

/-- What is listed of a value is the value itself, or a leaf of the table that it is. -/
theorem Value.leaf_of_mem_ends : ∀ {u v : Value} {path : List String}, (path, v) ∈ u.ends →
    (path = [] ∧ v = u ∧ u.IsLeaf) ∨ ∃ es, u = .table es ∧ Leaf es path v
  | .table es, _, _, mem => .inr ⟨es, rfl, leaf_of_mem_ends mem⟩
  | .text _, _, _, mem => by cases List.mem_singleton.mp mem; exact .inl ⟨rfl, rfl, nofun⟩
  | .integer _, _, _, mem => by cases List.mem_singleton.mp mem; exact .inl ⟨rfl, rfl, nofun⟩
  | .float _, _, _, mem => by cases List.mem_singleton.mp mem; exact .inl ⟨rfl, rfl, nofun⟩
  | .boolean _, _, _, mem => by cases List.mem_singleton.mp mem; exact .inl ⟨rfl, rfl, nofun⟩
  | .moment _, _, _, mem => by cases List.mem_singleton.mp mem; exact .inl ⟨rfl, rfl, nofun⟩
  | .array _, _, _, mem => by cases List.mem_singleton.mp mem; exact .inl ⟨rfl, rfl, nofun⟩

/-- Only leaves are listed. -/
theorem leaf_of_mem_ends : ∀ {es : List (String × Value)} {path : List String} {v : Value},
    (path, v) ∈ ends es → Leaf es path v
  | [], _, _, mem => by cases mem
  | (k, u) :: rest, path, v, mem => by
    rcases mem_ends_cons.mp mem with ⟨path', rfl, inner⟩ | mem
    · rcases Value.leaf_of_mem_ends inner with ⟨rfl, rfl, leaf⟩ | ⟨es, rfl, leaf⟩
      · exact .here List.mem_cons_self leaf
      · exact .inside List.mem_cons_self leaf
    · exact (leaf_of_mem_ends mem).mono (List.subset_cons_self _ _)

end

/-- Where keys ascend, no two leaves have one path. -/
theorem ends_nodup {v : Value} (order : v.InOrder) : (v.ends.map Prod.fst).Nodup := by
  induction order with
  | leaf leaf => simp [Value.ends_of_isLeaf leaf]
  | @table es ascending inner ih =>
    change ((ends es).map Prod.fst).Nodup
    clear inner
    induction ascending with
    | nil => exact .nil
    | @cons e rest first _ others =>
      obtain ⟨k, u⟩ := e
      obtain ⟨mine, theirs⟩ := List.forall_mem_cons.mp ih
      rw [ends, List.map_append, List.nodup_append]
      refine ⟨?_, others theirs, ?_⟩
      · have prefixed : (u.ends.map fun e => (k :: e.1, e.2)).map Prod.fst =
            (u.ends.map Prod.fst).map (k :: ·) := by simp
        rw [prefixed]
        exact mine.map fun _ _ same => (List.cons.inj same).2
      · -- the first keys differ
        intro path mem path' mem' same
        subst same
        obtain ⟨e, there, rfl⟩ := List.mem_map.mp mem
        obtain ⟨e', -, rfl⟩ := List.mem_map.mp there
        obtain ⟨⟨path, v⟩, later, same⟩ := List.mem_map.mp mem'
        cases leaf_of_mem_ends later with
        | here mem leaf =>
          exact (first _ mem).ne (List.cons.inj same).1.symm
        | inside mem leaf =>
          exact (first _ mem).ne (List.cons.inj same).1.symm

/-! ## 2. Names -/

/-- The name under which the leaf at the end of a path is applied. -/
def leafName (path : List String) : String :=
  path.foldl joinName ""

/-- The keys of a path in lower case, with a dot between any two. -/
def dotted (path : List String) : String :=
  ".".intercalate (path.map lowercase)

theorem isEmpty_lowercase (k : String) : (lowercase k).isEmpty = k.isEmpty := by
  rw [Bool.eq_iff_iff, String.isEmpty_iff, String.isEmpty_iff, ← String.toList_inj,
    ← String.toList_inj]
  simp

theorem dotted_cons_of_isEmpty {k : String} (empty : k.isEmpty = true) (k' : String)
    (rest : List String) : dotted (k :: k' :: rest) = "." ++ dotted (k' :: rest) := by
  obtain rfl := String.isEmpty_iff.mp empty
  have root : lowercase "" = "" := rfl
  simp [dotted, root]

/-- Behind a name that is not empty, each key stands behind a dot. -/
theorem foldl_joinName {name : String} (named : name.isEmpty = false) (path : List String) :
    path.foldl joinName name = ".".intercalate (name :: path.map lowercase) := by
  induction path generalizing name with
  | nil => simp
  | cons k rest ih =>
    have joined : joinName name k = name ++ "." ++ lowercase k := by simp [joinName, named]
    have more : (name ++ "." ++ lowercase k).isEmpty = false := by
      rw [Bool.eq_false_iff, ne_eq, String.isEmpty_iff] at named ⊢
      simp [named]
    rw [List.foldl_cons, joined, ih more]
    cases rest with
    | nil => simp
    | cons k' rest => simp [String.append_assoc]

/-- The empty keys that come first are lost. -/
theorem leafName_eq (path : List String) :
    leafName path = dotted (path.dropWhile String.isEmpty) := by
  induction path with
  | nil => rfl
  | cons k rest ih =>
    have root : joinName "" k = lowercase k := rfl
    rw [leafName, List.foldl_cons, root]
    cases empty : k.isEmpty with
    | true =>
      obtain rfl := String.isEmpty_iff.mp empty
      exact ih
    | false =>
      rw [foldl_joinName (by rw [isEmpty_lowercase, empty]), List.dropWhile_cons, empty]
      rfl

theorem length_leafName_le (path : List String) : (leafName path).length ≤ (dotted path).length := by
  rw [leafName_eq]
  induction path with
  | nil => exact Nat.le_refl _
  | cons k rest ih =>
    rw [List.dropWhile_cons]
    split
    · rename_i empty
      refine Nat.le_trans ih ?_
      cases rest with
      | nil => exact Nat.zero_le _
      | cons k' rest => simp [dotted_cons_of_isEmpty empty]
    · exact Nat.le_refl _

/-- A leaf has its dotted name, unless an empty key comes before another one first. -/
theorem leafName_eq_dotted_iff (path : List String) :
    leafName path = dotted path ↔ ∀ k rest, path ≠ "" :: k :: rest := by
  constructor
  · rintro same k rest rfl
    have shorter : (leafName (k :: rest)).length ≤ (dotted (k :: rest)).length :=
      length_leafName_le _
    have lost : leafName ("" :: k :: rest) = leafName (k :: rest) := rfl
    rw [← lost, same, dotted_cons_of_isEmpty rfl, String.length_append] at shorter
    have dot : ".".length = 1 := rfl
    omega
  · intro fine
    rw [leafName_eq]
    cases path with
    | nil => rfl
    | cons k rest =>
      rw [List.dropWhile_cons]
      split
      · rename_i empty
        obtain rfl := String.isEmpty_iff.mp empty
        cases rest with
        | nil => rfl
        | cons k' rest => exact absurd rfl (fine k' rest)
      · rfl

theorem lowercase_append (s t : String) : lowercase (s ++ t) = lowercase s ++ lowercase t := by
  rw [← String.toList_inj]
  simp

/-- The names of leaves are in lower case. -/
theorem lowercase_leafName (path : List String) : lowercase (leafName path) = leafName path := by
  suffices kept : ∀ name, lowercase name = name →
      lowercase (path.foldl joinName name) = path.foldl joinName name from kept "" rfl
  induction path with
  | nil => exact fun _ same => same
  | cons k rest ih =>
    intro name same
    refine ih _ ?_
    unfold joinName
    split
    · exact lowercase_lowercase k
    · have dot : lowercase "." = "." := rfl
      rw [lowercase_append, lowercase_append, same, dot, lowercase_lowercase]

/-! ## 3. Documents -/

mutual

theorem Value.leaves_eq (name : String) : ∀ v : Value,
    v.leaves name = v.ends.map fun e => (e.1.foldl joinName name, e.2.leafText)
  | .table es => leaves_eq name es
  | .text _ | .integer _ | .float _ | .boolean _ | .moment _ | .array _ => rfl

/-- The leaves that are applied are all leaves, each under the name of its path. -/
theorem leaves_eq (name : String) : ∀ es : List (String × Value),
    leaves name es = (ends es).map fun e => (e.1.foldl joinName name, e.2.leafText)
  | [] => rfl
  | (k, v) :: rest => by
    rw [leaves, ends, Value.leaves_eq (joinName name k) v, leaves_eq name rest, List.map_append,
      List.map_map]
    rfl

end

end FiberEngine.Toml

namespace FiberEngine.World

open Config (lowercase Registry)
open Toml (Leaf leafName dotted)

variable {w : World} {source : String} {entries : List (String × Toml.Value)}

/-- A variable is set by the last leaf that has its name, and by no other. -/
theorem find?_loadDocument (parsed : Toml.document? source = some entries)
    (fine : (w.loadDocument source).2 = .fine) (name : String) :
    (w.loadDocument source).1.process.registry.find? name =
      (w.process.registry.find? name).map fun v =>
        (((Toml.ends entries).filter fun e => leafName e.1 = name).getLast?).elim v
          fun e => v.parsed e.2.leafText := by
  cases staging : w.process.registry.stageAll (Toml.leaves "" entries) with
  | error e =>
    rw [loadDocument_of_refused parsed staging] at fine
    cases fine
  | ok staged =>
    rw [loadDocument_of_staged parsed staging, registry_logUpdates]
    refine (Registry.find?_apply_of_stageAll staging name).trans ?_
    refine Option.map_congr fun v found => ?_
    have mine : (w.process.registry.known (Toml.leaves "" entries)).filter
        (fun l => lowercase l.1 = name) =
          ((Toml.ends entries).filter fun e => leafName e.1 = name).map
            fun e => (leafName e.1, e.2.leafText) := by
      have named : Toml.leaves "" entries =
          (Toml.ends entries).map fun e => (leafName e.1, e.2.leafText) :=
        Toml.leaves_eq "" entries
      rw [named, Registry.known, List.filter_map, List.filter_map, List.filter_filter]
      congr 1
      refine List.filter_congr fun e _ => ?_
      by_cases same : leafName e.1 = name
      · have lower : lowercase name = name := same ▸ Toml.lowercase_leafName e.1
        simp [Registry.get?, same, lower, found]
      · simp [Toml.lowercase_leafName, same]
    rw [mine, List.getLast?_map]
    cases ((Toml.ends entries).filter fun e => leafName e.1 = name).getLast? <;> rfl

/-- **Leaves are applied under the names of their paths.** The leaves of a document, each
with a path of its own, are listed once each, with their texts. The name of a path is that
of its keys in lower case with dots between them, without the empty keys that come first;
so all leaves have their dotted names exactly if no path begins with an empty key before
another one. A document that can be loaded sets each variable from the last leaf that has
its name, and leaves all others as they are. -/
theorem leaves_named (parsed : Toml.document? source = some entries) :
    (∀ path v, (path, v) ∈ Toml.ends entries ↔ Leaf entries path v) ∧
    ((Toml.ends entries).map Prod.fst).Nodup ∧
    Toml.leaves "" entries = (Toml.ends entries).map (fun e => (leafName e.1, e.2.leafText)) ∧
    (∀ path, leafName path = dotted (path.dropWhile String.isEmpty)) ∧
    (Toml.leaves "" entries = (Toml.ends entries).map (fun e => (dotted e.1, e.2.leafText)) ↔
      ∀ path v, Leaf entries path v → ∀ k rest, path ≠ "" :: k :: rest) ∧
    ∀ w : World, (w.loadDocument source).2 = .fine → ∀ name,
      (w.loadDocument source).1.process.registry.find? name =
        (w.process.registry.find? name).map fun v =>
          (((Toml.ends entries).filter fun e => leafName e.1 = name).getLast?).elim v
            fun e => v.parsed e.2.leafText := by
  have listed : ∀ path v, (path, v) ∈ Toml.ends entries ↔ Leaf entries path v :=
    fun path v => ⟨Toml.leaf_of_mem_ends, Leaf.mem_ends⟩
  have named : Toml.leaves "" entries =
      (Toml.ends entries).map fun e => (leafName e.1, e.2.leafText) :=
    Toml.leaves_eq "" entries
  refine ⟨listed, Toml.ends_nodup (Toml.document?_inOrder parsed), named, Toml.leafName_eq, ?_,
    fun w fine => find?_loadDocument parsed fine⟩
  rw [named, List.map_inj_left]
  constructor
  · intro same path v leaf
    exact (Toml.leafName_eq_dotted_iff path).mp
      (Prod.mk.inj (same (path, v) ((listed path v).mpr leaf))).1
  · rintro fine ⟨path, v⟩ mem
    rw [(Toml.leafName_eq_dotted_iff path).mpr (fine path v ((listed path v).mp mem))]

/-- In a table without empty keys, a leaf has its dotted name. -/
theorem table_leaf_named :
    ∃ entries, Toml.document? "[Fiber]\nstack_size = 65536" = some entries ∧
      (Toml.ends entries).map (fun e => (leafName e.1, e.2.leafText)) =
        [("fiber.stack_size", "65536")] := by
  have read : (Toml.document? "[Fiber]\nstack_size = 65536").map (Toml.leaves "") =
      some [("fiber.stack_size", "65536")] := by decide +kernel
  obtain ⟨entries, parsed, leaves⟩ := Option.map_eq_some_iff.mp read
  exact ⟨entries, parsed, (leaves_named parsed).2.2.1.symm.trans leaves⟩

/-- Below a table with the empty key, the dot is lost: the leaf sets the variable `a`, and
not the one of its dotted name. -/
theorem dot_lost_below_empty_key :
    ∃ entries, Toml.document? "[\"\"]\na = 5" = some entries ∧
      (∃ v, Leaf entries ["", "a"] v ∧ v.leafText = "5") ∧ dotted ["", "a"] = ".a" ∧
      Toml.leaves "" entries = [("a", "5")] ∧
      ∀ w : World, (w.loadDocument "[\"\"]\na = 5").2 = .fine →
        (w.loadDocument "[\"\"]\na = 5").1.process.registry.find? "a" =
          (w.process.registry.find? "a").map (·.parsed "5") ∧
        (w.loadDocument "[\"\"]\na = 5").1.process.registry.find? ".a" =
          w.process.registry.find? ".a" := by
  have read : (Toml.document? "[\"\"]\na = 5").map
      (fun es => (Toml.ends es).map fun e => (e.1, e.2.leafText)) =
        some [(["", "a"], "5")] := by decide +kernel
  obtain ⟨entries, parsed, leaves⟩ := Option.map_eq_some_iff.mp read
  obtain ⟨⟨path, v⟩, listed, same⟩ := List.map_eq_singleton_iff.mp leaves
  obtain ⟨rfl, text⟩ := Prod.mk.inj same
  have mine : leafName ["", "a"] = "a" := by decide +kernel
  refine ⟨entries, parsed, ⟨v, Toml.leaf_of_mem_ends (by simp [listed]), text⟩,
    by decide +kernel, ?_, fun w fine => ⟨?_, ?_⟩⟩
  · rw [Toml.leaves_eq, listed]
    exact congrArg (fun e => [e]) (Prod.ext mine text)
  · rw [find?_loadDocument parsed fine, listed]
    simp [mine, text]
  · rw [find?_loadDocument parsed fine, listed]
    simp [mine]

end FiberEngine.World
