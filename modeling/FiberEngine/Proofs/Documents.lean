/-
FiberEngine.Proofs.Documents — the tables of a document hold each key once, in order.

While a document is read, a table is a list of entries in the order in which they were
written. Every way to add one looks for its key first, so that no key comes twice
(`Node.Clear`), however headers and dotted keys reach into the tree. A finished table is
sorted by its keys, and since no two are alike they ascend strictly (`Value.InOrder`).

Array items are left out of both: nothing reaches into an array, and a leaf is shown as a
whole.
-/
import Mathlib.Data.List.Nodup
import Mathlib.Data.String.Basic
import FiberEngine.Toml.Reader

namespace FiberEngine.Toml

/-! ## 1. Values in order -/

/-- The value is no table. -/
def Value.IsLeaf (v : Value) : Prop :=
  ∀ es, v ≠ .table es

/-- The keys of a table ascend, and so do those of every table that it holds. -/
inductive Value.InOrder : Value → Prop
  | leaf {v : Value} (leaf : v.IsLeaf) : InOrder v
  | table {es : List (String × Value)} (ascending : es.Pairwise fun e e' => e.1 < e'.1)
      (inner : ∀ e ∈ es, InOrder e.2) : InOrder (.table es)

/-! ## 2. Sorting -/

theorem mem_insertEntry {e x : String × Value} {es : List (String × Value)} :
    x ∈ insertEntry e es ↔ x = e ∨ x ∈ es := by
  induction es with
  | nil => simp [insertEntry]
  | cons y rest ih =>
    unfold insertEntry
    split
    · simp
    · simp only [List.mem_cons, ih]
      exact or_left_comm

theorem insertEntry_ascending {e : String × Value} {es : List (String × Value)}
    (ascending : es.Pairwise fun e e' => e.1 < e'.1) (fresh : ∀ x ∈ es, x.1 ≠ e.1) :
    (insertEntry e es).Pairwise fun e e' => e.1 < e'.1 := by
  induction ascending with
  | nil => exact List.pairwise_singleton ..
  | @cons y rest first later ih =>
    unfold insertEntry
    split
    · rename_i less
      refine .cons ?_ (.cons first later)
      intro x mem
      rcases List.mem_cons.mp mem with rfl | mem
      · exact less
      · exact less.trans (first x mem)
    · rename_i notLess
      refine .cons ?_ (ih fun x mem => fresh x (List.mem_cons_of_mem y mem))
      intro x mem
      rcases mem_insertEntry.mp mem with rfl | mem
      · exact lt_of_le_of_ne (not_lt.mp notLess) (fresh y List.mem_cons_self)
      · exact first x mem

theorem mem_sortEntries {x : String × Value} {es : List (String × Value)} :
    x ∈ sortEntries es ↔ x ∈ es := by
  induction es with
  | nil => simp [sortEntries]
  | cons e rest ih =>
    have ih : x ∈ rest.foldr insertEntry [] ↔ x ∈ rest := ih
    simp [sortEntries, mem_insertEntry, ih]

theorem sortEntries_ascending {es : List (String × Value)} (keys : (es.map Prod.fst).Nodup) :
    (sortEntries es).Pairwise fun e e' => e.1 < e'.1 := by
  induction es with
  | nil => exact .nil
  | cons e rest ih =>
    obtain ⟨fresh, keys⟩ := List.nodup_cons.mp keys
    refine insertEntry_ascending (ih keys) fun x mem same => fresh ?_
    exact same ▸ List.mem_map_of_mem (mem_sortEntries.mp mem)

/-- Entries with distinct keys make a table in order. -/
theorem table_inOrder {es : List (String × Value)} (keys : (es.map Prod.fst).Nodup)
    (inner : ∀ e ∈ es, e.2.InOrder) : (Value.table (sortEntries es)).InOrder :=
  .table (sortEntries_ascending keys) fun e mem => inner e (mem_sortEntries.mp mem)

/-! ## 3. Tables that are being read -/

/-- No table in the tree has a key twice. -/
inductive Node.Clear : Node → Prop
  | leaf {v : Value} (leaf : v.IsLeaf) : Clear (.leaf v)
  | array (items : List Node) : Clear (.array items)
  | sealed {es : Entries} (keys : (es.map Prod.fst).Nodup) (inner : ∀ e ∈ es, Clear e.2) :
      Clear (.sealed es)
  | table (implicit dotted : Bool) {es : Entries} (keys : (es.map Prod.fst).Nodup)
      (inner : ∀ e ∈ es, Clear e.2) : Clear (.table implicit dotted es)
  | tables (items : List Entries) : Clear (.tables items)

/-- No key comes twice among the entries, nor in a table below them. -/
structure Entries.Clear (es : Entries) : Prop where
  keys : (es.map Prod.fst).Nodup
  inner : ∀ e ∈ es, e.2.Clear

theorem Node.Clear.entries {implicit dotted : Bool} {es : Entries}
    (clear : (Node.table implicit dotted es).Clear) : es.Clear := by
  cases clear with
  | table _ _ keys inner => exact ⟨keys, inner⟩

namespace Entries

variable {es es' : Entries} {k : String} {n : Node}

theorem mem_of_lookup (found : es.lookup k = some n) : (k, n) ∈ es := by
  obtain ⟨before, after, rfl, -⟩ := List.lookup_eq_some_iff.mp found
  simp

theorem not_mem_of_lookup (missing : es.lookup k = none) : k ∉ es.map Prod.fst := by
  intro mem
  obtain ⟨e, there, rfl⟩ := List.mem_map.mp mem
  simpa using List.lookup_eq_none_iff.mp missing e there

namespace Clear

theorem nil : Clear [] :=
  ⟨.nil, by simp⟩

theorem of_lookup (clear : es.Clear) (found : es.lookup k = some n) : n.Clear :=
  clear.inner (k, n) (mem_of_lookup found)

/-- One more entry, with a key of its own. -/
theorem append (clear : es.Clear) (fresh : k ∉ es.map Prod.fst) (node : n.Clear) :
    Clear (es ++ [(k, n)]) := by
  constructor
  · rw [List.map_append, List.nodup_append]
    refine ⟨clear.keys, List.nodup_singleton k, ?_⟩
    intro key mem key' mem' same
    rw [List.map_singleton, List.mem_singleton] at mem'
    subst same mem'
    exact fresh mem
  · intro e mem
    rcases List.mem_append.mp mem with mem | mem
    · exact clear.inner e mem
    · exact List.mem_singleton.mp mem ▸ node

/-- Another node under a key. -/
theorem assign (clear : es.Clear) (node : n.Clear) : Clear (Entries.assign k n es) := by
  constructor
  · have keys : (Entries.assign k n es).map Prod.fst = es.map Prod.fst := by
      rw [Entries.assign, List.map_map]
      refine List.map_congr_left fun e _ => ?_
      by_cases h : e.1 = k <;> simp [h]
    exact keys ▸ clear.keys
  · intro e mem
    obtain ⟨e', there, rfl⟩ := List.mem_map.mp mem
    by_cases h : e'.1 = k
    · simpa [h] using node
    · simpa [h] using clear.inner e' there

/-- A key that is taken out and put back at the end. -/
theorem moved (clear : es.Clear) (node : n.Clear) : Clear (Entries.without k es ++ [(k, n)]) := by
  have sublist : (Entries.without k es).Sublist es := List.filter_sublist
  have rest : Clear (Entries.without k es) :=
    ⟨clear.keys.sublist (sublist.map _), fun e mem => clear.inner e (sublist.subset mem)⟩
  refine rest.append (fun mem => ?_) node
  obtain ⟨e, there, rfl⟩ := List.mem_map.mp mem
  simpa using (List.mem_filter.mp there).2

/-- What keeps the table at the end of a path clear keeps the whole tree clear. -/
theorem descend {dotted reached : Bool} {act : Bool → Entries → Option Entries}
    (keeps : ∀ {reached es es'}, Clear es → act reached es = some es' → Clear es')
    {path : List String} (clear : es.Clear)
    (done : Entries.descend dotted act path reached es = some es') : es'.Clear := by
  induction path generalizing es es' reached with
  | nil => exact keeps clear done
  | cons k ks ih =>
    unfold Entries.descend at done
    split at done
    · rename_i missing
      obtain ⟨inner, made, done⟩ := Option.bind_eq_some_iff.mp done
      cases done
      obtain ⟨keys, below⟩ := ih nil made
      exact clear.append (not_mem_of_lookup missing) (.table _ _ keys below)
    · cases done
    · cases done
    · cases done
    · rename_i implicit asDotted inner found
      split at done
      · cases done
      · obtain ⟨inner', made, done⟩ := Option.bind_eq_some_iff.mp done
        cases done
        obtain ⟨keys, below⟩ := ih (clear.of_lookup found).entries made
        exact clear.assign (.table _ _ keys below)
    · split at done
      · cases done
      · obtain ⟨last, made, done⟩ := Option.bind_eq_some_iff.mp done
        cases done
        exact clear.assign (.tables _)

theorem put {path : List String} (clear : es.Clear) (node : n.Clear)
    (done : Entries.put path k n es = some es') : es'.Clear := by
  refine descend (fun {reached es es'} clear done => ?_) clear done
  split at done
  · cases done
  · split at done
    · cases done
    · rename_i missing
      cases done
      exact clear.append (not_mem_of_lookup (Option.not_isSome_iff_eq_none.mp missing)) node

theorem openTable {parents : List String} (clear : es.Clear)
    (done : Entries.openTable parents k es = some es') : es'.Clear := by
  refine descend (fun {reached es es'} clear done => ?_) clear done
  split at done
  · rename_i missing
    cases done
    exact clear.append (not_mem_of_lookup missing) (.table _ _ .nil (by simp))
  · rename_i found
    cases done
    obtain ⟨keys, below⟩ := (clear.of_lookup found).entries
    exact clear.moved (.table _ _ keys below)
  · cases done

theorem openElement {parents : List String} (clear : es.Clear)
    (done : Entries.openElement parents k es = some es') : es'.Clear := by
  refine descend (fun {reached es es'} clear done => ?_) clear done
  split at done
  · rename_i missing
    cases done
    exact clear.append (not_mem_of_lookup missing) (.tables _)
  · cases done
    exact clear.assign (.tables _)
  · cases done

theorem putUnder {header path : List String} (clear : es.Clear) (node : n.Clear)
    (done : Entries.putUnder header path k n es = some es') : es'.Clear :=
  descend (fun clear done => put clear node done) clear done

end Clear

end Entries

/-! ## 4. Reading -/

/-- A value that holds no others is no table. -/
theorem isLeaf_of_scalar? {cs r : List Char} {v : Value} (read : scalar? cs = some (v, r)) :
    v.IsLeaf := by
  rintro es rfl
  unfold scalar? at read
  split at read
  · simp at read
  · simp at read
  · simp at read
  · simp at read
  · simp [Option.orElse_eq_or, Option.or_eq_some_iff] at read

/-- What a reader of values reads is clear. -/
def ReadsClear (item : List Char → Option (Node × List Char)) : Prop :=
  ∀ cs n r, item cs = some (n, r) → n.Clear

theorem clear_of_inlineEntries {item : List Char → Option (Node × List Char)}
    (reads : ReadsClear item) {fuel : Nat} {es es' : Entries} {cs r : List Char}
    (clear : es.Clear) (read : inlineEntries item fuel es cs = some (es', r)) : es'.Clear := by
  induction fuel generalizing es cs with
  | zero => cases read
  | succ fuel ih =>
    unfold inlineEntries at read
    obtain ⟨⟨⟨path, key⟩, r⟩, -, read⟩ := Option.bind_eq_some_iff.mp read
    simp only at read
    split at read
    · obtain ⟨⟨n, r⟩, value, read⟩ := Option.bind_eq_some_iff.mp read
      obtain ⟨more, added, read⟩ := Option.bind_eq_some_iff.mp read
      have grown : more.Clear := clear.put (reads _ _ _ value) added
      split at read
      · exact ih grown read
      · cases read
        exact grown
      · cases read
    · cases read

/-- Whatever the nesting, a value that was read is clear. -/
theorem clear_of_value? (depth : Nat) : ReadsClear (value? depth) := by
  have scalar : ∀ cs n r, value? 0 cs = some (n, r) → n.Clear := by
    intro cs n r read
    simp only [value?, Option.map_eq_some_iff, Prod.mk.injEq, Prod.exists] at read
    obtain ⟨v, r, scalar, rfl, rfl⟩ := read
    exact .leaf (isLeaf_of_scalar? scalar)
  induction depth with
  | zero => exact scalar
  | succ depth ih =>
    intro cs n r read
    unfold value? at read
    split at read
    · obtain ⟨⟨ns, r⟩, -, same⟩ := Option.map_eq_some_iff.mp read
      cases same
      exact .array ns
    · rename_i same
      cases same
      unfold inlineTable? at read
      split at read
      · cases read
        exact .sealed .nil (by simp)
      · obtain ⟨⟨es, r⟩, entries, same⟩ := Option.map_eq_some_iff.mp read
        cases same
        obtain ⟨keys, inner⟩ := clear_of_inlineEntries ih .nil entries
        exact .sealed keys inner
    · exact scalar _ _ _ (by simpa [value?] using read)

variable {d d' : Draft}

theorem clear_of_headerLine {cs r : List Char} (clear : d.entries.Clear)
    (read : header? d cs = some (d', r)) : d'.entries.Clear := by
  unfold header? at read
  split at read
  · obtain ⟨⟨⟨parents, key⟩, r⟩, -, read⟩ := Option.bind_eq_some_iff.mp read
    simp only at read
    split at read
    · obtain ⟨es, opened, read⟩ := Option.bind_eq_some_iff.mp read
      obtain ⟨r, -, read⟩ := Option.bind_eq_some_iff.mp read
      cases read
      exact clear.openElement opened
    · cases read
  · obtain ⟨⟨⟨parents, key⟩, r⟩, -, read⟩ := Option.bind_eq_some_iff.mp read
    simp only at read
    split at read
    · obtain ⟨es, opened, read⟩ := Option.bind_eq_some_iff.mp read
      obtain ⟨r, -, read⟩ := Option.bind_eq_some_iff.mp read
      cases read
      exact clear.openTable opened
    · cases read
  · cases read

theorem clear_of_entryLine {cs r : List Char} (clear : d.entries.Clear)
    (read : entry? d cs = some (d', r)) : d'.entries.Clear := by
  unfold entry? at read
  obtain ⟨⟨⟨path, key⟩, r⟩, -, read⟩ := Option.bind_eq_some_iff.mp read
  simp only at read
  split at read
  · obtain ⟨⟨n, r⟩, value, read⟩ := Option.bind_eq_some_iff.mp read
    obtain ⟨r, -, read⟩ := Option.bind_eq_some_iff.mp read
    obtain ⟨es, added, read⟩ := Option.bind_eq_some_iff.mp read
    cases read
    exact clear.putUnder (clear_of_value? depthLimit _ _ _ value) added
  · cases read

/-- Line after line, the draft of a document stays clear. -/
theorem clear_of_lines? {fuel : Nat} {cs : List Char} (clear : d.entries.Clear)
    (read : lines? fuel d cs = some d') : d'.entries.Clear := by
  induction fuel generalizing d cs with
  | zero => cases read
  | succ fuel ih =>
    unfold lines? at read
    split at read
    · cases read
      exact clear
    · obtain ⟨⟨d, r⟩, header, read⟩ := Option.bind_eq_some_iff.mp read
      exact ih (clear_of_headerLine clear header) read
    · obtain ⟨r, -, read⟩ := Option.bind_eq_some_iff.mp read
      exact ih clear read
    · split at read
      · exact ih clear read
      · obtain ⟨⟨d, r⟩, entry, read⟩ := Option.bind_eq_some_iff.mp read
        exact ih (clear_of_entryLine clear entry) read

/-! ## 5. The finished document -/

/-- A date-time is no table. -/
theorem isLeaf_of_moment? {n : Node} {v : Value} (read : n.moment? = some v) : v.IsLeaf := by
  rintro es rfl
  unfold Node.moment? at read
  split at read
  · split at read
    · cases read
    · cases read
  · cases read

/-- Settling keeps the keys and their order. -/
theorem settleEntries_eq_some {es : Entries} {vs : List (String × Value)}
    (settled : settleEntries es = some vs)
    (inner : ∀ e ∈ es, ∀ v, e.2.settle = some v → v.InOrder) :
    vs.map Prod.fst = es.map Prod.fst ∧ ∀ e ∈ vs, e.2.InOrder := by
  induction es generalizing vs with
  | nil =>
    cases settled
    exact ⟨rfl, by simp⟩
  | cons e rest ih =>
    obtain ⟨k, n⟩ := e
    unfold settleEntries at settled
    obtain ⟨v, node, settled⟩ := Option.bind_eq_some_iff.mp settled
    obtain ⟨later, others, settled⟩ := Option.bind_eq_some_iff.mp settled
    cases settled
    obtain ⟨first, inner⟩ := List.forall_mem_cons.mp inner
    obtain ⟨keys, order⟩ := ih others inner
    exact ⟨by rw [List.map_cons, List.map_cons, keys],
      List.forall_mem_cons.mpr ⟨first v node, order⟩⟩

theorem settleTable_inOrder {es : Entries} {v : Value} (settled : settleTable es = some v)
    (keys : (es.map Prod.fst).Nodup) (inner : ∀ e ∈ es, ∀ v, e.2.settle = some v → v.InOrder) :
    v.InOrder := by
  cases es with
  | nil =>
    cases settled
    exact .table .nil (by simp)
  | cons e rest =>
    obtain ⟨k, n⟩ := e
    unfold settleTable at settled
    split at settled
    · exact .leaf (isLeaf_of_moment? settled)
    · obtain ⟨first, node, settled⟩ := Option.bind_eq_some_iff.mp settled
      obtain ⟨later, others, settled⟩ := Option.bind_eq_some_iff.mp settled
      cases settled
      have all : settleEntries ((k, n) :: rest) = some ((k, first) :: later) := by
        simp [settleEntries, node, others]
      obtain ⟨same, order⟩ := settleEntries_eq_some all inner
      exact table_inOrder (same ▸ keys) order

/-- A clear tree settles to values in order. -/
theorem settle_inOrder {n : Node} {v : Value} (clear : n.Clear) (settled : n.settle = some v) :
    v.InOrder := by
  induction clear generalizing v with
  | leaf leaf =>
    cases settled
    exact .leaf leaf
  | array items =>
    obtain ⟨vs, -, settled⟩ := Option.bind_eq_some_iff.mp settled
    cases settled
    exact .leaf nofun
  | sealed keys _ ih => exact settleTable_inOrder settled keys fun e mem v => ih e mem
  | table _ _ keys _ ih => exact settleTable_inOrder settled keys fun e mem v => ih e mem
  | tables items =>
    obtain ⟨vs, -, settled⟩ := Option.bind_eq_some_iff.mp settled
    cases settled
    exact .leaf nofun

/-- The tables of a document are in order, at every depth. -/
theorem document?_inOrder {source : String} {entries : List (String × Value)}
    (parsed : document? source = some entries) : (Value.table entries).InOrder := by
  unfold document? at parsed
  obtain ⟨d, read, parsed⟩ := Option.bind_eq_some_iff.mp parsed
  obtain ⟨vs, settled, parsed⟩ := Option.bind_eq_some_iff.mp parsed
  cases parsed
  have clear : d.entries.Clear := clear_of_lines? .nil read
  obtain ⟨keys, order⟩ := settleEntries_eq_some settled
    fun e mem v => settle_inOrder (clear.inner e mem)
  exact table_inOrder (keys ▸ clear.keys) order

end FiberEngine.Toml
