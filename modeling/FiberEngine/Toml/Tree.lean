/-
FiberEngine.Toml.Tree — the tables of a document while it is read.

Keys with dots and table headers reach into a tree of tables. A table that was
only passed through is `implicit`: a header may still open it, once, and it then
moves behind the other entries of its table. A table that a dotted key passed
through is `dotted` as well: it takes further dotted keys and no header. An
array of tables is entered at its last table, and an inline table is `sealed`:
nothing reaches into it. Every clash, two values for one key above all, makes
the whole document invalid, and the functions here answer with nothing.

`Node.settle` turns the finished tree into a value, its tables in ascending
order of their keys. One key is reserved: a table whose first entry has it
stands for a date-time, and what else it holds is never settled.
-/
import FiberEngine.Toml.Scalar

namespace FiberEngine.Toml

/-- A part of a document that is still being read. -/
inductive Node where
  | leaf (v : Value)
  | array (items : List Node)
  | sealed (entries : List (String × Node))
  | table (implicit dotted : Bool) (entries : List (String × Node))
  | tables (items : List (List (String × Node)))

abbrev Entries := List (String × Node)

/-! ## 1. Reaching into the tree -/

/-- The entries with another node under a key that is present. -/
def Entries.assign (k : String) (n : Node) (es : Entries) : Entries :=
  es.map fun e => if e.1 = k then (k, n) else e

/-- The entries without the one under a key. -/
def Entries.without (k : String) (es : Entries) : Entries :=
  es.filter fun e => e.1 ≠ k

/-- Act on the table at the end of a path, making implicit tables on the way;
`act` learns whether the table it gets is a dotted one. -/
def Entries.descend (dotted : Bool) (act : Bool → Entries → Option Entries) :
    List String → Bool → Entries → Option Entries
  | [], reached, es => act reached es
  | k :: ks, _, es =>
    match es.lookup k with
    | none => do
      let inner ← descend dotted act ks dotted []
      return es ++ [(k, .table true dotted inner)]
    | some (.leaf _) => none
    | some (.array _) => none
    | some (.sealed _) => none
    | some (.table implicit asDotted inner) =>
      if dotted && !implicit then none
      else do
        let inner ← descend dotted act ks asDotted inner
        return Entries.assign k (.table implicit asDotted inner) es
    | some (.tables items) =>
      match items.getLast? with
      | none => none
      | some last => do
        let last ← descend dotted act ks false last
        return Entries.assign k (.tables (items.dropLast ++ [last])) es

/-- Put a value under a dotted key. The last table must be a dotted one exactly
when the key has dots, and must not have the key yet. -/
def Entries.put (path : List String) (key : String) (n : Node) (es : Entries) : Option Entries :=
  es.descend true
    (fun reached inner =>
      if reached == path.isEmpty then none
      else if (inner.lookup key).isSome then none
      else some (inner ++ [(key, n)]))
    path false

/-- Open the table of a header. It comes last among the entries of its table, also
if something has passed through it before. -/
def Entries.openTable (parents : List String) (key : String) (es : Entries) : Option Entries :=
  es.descend false
    (fun _ inner =>
      match inner.lookup key with
      | none => some (inner ++ [(key, .table false false [])])
      | some (.table true false entries) =>
        some (Entries.without key inner ++ [(key, .table false false entries)])
      | some _ => none)
    parents false

/-- Add a table to the array of tables of a header. -/
def Entries.openElement (parents : List String) (key : String) (es : Entries) : Option Entries :=
  es.descend false
    (fun _ inner =>
      match inner.lookup key with
      | none => some (inner ++ [(key, .tables [[]])])
      | some (.tables items) => some (Entries.assign key (.tables (items ++ [[]])) inner)
      | some _ => none)
    parents false

/-- Put a value under a dotted key of the table that the last header opened. -/
def Entries.putUnder (header : List String) (path : List String) (key : String) (n : Node)
    (es : Entries) : Option Entries :=
  es.descend false (fun _ inner => Entries.put path key n inner) header false

/-! ## 2. The finished value -/

/-- The reserved key, under which a table holds the text of a date-time. -/
def momentKey : String :=
  "$__toml_private_datetime"

/-- Insert an entry before the first greater key. -/
def insertEntry (e : String × Value) : List (String × Value) → List (String × Value)
  | [] => [e]
  | x :: rest => if e.1 < x.1 then e :: x :: rest else x :: insertEntry e rest

/-- The entries in ascending order of their keys. -/
def sortEntries (es : List (String × Value)) : List (String × Value) :=
  es.foldr insertEntry []

/-- The date-time that a node holds the text of. -/
def Node.moment? : Node → Option Value
  | .leaf (.text s) =>
    match Toml.moment? s.toList with
    | some (m, []) => some (.moment m)
    | _ => none
  | _ => none

mutual

/-- The value of a node. -/
def Node.settle : Node → Option Value
  | .leaf v => some v
  | .array items => do return .array (← settleItems items)
  | .sealed es => settleTable es
  | .table _ _ es => settleTable es
  | .tables items => do return .array (← settleTables items)

/-- The value of a table, given its entries in the order they were written. -/
def settleTable : List (String × Node) → Option Value
  | [] => some (.table [])
  | (k, n) :: rest =>
    if k = momentKey then n.moment?
    else do
      let v ← n.settle
      return .table (sortEntries ((k, v) :: (← settleEntries rest)))

/-- The values of a table's nodes. -/
def settleEntries : List (String × Node) → Option (List (String × Value))
  | [] => some []
  | (k, n) :: rest => do
    let v ← n.settle
    return (k, v) :: (← settleEntries rest)

/-- The values of an array's nodes. -/
def settleItems : List Node → Option (List Value)
  | [] => some []
  | n :: rest => do
    let v ← n.settle
    return v :: (← settleItems rest)

/-- The values of an array's tables. -/
def settleTables : List (List (String × Node)) → Option (List Value)
  | [] => some []
  | es :: rest => do
    let v ← settleTable es
    return v :: (← settleTables rest)

end

end FiberEngine.Toml
