/-
FiberEngine.Toml.Reader — reading a whole document.

Arrays and inline tables nest to a fixed depth, on which `value?` recurses; the
loops inside them and over the lines of the document run on a fuel that is the
length of what is left, since each round takes a character at least. A document
is a line at a time: a header, an entry, or nothing but blanks and a comment.
-/
import FiberEngine.Toml.Tree

namespace FiberEngine.Toml

/-! ## 1. Keys -/

/-- A character of a key without quotes. -/
def isBareKey (c : Char) : Bool :=
  c.isAlphanum || c == '-' || c == '_'

/-- One part of a key. -/
def keyPart? : List Char → Option (String × List Char)
  | '"' :: r => (basicString r).map fun (s, r) => (String.ofList s, r)
  | '\'' :: r => (literalString r).map fun (s, r) => (String.ofList s, r)
  | cs =>
    match cs.takeWhile isBareKey with
    | [] => none
    | part => some (String.ofList part, cs.dropWhile isBareKey)

/-- The parts of a key with dots between them, blanks around each part. -/
def keyParts? : Nat → List Char → Option (List String × List Char)
  | 0, _ => none
  | fuel + 1, cs => do
    let (part, r) ← keyPart? (skipSpace cs)
    match skipSpace r with
    | '.' :: r => do
      let (parts, r) ← keyParts? fuel r
      return (part :: parts, r)
    | r => return ([part], r)

/-- The greatest number of parts of a key, and of nested brackets. -/
def depthLimit : Nat :=
  79

/-- A key as the parts before the last and the last. -/
def key? (cs : List Char) : Option ((List String × String) × List Char) := do
  let (parts, r) ← keyParts? (cs.length + 1) cs
  if depthLimit < parts.length then none
  else return ((parts.dropLast, ← parts.getLast?), r)

/-! ## 2. Values -/

/-- The rest behind blanks, line ends and comments. -/
def skipVoid (inComment : Bool) : List Char → List Char
  | [] => []
  | '\r' :: '\n' :: r => skipVoid false r
  | c :: r =>
    if c == '\n' then skipVoid false r
    else if inComment then
      if isPlain c then skipVoid true r else c :: r
    else if isSpace c then skipVoid false r
    else if c == '#' then skipVoid true r
    else c :: r

/-- The items of an array behind its opening bracket. -/
def arrayItems (item : List Char → Option (Node × List Char)) :
    Nat → List Char → Option (List Node × List Char)
  | 0, _ => none
  | fuel + 1, cs =>
    match skipVoid false cs with
    | ']' :: r => some ([], r)
    | cs => do
      let (n, r) ← item cs
      match skipVoid false r with
      | ',' :: r => do
        let (ns, r) ← arrayItems item fuel r
        return (n :: ns, r)
      | ']' :: r => return ([n], r)
      | _ => none

/-- The entries of an inline table behind its opening brace, at least one. -/
def inlineEntries (item : List Char → Option (Node × List Char)) :
    Nat → Entries → List Char → Option (Entries × List Char)
  | 0, _, _ => none
  | fuel + 1, es, cs => do
    let ((path, key), r) ← key? cs
    match r with
    | '=' :: r => do
      let (n, r) ← item (skipSpace r)
      let es ← es.put path key n
      match skipSpace r with
      | ',' :: r => inlineEntries item fuel es r
      | '\x7d' :: r => return (es, r)
      | _ => none
    | _ => none

/-- An inline table behind its opening brace. -/
def inlineTable? (item : List Char → Option (Node × List Char)) (cs : List Char) :
    Option (Node × List Char) :=
  match skipSpace cs with
  | '\x7d' :: r => some (.sealed [], r)
  | cs => (inlineEntries item (cs.length + 1) [] cs).map fun (es, r) => (.sealed es, r)

/-- A value, with brackets nested no deeper than `depth`. -/
def value? : Nat → List Char → Option (Node × List Char)
  | depth + 1, '[' :: r =>
    (arrayItems (value? depth) (r.length + 1) r).map fun (ns, r) => (.array ns, r)
  | depth + 1, '\x7b' :: r => inlineTable? (value? depth) r
  | _, cs => (scalar? cs).map fun (v, r) => (.leaf v, r)

/-! ## 3. Documents -/

/-- What has been read of a document: its tables, and the header that entries go
under. -/
structure Draft where
  entries : Entries
  header : List String

/-- A header line. -/
def header? (d : Draft) : List Char → Option (Draft × List Char)
  | '[' :: '[' :: r => do
    let ((parents, key), r) ← key? r
    match r with
    | ']' :: ']' :: r =>
      return (⟨← d.entries.openElement parents key, parents ++ [key]⟩, ← endLine? r)
    | _ => none
  | '[' :: r => do
    let ((parents, key), r) ← key? r
    match r with
    | ']' :: r =>
      return (⟨← d.entries.openTable parents key, parents ++ [key]⟩, ← endLine? r)
    | _ => none
  | _ => none

/-- An entry line. -/
def entry? (d : Draft) (cs : List Char) : Option (Draft × List Char) := do
  let ((path, key), r) ← key? cs
  match r with
  | '=' :: r => do
    let (n, r) ← value? depthLimit (skipSpace r)
    let r ← endLine? r
    return (⟨← d.entries.putUnder d.header path key n, d.header⟩, r)
  | _ => none

/-- The lines of a document. -/
def lines? : Nat → Draft → List Char → Option Draft
  | 0, _, _ => none
  | fuel + 1, d, cs =>
    match skipSpace cs with
    | [] => some d
    | '[' :: r => do
      let (d, r) ← header? d ('[' :: r)
      lines? fuel d r
    | '#' :: r => do lines? fuel d (← endLine? ('#' :: r))
    | c :: r =>
      match newline? (c :: r) with
      | some r => lines? fuel d r
      | none => do
        let (d, r) ← entry? d (c :: r)
        lines? fuel d r

/-- The rest behind the byte order mark that may come first. -/
def skipMark : List Char → List Char
  | '\ufeff' :: r => r
  | r => r

/-- The root table of a document: its entries in ascending order of their keys. -/
def document? (src : String) : Option (List (String × Value)) := do
  let cs := skipMark src.toList
  let d ← lines? (cs.length + 1) ⟨[], []⟩ cs
  return sortEntries (← settleEntries d.entries)

end FiberEngine.Toml
