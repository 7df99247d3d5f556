/-
FiberEngine.Toml.Scalar — reading the values that hold no others.

Each reader takes a character list and answers with what it read and the rest,
or with nothing. The readers of strings start behind the opening quote and
recurse on the list itself. Numbers may hold single underscores between digits;
integers have 64 signed bits, and a number too large for a positive double is
refused.
-/
import FiberEngine.Numeral.Reader
import FiberEngine.Toml.Value

namespace FiberEngine.Toml

open FiberEngine.Numeral

/-! ## 1. Characters -/

/-- A space or a tab. -/
def isSpace (c : Char) : Bool :=
  c == ' ' || c == '\t'

/-- A character that a comment or a literal string may hold. -/
def isPlain (c : Char) : Bool :=
  c == '\t' || (0x20 ≤ c.toNat && c.toNat != 0x7F)

def skipSpace (cs : List Char) : List Char :=
  cs.dropWhile isSpace

/-- The rest behind a line end. -/
def newline? : List Char → Option (List Char)
  | '\n' :: r => some r
  | '\r' :: '\n' :: r => some r
  | _ => none

/-- The rest behind the comment that may stand here. -/
def skipComment : List Char → List Char
  | '#' :: r => r.dropWhile isPlain
  | r => r

/-- The rest behind a line's trailing blanks, comment and end. -/
def endLine? (cs : List Char) : Option (List Char) :=
  match skipComment (skipSpace cs) with
  | [] => some []
  | r => newline? r

/-! ## 2. Strings -/

/-- The character of a hexadecimal code point. -/
def codePoint? (ds : List Char) : Option Char := do
  let n ← natIn? 16 ds
  if n.isValidChar then return Char.ofNat n else none

/-- The character that a short escape stands for. -/
def shortEscape? : Char → Option Char
  | 'b' => some '\x08'
  | 't' => some '\t'
  | 'n' => some '\n'
  | 'f' => some '\x0c'
  | 'r' => some '\r'
  | '"' => some '"'
  | '\\' => some '\\'
  | _ => none

/-- The front of a reader's result with one more character. -/
def putChar (c : Char) (r : Option (List Char × List Char)) : Option (List Char × List Char) :=
  r.map fun (cs, rest) => (c :: cs, rest)

/-- The inside of a one-line string with escapes. -/
def basicString : List Char → Option (List Char × List Char)
  | [] => none
  | '"' :: r => some ([], r)
  | '\\' :: 'u' :: a :: b :: c :: d :: r => do
    putChar (← codePoint? [a, b, c, d]) (basicString r)
  | '\\' :: 'U' :: a :: b :: c :: d :: e :: f :: g :: h :: r => do
    putChar (← codePoint? [a, b, c, d, e, f, g, h]) (basicString r)
  | '\\' :: x :: r => do putChar (← shortEscape? x) (basicString r)
  | c :: r => if isPlain c && c != '\\' then putChar c (basicString r) else none

/-- The inside of a one-line string without escapes. -/
def literalString : List Char → Option (List Char × List Char)
  | [] => none
  | '\'' :: r => some ([], r)
  | c :: r => if isPlain c then putChar c (literalString r) else none

/-- Only blanks stand before the next line end. -/
def blankToLineEnd (cs : List Char) : Bool :=
  (newline? (skipSpace cs)).isSome

/-- The inside of a string over several lines with escapes. `skipping` is set
behind a backslash that ends its line, until something is not blank. Three to
five quotes end the string, those beyond three belonging to it. -/
def basicLines (skipping : Bool) : List Char → Option (List Char × List Char)
  | [] => none
  | '"' :: '"' :: '"' :: '"' :: '"' :: r => some (['"', '"'], r)
  | '"' :: '"' :: '"' :: '"' :: r => some (['"'], r)
  | '"' :: '"' :: '"' :: r => some ([], r)
  | '\\' :: 'u' :: a :: b :: c :: d :: r => do
    putChar (← codePoint? [a, b, c, d]) (basicLines false r)
  | '\\' :: 'U' :: a :: b :: c :: d :: e :: f :: g :: h :: r => do
    putChar (← codePoint? [a, b, c, d, e, f, g, h]) (basicLines false r)
  | '\\' :: x :: r =>
    if blankToLineEnd (x :: r) then basicLines true (x :: r)
    else do putChar (← shortEscape? x) (basicLines false r)
  | '\r' :: '\n' :: r => if skipping then basicLines true r else putChar '\n' (basicLines false r)
  | c :: r =>
    if c == '\n' || (skipping && isSpace c) then
      if skipping then basicLines true r else putChar c (basicLines false r)
    else if isPlain c && c != '\\' then putChar c (basicLines false r)
    else none

/-- The inside of a string over several lines without escapes. -/
def literalLines : List Char → Option (List Char × List Char)
  | [] => none
  | '\'' :: '\'' :: '\'' :: '\'' :: '\'' :: r => some (['\'', '\''], r)
  | '\'' :: '\'' :: '\'' :: '\'' :: r => some (['\''], r)
  | '\'' :: '\'' :: '\'' :: r => some ([], r)
  | '\r' :: '\n' :: r => putChar '\n' (literalLines r)
  | c :: r => if c == '\n' || isPlain c then putChar c (literalLines r) else none

/-- The rest without the line end that may follow an opening triple quote. -/
def skipFirstLineEnd (cs : List Char) : List Char :=
  (newline? cs).getD cs

/-- A string of any of the four forms. -/
def string? : List Char → Option (List Char × List Char)
  | '"' :: '"' :: '"' :: r => basicLines false (skipFirstLineEnd r)
  | '\'' :: '\'' :: '\'' :: r => literalLines (skipFirstLineEnd r)
  | '"' :: r => basicString r
  | '\'' :: r => literalString r
  | _ => none

/-! ## 3. Numbers -/

/-- Digits of a base with single underscores between them, without the
underscores. -/
def groupedDigits (base : Nat) : List Char → List Char × List Char
  | '_' :: d :: r =>
    if (digitIn? base d).isSome then
      let (ds, rest) := groupedDigits base r
      (d :: ds, rest)
    else ([], '_' :: d :: r)
  | d :: r =>
    if (digitIn? base d).isSome then
      let (ds, rest) := groupedDigits base r
      (d :: ds, rest)
    else ([], d :: r)
  | [] => ([], [])

/-- Grouped digits that start with a digit. -/
def digits? (base : Nat) : List Char → Option (List Char × List Char)
  | '_' :: _ => none
  | cs =>
    match groupedDigits base cs with
    | ([], _) => none
    | found => some found

/-- The whole part of a decimal number: no zero before other digits. -/
def wholePart? : List Char → Option (List Char × List Char)
  | '0' :: r => some (['0'], r)
  | cs => digits? 10 cs

/-- A 64-bit integer. -/
def fits64 (n : Int) : Option Int :=
  if -(Nat.pow 2 63 : Int) ≤ n ∧ n < Nat.pow 2 63 then some n else none

/-- The exponent part that may follow, its characters without underscores. -/
def exponentPart? : List Char → Option (List Char × List Char)
  | c :: r =>
    if c = 'e' ∨ c = 'E' then
      match r with
      | '+' :: r => (digits? 10 r).map fun (ds, rest) => ('e' :: ds, rest)
      | '-' :: r => (digits? 10 r).map fun (ds, rest) => ('e' :: '-' :: ds, rest)
      | r => (digits? 10 r).map fun (ds, rest) => ('e' :: ds, rest)
    else none
  | [] => none

/-- The fraction and exponent of a decimal number, at least one of them. -/
def floatTail? : List Char → Option (List Char × List Char)
  | '.' :: r =>
    (digits? 10 r).map fun (fraction, r) =>
      match exponentPart? r with
      | some (e, r) => ('.' :: (fraction ++ e), r)
      | none => ('.' :: fraction, r)
  | r => exponentPart? r

/-- A decimal number with a fraction, an exponent or both. -/
def float? (cs : List Char) : Option (BinaryNumber × List Char) := do
  let (negative, body) := takeSign cs
  let (whole, rest) ← wholePart? body
  let (tail, rest) ← floatTail? rest
  let d ← exactDecimal? (whole ++ tail)
  match binary64.ofDecimal negative d with
  | .infinite false => none
  | x => return (x, rest)

/-- The words for infinity and "not a number", with an optional sign. -/
def specialFloat? (cs : List Char) : Option (BinaryNumber × List Char) :=
  let (negative, body) := takeSign cs
  match body with
  | 'i' :: 'n' :: 'f' :: r => some (.infinite negative, r)
  | 'n' :: 'a' :: 'n' :: r => some (.nan, r)
  | _ => none

/-- An integer behind a base mark, or in decimal with an optional sign. -/
def integer? : List Char → Option (Int × List Char)
  | '0' :: 'x' :: r => based 16 r
  | '0' :: 'o' :: r => based 8 r
  | '0' :: 'b' :: r => based 2 r
  | cs => do
    let (negative, body) := takeSign cs
    let (ds, rest) ← wholePart? body
    let n ← nat? ds
    return (← fits64 (if negative then -(n : Int) else n), rest)
where
  based (base : Nat) (r : List Char) : Option (Int × List Char) := do
    let (ds, rest) ← digits? base r
    return (← fits64 (← natIn? base ds), rest)

/-! ## 4. Dates and times -/

/-- A number of exactly two digits within bounds. -/
def twoDigits? (low high : Nat) : List Char → Option (Nat × List Char)
  | a :: b :: r => do
    let n ← nat? [a, b]
    if low ≤ n ∧ n ≤ high then return (n, r) else none
  | _ => none

/-- The days of a month. -/
def daysIn (year month : Nat) : Nat :=
  if month = 2 then
    if year % 4 = 0 ∧ (year % 100 ≠ 0 ∨ year % 400 = 0) then 29 else 28
  else if month = 4 ∨ month = 6 ∨ month = 9 ∨ month = 11 then 30
  else 31

def date? : List Char → Option (Date × List Char)
  | a :: b :: c :: d :: '-' :: r => do
    let year ← nat? [a, b, c, d]
    match ← twoDigits? 1 12 r with
    | (month, '-' :: r) => do
      let (day, r) ← twoDigits? 1 (daysIn year month) r
      return (⟨year, month, day⟩, r)
    | _ => none
  | _ => none

/-- Nanoseconds of a fraction's digits; those beyond nine are cut off. -/
def nanoseconds (ds : List Char) : Nat :=
  let ds := ds.take 9
  (nat? ds).getD 0 * Nat.pow 10 (9 - ds.length)

def time? (cs : List Char) : Option (Time × List Char) := do
  match ← twoDigits? 0 23 cs with
  | (hour, ':' :: r) =>
    match ← twoDigits? 0 59 r with
    | (minute, ':' :: r) =>
      let (second, r) ← twoDigits? 0 60 r
      match r with
      | '.' :: f =>
        match spanDigits f with
        | ([], _) => return (⟨hour, minute, second, 0⟩, r)
        | (ds, rest) => return (⟨hour, minute, second, nanoseconds ds⟩, rest)
      | r => return (⟨hour, minute, second, 0⟩, r)
    | _ => none
  | _ => none

def offset? : List Char → Option (Offset × List Char)
  | 'Z' :: r => some (.universal, r)
  | 'z' :: r => some (.universal, r)
  | '+' :: r => signed 1 r
  | '-' :: r => signed (-1) r
  | _ => none
where
  signed (sign : Int) (r : List Char) : Option (Offset × List Char) := do
    match ← twoDigits? 0 23 r with
    | (hours, ':' :: r) => do
      let (minutes, r) ← twoDigits? 0 59 r
      return (.minutes (sign * (hours * 60 + minutes)), r)
    | _ => none

/-- A date, a time, or a date and a time with an optional offset. -/
def moment? (cs : List Char) : Option (Moment × List Char) :=
  match date? cs with
  | some (date, rest) =>
    match rest with
    | c :: r =>
      if c = 'T' ∨ c = 't' ∨ c = ' ' then
        match time? r with
        | some (time, r) =>
          match offset? r with
          | some (offset, r) => some (⟨some date, some time, some offset⟩, r)
          | none => some (⟨some date, some time, none⟩, r)
        | none => some (⟨some date, none, none⟩, rest)
      else some (⟨some date, none, none⟩, rest)
    | [] => some (⟨some date, none, none⟩, [])
  | none => (time? cs).map fun (time, r) => (⟨none, some time, none⟩, r)

/-- A value that holds no others. -/
def scalar? (cs : List Char) : Option (Value × List Char) :=
  match cs with
  | '"' :: _ => (string? cs).map fun (s, r) => (.text (String.ofList s), r)
  | '\'' :: _ => (string? cs).map fun (s, r) => (.text (String.ofList s), r)
  | 't' :: 'r' :: 'u' :: 'e' :: r => some (.boolean true, r)
  | 'f' :: 'a' :: 'l' :: 's' :: 'e' :: r => some (.boolean false, r)
  | _ =>
    ((moment? cs).map fun (m, r) => (.moment m, r)) <|>
    ((float? cs).map fun (x, r) => (.float x, r)) <|>
    ((specialFloat? cs).map fun (x, r) => (.float x, r)) <|>
    ((integer? cs).map fun (n, r) => (.integer n, r))

end FiberEngine.Toml
