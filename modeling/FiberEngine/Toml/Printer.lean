/-
FiberEngine.Toml.Printer — the texts of document values.

`Value.inline` writes a value as it would stand in an array: strings in the
plainest quotes that fit, tables between braces. Strings prefer, in this order,
double quotes without any escape, single quotes, triple double quotes without
any escape, triple single quotes; what fits none of these is escaped. A string
over several lines starts on a line of its own.
-/
import FiberEngine.Numeral.Shortest
import FiberEngine.Config.Value
import FiberEngine.Toml.Tree

namespace FiberEngine.Toml

open FiberEngine.Numeral

/-! ## 1. Strings and keys -/

/-- The length of the longest run of a character. -/
def longestRun (c : Char) (cs : List Char) : Nat :=
  (cs.foldl (fun (best, run) x => if x = c then (max best (run + 1), run + 1) else (best, 0))
    (0, 0)).1

/-- A control character that no quotes can hold unescaped. -/
def needsEscape (c : Char) : Bool :=
  (c.toNat < 0x20 && c != '\t' && c != '\n') || c.toNat == 0x7F

/-- One character between double quotes. -/
def escapeInside (multiline : Bool) (c : Char) : List Char :=
  match c with
  | '\x08' => ['\\', 'b']
  | '\t' => ['\\', 't']
  | '\n' => if multiline then ['\n'] else ['\\', 'n']
  | '\x0c' => ['\\', 'f']
  | '\r' => ['\\', 'r']
  | '\\' => ['\\', '\\']
  | c =>
    if needsEscape c then
      let ds := (Nat.toDigits 16 c.toNat).map Char.toUpper
      ['\\', 'u'] ++ List.replicate (4 - ds.length) '0' ++ ds
    else [c]

/-- The inside of double quotes; `allowed` quotes in a row stand as they are. -/
def escaped (multiline : Bool) (allowed : Nat) : Nat → List Char → List Char
  | _, [] => []
  | run, '"' :: r =>
    if run < allowed then '"' :: escaped multiline allowed (run + 1) r
    else '\\' :: '"' :: escaped multiline allowed 0 r
  | _, c :: r => escapeInside multiline c ++ escaped multiline allowed 0 r

/-- A text between opening and closing quotes. -/
def within (quotes body : List Char) : List Char :=
  quotes ++ body ++ quotes

/-- A text in double quotes on one line. -/
def basicText (cs : List Char) : List Char :=
  within ['"'] (escaped false 0 0 cs)

/-- A string value. -/
def stringText (cs : List Char) : List Char :=
  let coded := cs.any needsEscape
  let lines := cs.contains '\n'
  let slashed := cs.contains '\\'
  let double := longestRun '"' cs
  let single := longestRun '\'' cs
  let start := if lines then ['\n'] else []
  if !coded && !slashed && double = 0 && !lines then basicText cs
  else if !coded && single = 0 && !lines then within ['\''] cs
  else if !coded && !slashed && double ≤ 2 then
    within ['"', '"', '"'] (start ++ escaped lines 2 0 cs)
  else if !coded && single ≤ 2 then within ['\'', '\'', '\''] (start ++ cs)
  else if lines then within ['"', '"', '"'] (start ++ escaped true 2 0 cs)
  else basicText cs

/-- A key: bare where possible, else in the plainest one-line quotes that fit. -/
def keyText (cs : List Char) : List Char :=
  let coded := cs.any fun c => needsEscape c || c == '\n'
  if !cs.isEmpty && cs.all (fun c => c.isAlphanum || c == '-' || c == '_') then cs
  else if !coded && !cs.contains '\\' && !cs.contains '"' then basicText cs
  else if !coded && !cs.contains '\'' then within ['\''] cs
  else basicText cs

/-! ## 2. Dates and times -/

/-- A number with zeros in front, up to a width. -/
def padded (width n : Nat) : List Char :=
  let ds := natText n
  List.replicate (width - ds.length) '0' ++ ds

def Date.text (d : Date) : List Char :=
  padded 4 d.year ++ '-' :: padded 2 d.month ++ '-' :: padded 2 d.day

/-- The fraction of a second, without trailing zeros. -/
def fractionText (nanosecond : Nat) : List Char :=
  if nanosecond = 0 then []
  else '.' :: ((padded 9 nanosecond).reverse.dropWhile (· == '0')).reverse

def Time.text (t : Time) : List Char :=
  padded 2 t.hour ++ ':' :: padded 2 t.minute ++ ':' :: padded 2 t.second ++
    fractionText t.nanosecond

def Offset.text : Offset → List Char
  | .universal => ['Z']
  | .minutes n =>
    (if n < 0 then '-' else '+') :: (padded 2 (n.natAbs / 60) ++ ':' :: padded 2 (n.natAbs % 60))

def Moment.text (m : Moment) : List Char :=
  let date := (m.date.map Date.text).getD []
  let time := (m.time.map Time.text).getD []
  let offset := (m.offset.map Offset.text).getD []
  let mark := if m.date.isSome && m.time.isSome then ['T'] else []
  date ++ mark ++ time ++ offset

/-! ## 3. Values -/

/-- Whole numbers show that they are floating-point numbers. -/
def floatStyle : FloatStyle :=
  ⟨"nan", ".0"⟩

mutual

/-- A value as it stands in an array. -/
def Value.inline : Value → List Char
  | .text s => stringText s.toList
  | .integer n => Config.Value.integerText n
  | .float x => (x.render binary64 floatStyle).toList
  | .boolean b => if b then "true".toList else "false".toList
  | .moment m => m.text
  | .array items => '[' :: (inlineItems items ++ [']'])
  | .table [] => ['\x7b', '\x7d']
  | .table (e :: es) => '\x7b' :: ' ' :: (inlineEntriesText (e :: es) ++ [' ', '\x7d'])

/-- The items of an array, commas between them. -/
def inlineItems : List Value → List Char
  | [] => []
  | [v] => v.inline
  | v :: w :: rest => v.inline ++ ',' :: ' ' :: inlineItems (w :: rest)

/-- The entries of a table, commas between them. -/
def inlineEntriesText : List (String × Value) → List Char
  | [] => []
  | [(k, v)] => keyText k.toList ++ ' ' :: '=' :: ' ' :: v.inline
  | (k, v) :: e :: rest =>
    keyText k.toList ++
      ' ' :: '=' :: ' ' :: (v.inline ++ ',' :: ' ' :: inlineEntriesText (e :: rest))

end

/-- The text that a leaf stands for: a string is its own text, and a date-time is
wrapped in a table under the reserved key. -/
def Value.leafText : Value → String
  | .text s => s
  | .moment m =>
    String.ofList (['\x7b', ' '] ++ keyText momentKey.toList ++ [' ', '=', ' '] ++
      basicText m.text ++ [' ', '\x7d'])
  | v => String.ofList v.inline

end FiberEngine.Toml
