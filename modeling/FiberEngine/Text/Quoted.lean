/-
FiberEngine.Text.Quoted — a text between double quotes, for diagnostics.

`quote` shows every visible character as it is, the five characters with a
short escape by that escape, quotes and backslashes behind a backslash, and all
else by the hexadecimal code point between braces. A single quote needs none of
it. The text inside is `escape`, one piece per character.
-/
import FiberEngine.Text.Visible

namespace FiberEngine.Text

/-- The lower-case hexadecimal digits of a number, without leading zeros. -/
def hexDigits (n : Nat) : List Char :=
  Nat.toDigits 16 n

/-- One character of a quoted text. -/
def escapeChar (c : Char) : List Char :=
  match c with
  | '\x00' => ['\\', '0']
  | '\t' => ['\\', 't']
  | '\r' => ['\\', 'r']
  | '\n' => ['\\', 'n']
  | '"' => ['\\', '"']
  | '\\' => ['\\', '\\']
  | c => if isVisible c then [c] else ['\\', 'u', '\x7b'] ++ hexDigits c.toNat ++ ['\x7d']

/-- The inside of a quoted text. -/
def escape (cs : List Char) : List Char :=
  cs.flatMap escapeChar

/-- A text between double quotes. -/
def quote (s : String) : String :=
  String.ofList ('"' :: (escape s.toList ++ ['"']))

end FiberEngine.Text
