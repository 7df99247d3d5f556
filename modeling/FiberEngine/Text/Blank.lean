/-
FiberEngine.Text.Blank — the characters with the Unicode property White_Space,
and the trimming of a text at both ends.

`isBlank` is the whole property, not the ASCII part of it: no-break space and
the ideographic space are blank, the zero-width space and the byte order mark
are not. `trim` takes blanks off both ends and leaves the inside alone.
-/

namespace FiberEngine.Text

/-- The Unicode property White_Space. -/
def isBlank (c : Char) : Bool :=
  let n := c.toNat
  (9 ≤ n && n ≤ 13) || n == 0x20 || n == 0x85 || n == 0xA0 || n == 0x1680 ||
    (0x2000 ≤ n && n ≤ 0x200A) || n == 0x2028 || n == 0x2029 || n == 0x202F ||
    n == 0x205F || n == 0x3000

/-- A character list without the blanks at its two ends. -/
def trimBlanks (cs : List Char) : List Char :=
  (((cs.dropWhile isBlank).reverse).dropWhile isBlank).reverse

/-- A text without the blanks at its two ends. -/
def trim (s : String) : String :=
  String.ofList (trimBlanks s.toList)

end FiberEngine.Text
