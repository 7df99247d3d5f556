/-
FiberEngine.Datum — the values that scripts carry about.

A script may say a value or return one; the engine never looks inside it,
except to tell integers from everything else (`Datum.integer?`). A number is an integer
of at most 64 bits or else a binary floating-point number of 64 bits, and which
of the two depends on how it is written: `2` and `2.0` are different values.
-/
import FiberEngine.Numeral.Shortest

namespace FiberEngine

/-- A plain structured value. -/
inductive Datum where
  | null
  | boolean (b : Bool)
  | integer (n : Int)
  | real (x : Numeral.BinaryNumber)
  | text (s : String)
  | list (items : List Datum)
  | record (fields : List (String × Datum))
  deriving Inhabited

namespace Datum

/-- The integer a datum is, when it is one and fits 64 signed bits. -/
def integer? : Datum → Option Int
  | integer n => if -(Nat.pow 2 63 : Int) ≤ n ∧ n < Nat.pow 2 63 then some n else none
  | _ => none

/-- The integers that a number may be. -/
def isInteger (n : Int) : Bool :=
  -(Nat.pow 2 63 : Int) ≤ n && n < Nat.pow 2 64

/-- The number that a numeral writes: an optional minus sign, digits, and
perhaps a fraction and an exponent. Minus zero is no integer, and a number that
exceeds all floating-point numbers is none at all. -/
def ofNumeral? (cs : List Char) : Option Datum :=
  let (negative, digits) := Numeral.takeSign cs
  let integer? := (Numeral.nat? digits).bind fun (n : Nat) =>
    let i : Int := if negative then -n else n
    if isInteger i && !(negative && n == 0) then some (integer i) else none
  match integer? with
  | some d => some d
  | none =>
    match Numeral.binary64.read? cs with
    | some (.finite negative m e) => some (real (.finite negative m e))
    | _ => none

/-- A floating-point number as a numeral, with a fraction even if it is whole. -/
def realText (x : Numeral.BinaryNumber) : String :=
  x.render Numeral.binary64 ⟨"null", ".0"⟩

end Datum

end FiberEngine
