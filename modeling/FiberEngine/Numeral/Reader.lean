/-
FiberEngine.Numeral.Reader — digits, and the reading of decimal texts.

A decimal text has an optional sign, digits with at most one point among or
beside them (at least one digit in all), and an optional exponent; or it is one
of the words for infinity and "not a number", in any case. The value read is
the format's number nearest to the exact decimal, so no digit is lost however
long the text is.
-/
import FiberEngine.Numeral.Binary

namespace FiberEngine.Numeral

/-! ## 1. Digits -/

/-- The value of a decimal digit. -/
def digit? (c : Char) : Option Nat :=
  if '0' ≤ c ∧ c ≤ '9' then some (c.toNat - '0'.toNat) else none

/-- The value of a digit of the given base, letters standing for ten and more. -/
def digitIn? (base : Nat) (c : Char) : Option Nat :=
  let v :=
    if '0' ≤ c ∧ c ≤ '9' then some (c.toNat - '0'.toNat)
    else if 'a' ≤ c ∧ c ≤ 'f' then some (c.toNat - 'a'.toNat + 10)
    else if 'A' ≤ c ∧ c ≤ 'F' then some (c.toNat - 'A'.toNat + 10)
    else none
  v.filter (· < base)

/-- The number that a digit list writes in a base, most significant first; none
when there is no digit or a character is not one. -/
def natIn? (base : Nat) (cs : List Char) : Option Nat :=
  if cs.isEmpty then none
  else cs.foldl (fun acc c => do return (← acc) * base + (← digitIn? base c)) (some 0)

/-- The number that a decimal digit list writes. -/
def nat? (cs : List Char) : Option Nat :=
  natIn? 10 cs

/-- The digits at the front of a list, and the rest. -/
def spanDigits (cs : List Char) : List Char × List Char :=
  (cs.takeWhile fun c => (digit? c).isSome, cs.dropWhile fun c => (digit? c).isSome)

/-- An optional sign, and what follows it. -/
def takeSign : List Char → Bool × List Char
  | '-' :: r => (true, r)
  | '+' :: r => (false, r)
  | r => (false, r)

/-! ## 2. Decimal texts -/

/-- An exact decimal, `coefficient * 10 ^ exponent`. -/
structure ExactDecimal where
  coefficient : Nat
  exponent : Int
  deriving DecidableEq, Repr

/-- An optional exponent part that ends the text. -/
def exponent? : List Char → Option Int
  | [] => some 0
  | c :: r =>
    if c = 'e' ∨ c = 'E' then
      let (negative, ds) := takeSign r
      (nat? ds).map fun n => if negative then -(n : Int) else n
    else none

/-- An unsigned decimal text. -/
def exactDecimal? (cs : List Char) : Option ExactDecimal := do
  let (whole, rest) := spanDigits cs
  let (fraction, rest) :=
    match rest with
    | '.' :: r => spanDigits r
    | r => ([], r)
  let coefficient ← nat? (whole ++ fraction)
  let e ← exponent? rest
  return ⟨coefficient, e - fraction.length⟩

/-- Decimal exponents beyond this bound overflow or vanish in every format here. -/
def exponentBound : Int := 400

/-- The number of the format nearest to an exact decimal. Magnitudes far outside
every format are answered without writing them out. -/
def BinaryFormat.ofDecimal (fmt : BinaryFormat) (negative : Bool) (d : ExactDecimal) :
    BinaryNumber :=
  let size : Int := (Nat.toDigits 10 d.coefficient).length + d.exponent
  if d.coefficient = 0 ∨ size < -exponentBound then fmt.nearest negative 0 1
  else if exponentBound < size then .infinite negative
  else if 0 ≤ d.exponent then fmt.nearest negative (d.coefficient * Nat.pow 10 d.exponent.toNat) 1
  else fmt.nearest negative d.coefficient (Nat.pow 10 (-d.exponent).toNat)

/-- ASCII letters in lower case. -/
def lowered (cs : List Char) : List Char :=
  cs.map Char.toLower

/-- The number that a decimal text writes. -/
def BinaryFormat.read? (fmt : BinaryFormat) (cs : List Char) : Option BinaryNumber :=
  let (negative, body) := takeSign cs
  if lowered body = "nan".toList then some .nan
  else if lowered body = "inf".toList ∨ lowered body = "infinity".toList then
    some (.infinite negative)
  else (exactDecimal? body).map (fmt.ofDecimal negative)

end FiberEngine.Numeral
