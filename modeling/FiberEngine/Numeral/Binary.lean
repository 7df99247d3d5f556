/-
FiberEngine.Numeral.Binary — numbers of a binary floating-point format, and the
rounding of an exact quotient to the nearest of them.

A format is a number of significand bits and the least and greatest exponent of
the last place. Arithmetic is on natural numbers throughout: a quotient
`num / den` is scaled by a power of two until its integral part has the wanted
width, divided once, and rounded with ties to the even neighbour. Nothing here
uses the machine's own floating point.
-/

namespace FiberEngine.Numeral

/-- The shape of a binary floating-point format. -/
structure BinaryFormat where
  /-- Significand bits, the leading one included. -/
  precision : Nat
  /-- Exponent of the last place of the smallest numbers. -/
  minExponent : Int
  /-- Exponent of the last place of the largest numbers. -/
  maxExponent : Int
  deriving DecidableEq, Repr

def binary32 : BinaryFormat := ⟨24, -149, 104⟩

def binary64 : BinaryFormat := ⟨53, -1074, 971⟩

/-- A number of some binary format; `finite` is `± significand * 2 ^ exponent`. -/
inductive BinaryNumber where
  | nan
  | infinite (negative : Bool)
  | finite (negative : Bool) (significand : Nat) (exponent : Int)
  deriving DecidableEq, Repr

/-! ## 1. Rounding a quotient to an integer -/

/-- The integer nearest to `num / den`, a half going to the even neighbour. -/
def roundHalfEven (num den : Nat) : Nat :=
  let q := num / den
  let r := num % den
  if 2 * r < den then q
  else if den < 2 * r then q + 1
  else if q % 2 = 0 then q else q + 1

/-! ## 2. Rounding a quotient to a format -/

/-- Numerator and denominator of `num / den / 2 ^ e`. -/
def shiftDown (num den : Nat) (e : Int) : Nat × Nat :=
  if 0 ≤ e then (num, den * Nat.pow 2 e.toNat) else (num * Nat.pow 2 (-e).toNat, den)

/-- The least exponent, not below the format's, at which `num / den` has no more
integral bits than the format has significand bits. -/
def lastPlace (fmt : BinaryFormat) (num den : Nat) : Int :=
  let high : Int := (num.log2 : Int) - den.log2 + 1 - fmt.precision
  let scaled := shiftDown num den (high - 1)
  let e := if scaled.1 < scaled.2 * Nat.pow 2 fmt.precision then high - 1 else high
  max e fmt.minExponent

/-- The number of the format nearest to `± num / den`. -/
def BinaryFormat.nearest (fmt : BinaryFormat) (negative : Bool) (num den : Nat) : BinaryNumber :=
  if num = 0 then .finite negative 0 fmt.minExponent
  else
    let e := lastPlace fmt num den
    let scaled := shiftDown num den e
    let m := roundHalfEven scaled.1 scaled.2
    let (m, e) :=
      if m = Nat.pow 2 fmt.precision then (Nat.pow 2 (fmt.precision - 1), e + 1) else (m, e)
    if fmt.maxExponent < e then .infinite negative else .finite negative m e

end FiberEngine.Numeral
