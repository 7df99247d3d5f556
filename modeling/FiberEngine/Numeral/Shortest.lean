/-
FiberEngine.Numeral.Shortest — the fewest decimal digits that read back.

A number of a binary format owns an interval of decimals that round to it; the
two ends belong to it exactly when its significand is even. For one digit, two
digits and so on, `shortest` tries the two neighbours of the number on that
decimal grid, and takes the first grid on which a neighbour lies in the
interval, and of two neighbours the nearer. `render` writes the digits
positionally, whatever the magnitude; a `FloatStyle` says how "not a number" is
spelled and whether a whole number shows a fraction.
-/
import FiberEngine.Numeral.Reader

namespace FiberEngine.Numeral

/-! ## 1. Comparing decimals with binary multiples -/

/-- Both sides of a comparison of `a * 10 ^ k` with `b * 2 ^ q`, free of negative
exponents. -/
def commonScale (a : Nat) (k : Int) (b : Nat) (q : Int) : Nat × Nat :=
  (a * Nat.pow 10 k.toNat * Nat.pow 2 (-q).toNat, b * Nat.pow 2 q.toNat * Nat.pow 10 (-k).toNat)

/-- `a * 10 ^ k < b * 2 ^ q`. -/
def decimalBelow (a : Nat) (k : Int) (b : Nat) (q : Int) : Bool :=
  let s := commonScale a k b q
  s.1 < s.2

/-- `a * 10 ^ k ≤ b * 2 ^ q`. -/
def decimalAtMost (a : Nat) (k : Int) (b : Nat) (q : Int) : Bool :=
  let s := commonScale a k b q
  s.1 ≤ s.2

/-! ## 2. The interval of a number -/

/-- The decimals that round to a number, as multiples of a quarter of its last
place. -/
structure RoundingInterval where
  low : Nat
  centre : Nat
  high : Nat
  /-- Exponent of the unit: a quarter of the last place. -/
  unit : Int
  /-- Whether the two ends belong to the interval. -/
  closed : Bool

/-- The interval of `m * 2 ^ e`. Below a power of two the neighbours are twice as
close. -/
def roundingInterval (fmt : BinaryFormat) (m : Nat) (e : Int) : RoundingInterval :=
  let low :=
    if m = Nat.pow 2 (fmt.precision - 1) ∧ fmt.minExponent < e then 4 * m - 1 else 4 * m - 2
  ⟨low, 4 * m, 4 * m + 2, e - 2, m % 2 = 0⟩

/-- Whether `d * 10 ^ k` rounds to the number. -/
def RoundingInterval.contains (r : RoundingInterval) (d : Nat) (k : Int) : Bool :=
  if r.closed then !decimalBelow d k r.low r.unit && decimalAtMost d k r.high r.unit
  else !decimalAtMost d k r.low r.unit && decimalBelow d k r.high r.unit

/-- The least `p` with `centre < 10 ^ p`, from an estimate by the number of bits. -/
def RoundingInterval.decade (r : RoundingInterval) : Int :=
  let bits : Int := r.centre.log2 + r.unit
  let estimate := Int.fdiv (bits * 30103) 100000
  (([-1, 0, 1] : List Int).map (estimate + ·)).find?
    (fun p => !decimalAtMost 1 p r.centre r.unit) |>.getD (estimate + 2)

/-- The grid point at or below the centre, in units of `10 ^ k`. -/
def RoundingInterval.floorOn (r : RoundingInterval) (k : Int) : Nat :=
  let s := commonScale 1 k r.centre r.unit
  s.2 / s.1

/-- Whether the grid point `d + 1` is at least as near to the centre as `d`. -/
def RoundingInterval.prefersUpper (r : RoundingInterval) (d : Nat) (k : Int) : Bool :=
  decimalAtMost (2 * d + 1) k (2 * r.centre) r.unit

/-- A decimal of the grid `10 ^ k` that rounds to the number: of two, the nearer. -/
def RoundingInterval.onGrid? (r : RoundingInterval) (k : Int) : Option ExactDecimal :=
  let d := r.floorOn k
  match r.contains d k, r.contains (d + 1) k with
  | true, true => some ⟨if r.prefersUpper d k then d + 1 else d, k⟩
  | true, false => some ⟨d, k⟩
  | false, true => some ⟨d + 1, k⟩
  | false, false => none

/-- The shortest decimal that rounds to `m * 2 ^ e`. -/
def BinaryFormat.shortest (fmt : BinaryFormat) (m : Nat) (e : Int) : ExactDecimal :=
  let r := roundingInterval fmt m e
  let top := r.decade
  ((List.range 20).findSome? fun (n : Nat) => r.onGrid? (top - 1 - n)).getD ⟨m, e⟩

/-! ## 3. Writing -/

/-- How a format's numbers are written. -/
structure FloatStyle where
  /-- The word for "not a number". -/
  nan : String
  /-- What follows the digits of a whole number. -/
  wholeSuffix : String

/-- A coefficient without trailing zeros, the exponent raised to match. -/
def stripZeros : Nat → ExactDecimal → ExactDecimal
  | 0, d => d
  | fuel + 1, d =>
    if d.coefficient ≠ 0 ∧ d.coefficient % 10 = 0 then
      stripZeros fuel ⟨d.coefficient / 10, d.exponent + 1⟩
    else d

/-- The digits of a number. -/
def natText (n : Nat) : List Char :=
  Nat.toDigits 10 n

/-- An exact decimal in positional notation. -/
def ExactDecimal.positional (d : ExactDecimal) (wholeSuffix : List Char) : List Char :=
  let d := stripZeros 20 d
  let ds := natText d.coefficient
  if 0 ≤ d.exponent then ds ++ List.replicate d.exponent.toNat '0' ++ wholeSuffix
  else
    let places := (-d.exponent).toNat
    if ds.length ≤ places then
      '0' :: '.' :: (List.replicate (places - ds.length) '0' ++ ds)
    else ds.take (ds.length - places) ++ '.' :: ds.drop (ds.length - places)

/-- The text of a number of a format. -/
def BinaryNumber.render (fmt : BinaryFormat) (style : FloatStyle) : BinaryNumber → String
  | .nan => style.nan
  | .infinite negative => if negative then "-inf" else "inf"
  | .finite negative m e =>
    let body :=
      if m = 0 then '0' :: style.wholeSuffix.toList
      else (fmt.shortest m e).positional style.wholeSuffix.toList
    String.ofList (if negative then '-' :: body else body)

end FiberEngine.Numeral
