/-
FiberEngine.Config.Value — the values that a tunable may hold.

A kind is one of eleven integer kinds, two binary floating-point kinds,
booleans, characters and texts. `Value.read?` reads a text as a value of a
kind and `Value.render` writes a value; an integer value carries the proof that
its kind can hold it, so that writing and reading agree.

Integers are written in decimal. Reading takes one leading plus sign, and a
minus sign where the kind has negative values; no blanks, no separators.
-/
import FiberEngine.Numeral.Shortest

namespace FiberEngine.Config

open FiberEngine.Numeral

/-! ## 1. Kinds -/

inductive IntegerKind where
  | u8 | u16 | u32 | u64 | u128 | usize
  | i8 | i16 | i32 | i64 | i128
  deriving DecidableEq, Repr

namespace IntegerKind

def signed : IntegerKind → Bool
  | u8 | u16 | u32 | u64 | u128 | usize => false
  | i8 | i16 | i32 | i64 | i128 => true

def bits : IntegerKind → Nat
  | u8 | i8 => 8
  | u16 | i16 => 16
  | u32 | i32 => 32
  | u64 | i64 | usize => 64
  | u128 | i128 => 128

/-- The least integer of the kind. -/
def least (k : IntegerKind) : Int :=
  if k.signed then -(Nat.pow 2 (k.bits - 1) : Int) else 0

/-- The greatest integer of the kind. -/
def greatest (k : IntegerKind) : Int :=
  if k.signed then (Nat.pow 2 (k.bits - 1) : Int) - 1 else (Nat.pow 2 k.bits : Int) - 1

/-- The kind can hold the integer. -/
def Holds (k : IntegerKind) (n : Int) : Prop :=
  k.least ≤ n ∧ n ≤ k.greatest

instance (k : IntegerKind) (n : Int) : Decidable (k.Holds n) :=
  inferInstanceAs (Decidable (_ ∧ _))

end IntegerKind

inductive FloatKind where
  | single
  | double
  deriving DecidableEq, Repr

/-- The format of a floating-point kind. -/
def FloatKind.format : FloatKind → BinaryFormat
  | single => binary32
  | double => binary64

inductive Kind where
  | integer (k : IntegerKind)
  | float (k : FloatKind)
  | boolean
  | character
  | text
  deriving DecidableEq, Repr

/-! ## 2. Values -/

/-- A value of some kind. -/
inductive Value where
  | integer (k : IntegerKind) (n : Int) (holds : k.Holds n)
  | float (k : FloatKind) (x : BinaryNumber)
  | boolean (b : Bool)
  | character (c : Char)
  | text (s : String)
  deriving DecidableEq, Repr

namespace Value

/-- The kind of a value. -/
def kind : Value → Kind
  | integer k _ _ => .integer k
  | float k _ => .float k
  | boolean _ => .boolean
  | character _ => .character
  | text _ => .text

/-- Numbers stand by themselves: a whole number shows no fraction. -/
def floatStyle : FloatStyle :=
  ⟨"NaN", ""⟩

/-- The decimal text of an integer. -/
def integerText (n : Int) : List Char :=
  if n < 0 then '-' :: natText n.natAbs else natText n.natAbs

/-- The text of a value. -/
def render : Value → String
  | integer _ n _ => String.ofList (integerText n)
  | float k x => x.render k.format floatStyle
  | boolean b => if b then "true" else "false"
  | character c => String.singleton c
  | text s => s

/-! ## 3. Reading -/

/-- The integer that a text writes: digits behind an optional plus sign, or
behind a minus sign where negative numbers are allowed. -/
def integer? (signed : Bool) (cs : List Char) : Option Int :=
  match cs with
  | '-' :: ds => if signed then (nat? ds).map fun n => -(n : Int) else none
  | '+' :: ds => (nat? ds).map Int.ofNat
  | ds => (nat? ds).map Int.ofNat

/-- The value of a kind that a text writes. -/
def read? (k : Kind) (s : String) : Option Value :=
  match k with
  | .integer k =>
    match integer? k.signed s.toList with
    | some n => if h : k.Holds n then some (.integer k n h) else none
    | none => none
  | .float k => (k.format.read? s.toList).map (.float k)
  | .boolean =>
    if s = "true" then some (.boolean true)
    else if s = "false" then some (.boolean false)
    else none
  | .character =>
    match s.toList with
    | [c] => some (.character c)
    | _ => none
  | .text => some (.text s)

/-- A value that was read has the kind that was asked for. -/
theorem kind_of_read? {k : Kind} {s : String} {v : Value} (h : read? k s = some v) :
    v.kind = k := by
  unfold read? at h
  split at h
  · split at h
    · split at h
      · injection h with h; subst h; rfl
      · contradiction
    · contradiction
  · obtain ⟨x, _, rfl⟩ := Option.map_eq_some_iff.1 h; rfl
  · split at h
    · injection h with h; subst h; rfl
    · split at h
      · injection h with h; subst h; rfl
      · contradiction
  · split at h
    · injection h with h; subst h; rfl
    · contradiction
  · injection h with h; subst h; rfl

end Value

end FiberEngine.Config
