/-
FiberEngine.Toml.Value — the values of a document.

Tables are association lists. A `Moment` is a date, a time, or both, with an
offset only where there are both; its parts are kept as written, the fraction
of a second in nanoseconds.
-/
import FiberEngine.Numeral.Binary

namespace FiberEngine.Toml

structure Date where
  year : Nat
  month : Nat
  day : Nat
  deriving DecidableEq, Repr

structure Time where
  hour : Nat
  minute : Nat
  second : Nat
  nanosecond : Nat
  deriving DecidableEq, Repr

/-- A distance from universal time. -/
inductive Offset where
  | universal
  | minutes (n : Int)
  deriving DecidableEq, Repr

structure Moment where
  date : Option Date
  time : Option Time
  offset : Option Offset
  deriving DecidableEq, Repr

/-- A value of a document. -/
inductive Value where
  | text (s : String)
  | integer (n : Int)
  | float (x : Numeral.BinaryNumber)
  | boolean (b : Bool)
  | moment (m : Moment)
  | array (items : List Value)
  | table (entries : List (String × Value))
  deriving Inhabited, Repr

end FiberEngine.Toml
