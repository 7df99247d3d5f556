/-
FiberEngine.Proofs.RoundTrips — a variable is set from the text that it shows.

Reading the text of a value as a value of its kind gives the value back: for an integer,
because decimal digits are read as they were written and the value carries the proof that
its kind can hold it (`Value.read?_render`). Floating-point kinds are left out.

Between the text and its reading stands the trimming. A variable ignores the blanks around
what it is set from, whatever its kind. The text of an integer or a truth value has none, but
a character may be a blank, and a text may begin or end with one. A variable that holds such
a value is not restored by the text that it shows: the blank character is refused, and the
text is stored without its outer blanks.

The main statement is `restores_iff`.
-/
import Mathlib.Algebra.Group.Int.Defs
import Mathlib.Data.List.DropRight
import FiberEngine.Proofs.Tunings

namespace FiberEngine

/-! ## 1. Blanks at the ends -/

namespace Text

/-- No blank stands at either end of the text. -/
def Bare (s : String) : Prop :=
  ∀ c, c ∈ s.toList.head? ∨ c ∈ s.toList.getLast? → isBlank c = false

variable {s : String} {c : Char}

theorem toList_trim (s : String) :
    (trim s).toList = (s.toList.dropWhile isBlank).rdropWhile isBlank :=
  String.toList_ofList

/-- Where no blank stands at the ends, trimming takes nothing off, -/
theorem trim_of_bare (bare : Bare s) : trim s = s := by
  have front : s.toList.dropWhile isBlank = s.toList := by
    refine List.dropWhile_eq_self_iff.mpr fun some => ?_
    simp [bare _ (.inl (List.head?_eq_getElem? .. ▸ List.getElem?_eq_getElem some))]
  rw [← String.toList_inj, toList_trim, front]
  refine List.rdropWhile_eq_self_iff.mpr fun some => ?_
  simp [bare _ (.inr (List.getLast?_eq_some_getLast some))]

/-- and only there. -/
theorem bare_of_trim (same : trim s = s) : Bare s := by
  have same : (s.toList.dropWhile isBlank).rdropWhile isBlank = s.toList :=
    (toList_trim s).symm.trans (congrArg String.toList same)
  -- nothing is taken off in front, since the length is the same after both ends
  have back := List.rdropWhile_prefix isBlank (s.toList.dropWhile isBlank)
  have front := List.dropWhile_suffix (l := s.toList) isBlank
  rw [same] at back
  have kept := front.eq_of_length (le_antisymm front.length_le back.length_le)
  rw [kept] at same
  rintro c (first | last)
  · obtain ⟨rest, shape⟩ := List.head?_eq_some_iff.mp first
    have visible := List.dropWhile_eq_self_iff.mp kept (by simp [shape])
    simpa [shape] using visible
  · obtain ⟨rest, shape⟩ := List.getLast?_eq_some_iff.mp last
    have visible := List.rdropWhile_eq_self_iff.mp same (by simp [shape])
    simpa [shape] using visible

theorem bare_of_forall (visible : ∀ c ∈ s.toList, isBlank c = false) : Bare s := by
  rintro c (first | last)
  · exact visible c (List.mem_of_mem_head? first)
  · exact visible c (List.mem_of_mem_getLast? last)

theorem bare_singleton : Bare (String.singleton c) ↔ isBlank c = false := by
  simp [Bare]

theorem trim_singleton (blank : isBlank c = true) : trim (String.singleton c) = "" := by
  simp [trim, trimBlanks, blank]

theorem isBlank_of_isDigit (digit : c.isDigit = true) : isBlank c = false := by
  have range : 48 ≤ c.toNat ∧ c.toNat ≤ 57 := Char.isDigit_iff_toNat.mp digit
  simp only [isBlank, Bool.or_eq_false_iff, Bool.and_eq_false_iff, beq_eq_false_iff_ne,
    decide_eq_false_iff_not]
  omega

end Text

/-! ## 2. Numbers -/

namespace Numeral

variable {c : Char} {cs : List Char}

theorem digitIn?_of_isDigit (digit : c.isDigit = true) :
    digitIn? 10 c = some (c.toNat - '0'.toNat) := by
  have range : 48 ≤ c.toNat ∧ c.toNat ≤ 57 := Char.isDigit_iff_toNat.mp digit
  have inside : '0' ≤ c ∧ c ≤ '9' := range
  simp only [digitIn?, inside, and_self, if_true, Option.filter_some]
  rw [if_pos (by simp; omega)]

/-- Behind a number, each further digit is the next decimal place. -/
theorem foldl_digits (digits : ∀ c ∈ cs, c.isDigit = true) (n : Nat) :
    cs.foldl (fun acc c => do return (← acc) * 10 + (← digitIn? 10 c)) (some n) =
      some (Nat.ofDigitChars 10 cs n) := by
  induction cs generalizing n with
  | nil => rfl
  | cons c rest ih =>
    obtain ⟨digit, digits⟩ := List.forall_mem_cons.mp digits
    rw [List.foldl_cons, digitIn?_of_isDigit digit, Nat.ofDigitChars_cons, Nat.mul_comm]
    exact ih digits _

theorem nat?_of_digits (digits : ∀ c ∈ cs, c.isDigit = true) (nonempty : cs ≠ []) :
    nat? cs = some (Nat.ofDigitChars 10 cs 0) := by
  rw [nat?, natIn?, if_neg (by simpa using nonempty), foldl_digits digits]

theorem isDigit_of_mem_natText {n : Nat} (mem : c ∈ natText n) : c.isDigit = true :=
  Nat.isDigit_of_mem_toDigits (by decide) (by decide) mem

/-- A number is read as it was written. -/
@[simp]
theorem nat?_natText (n : Nat) : nat? (natText n) = some n := by
  rw [nat?_of_digits (fun c => isDigit_of_mem_natText) Nat.toDigits_ne_nil, natText,
    Nat.ofDigitChars_toDigits (by decide) (by decide)]

end Numeral

/-! ## 3. Values -/

namespace Config

namespace Value

open Numeral

/-- The sign is read as it was written, where the kind has negative values. -/
theorem integer?_integerText {signed : Bool} {n : Int} (fits : 0 ≤ n ∨ signed = true) :
    integer? signed (integerText n) = some n := by
  unfold integerText
  split
  · rename_i negative
    obtain rfl : signed = true := fits.resolve_left (by omega)
    have back : -(n.natAbs : Int) = n := by omega
    simp only [integer?, if_true, nat?_natText]
    exact congrArg some back
  · rename_i positive
    have digits := fun c => isDigit_of_mem_natText (c := c) (n := n.natAbs)
    have reads : (nat? (natText n.natAbs)).map Int.ofNat = some n := by
      simp only [nat?_natText, Option.map_some, Option.some.injEq, Int.ofNat_eq_natCast]
      omega
    generalize natText n.natAbs = ds at digits reads
    unfold integer?
    split
    · exact absurd (digits '-' List.mem_cons_self) (by decide)
    · exact absurd (digits '+' List.mem_cons_self) (by decide)
    · exact reads

/-- A kind without a sign has no negative values. -/
theorem signed_of_holds {k : IntegerKind} {n : Int} (holds : k.Holds n) :
    0 ≤ n ∨ k.signed = true := by
  cases signed : k.signed with
  | true => exact .inr rfl
  | false =>
    have least := holds.1
    rw [IntegerKind.least, signed] at least
    exact .inl least

/-- The text of a value is read as this value, floating-point numbers apart. -/
theorem read?_render {v : Value} (exact : ∀ k, v.kind ≠ .float k) :
    read? v.kind v.render = some v := by
  cases v with
  | integer k n holds =>
    simp only [kind, render, read?, String.toList_ofList,
      integer?_integerText (signed_of_holds holds), dif_pos holds]
  | float k x => exact absurd rfl (exact k)
  | boolean b => cases b <;> rfl
  | character c => simp [kind, render, read?]
  | text s => rfl

theorem bare_integer (k : IntegerKind) (n : Int) (holds : k.Holds n) :
    Text.Bare (integer k n holds).render := by
  refine Text.bare_of_forall fun c mem => ?_
  simp only [render, String.toList_ofList, integerText] at mem
  split at mem
  · rcases List.mem_cons.mp mem with rfl | digit
    · decide
    · exact Text.isBlank_of_isDigit (isDigit_of_mem_natText digit)
  · exact Text.isBlank_of_isDigit (isDigit_of_mem_natText mem)

theorem bare_boolean (b : Bool) : Text.Bare (boolean b).render := by
  refine Text.bare_of_forall ?_
  cases b <;> simp [render, Text.isBlank]

end Value

/-- A text without blanks at its ends stands for the value that it shows. -/
theorem Var.stage_text {v : Var} (exact : ∀ k, v.value.kind ≠ .float k) (bare : Text.Bare v.text) :
    v.stage v.text = .ok v.value := by
  have trimmed := Text.trim_of_bare bare
  have read : Value.read? v.value.kind v.text = some v.value := Value.read?_render exact
  unfold stage
  rw [trimmed, read]

end Config

/-! ## 4. Variables -/

namespace World

open Config (Var)

variable {w : World} {name : String} {v : Var}

/-- Setting the variable of a name from the text that it shows succeeds, and leaves all
variables as they are. -/
def Restores (w : World) (name : String) (v : Var) : Prop :=
  ∃ u, w.parseVar name v.text = (u, .parsed none v.text) ∧
    ∀ other, u.process.registry.get? other = w.process.registry.get? other

theorem restores_of_bare (found : w.process.registry.get? name = some v)
    (exact : ∀ k, v.value.kind ≠ .float k) (bare : Text.Bare v.text) : w.Restores name v := by
  refine ⟨w.store v.name v.value, ?_, fun other => ?_⟩
  · rw [parseVar_found found, Var.stage_text exact bare]
    rfl
  · rw [get?_store found]
    split
    · rename_i same
      have same := same.trans (Config.Registry.name_of_get? found)
      rw [Config.Registry.get?_congr same, found]
    · rfl

/-- A blank character does not come back: nothing is left of its text to be read. -/
theorem parseVar_blank {c : Char} (found : w.process.registry.get? name = some v)
    (holds : v.value = .character c) (blank : Text.isBlank c = true) :
    w.parseVar name v.text = (w, .parsed (some (.parse v.name v.text)) v.text) := by
  have refused : v.stage v.text = .error (.parse v.name v.text) := by
    rw [Var.stage, Var.text, holds, Config.Value.render, Text.trim_singleton blank]
    rfl
  rw [parseVar_found found, refused]

/-- A text comes back without the blanks at its ends. -/
theorem parseVar_text {s : String} (found : w.process.registry.get? name = some v)
    (holds : v.value = .text s) :
    w.parseVar name v.text =
      (w.store v.name (.text (Text.trim s)), .parsed none (Text.trim s)) := by
  have staged : v.stage v.text = .ok (.text (Text.trim s)) := by
    rw [Var.stage, Var.text, holds]
    rfl
  rw [parseVar_found found, staged]
  rfl

/-- So a variable that is restored shows no blank at the ends of its text. -/
theorem bare_of_restores (found : w.process.registry.get? name = some v)
    (exact : ∀ k, v.value.kind ≠ .float k) (restores : w.Restores name v) : Text.Bare v.text := by
  have shown : v.text = v.value.render := rfl
  obtain ⟨u, set, -⟩ := restores
  rw [shown]
  cases same : v.value with
  | integer k n holds => exact Config.Value.bare_integer k n holds
  | float k x => exact absurd (congrArg Config.Value.kind same) (exact k)
  | boolean b => exact Config.Value.bare_boolean b
  | character c =>
    refine Text.bare_singleton.mpr (Bool.eq_false_iff.mpr fun blank => ?_)
    cases set.symm.trans (parseVar_blank found same blank)
  | text s =>
    have stored := (Prod.mk.inj (set.symm.trans (parseVar_text found same))).2
    rw [shown, same] at stored
    exact Text.bare_of_trim (Reply.parsed.inj stored).2.symm

/-- **A variable is restored by its text if no blank stands at the ends of it.** Let a name
denote a variable of an integer kind, a truth value, a character or a text. Setting the
variable from the text that it shows succeeds and changes nothing if and only if the text
neither begins nor ends with a blank. This is so for all integers of all kinds, for both
truth values and for all characters that are no blanks. A blank character is refused, and a
text is stored without its outer blanks. -/
theorem restores_iff (found : w.process.registry.get? name = some v)
    (exact : ∀ k, v.value.kind ≠ .float k) :
    (w.Restores name v ↔ Text.Bare v.text) ∧
    (∀ k n holds, v.value = .integer k n holds → w.Restores name v) ∧
    (∀ b, v.value = .boolean b → w.Restores name v) ∧
    (∀ c, v.value = .character c → if Text.isBlank c then
      w.parseVar name v.text = (w, .parsed (some (.parse v.name v.text)) v.text)
      else w.Restores name v) ∧
    ∀ s, v.value = .text s → w.parseVar name v.text =
      (w.store v.name (.text (Text.trim s)), .parsed none (Text.trim s)) := by
  have back : Text.Bare v.value.render → w.Restores name v := restores_of_bare found exact
  refine ⟨⟨bare_of_restores found exact, back⟩, ?_, ?_, ?_, fun s => parseVar_text found⟩
  · intro k n holds same
    exact back (same ▸ Config.Value.bare_integer k n holds)
  · intro b same
    exact back (same ▸ Config.Value.bare_boolean b)
  · intro c same
    split
    · rename_i blank
      exact parseVar_blank found same blank
    · rename_i visible
      exact back (same ▸ Text.bare_singleton.mpr (Bool.eq_false_iff.mpr visible))

/-- The world after variables have been registered, one after the other. -/
def registering (vars : List Var) : World :=
  ((Machine.start none .sink (vars.map fun v => .lookup v.name v.value v.description)).steps
    vars.length).world

/-- The least integer of the widest kind is restored. -/
theorem least_restored :
    let v : Var := ⟨"offset", "", .integer .i128 (-2 ^ 127) (by decide)⟩
    (registering [v]).process.registry.get? "offset" = some v ∧
    (∀ k, v.value.kind ≠ .float k) ∧ (registering [v]).Restores "offset" v := by
  intro v
  have found : (registering [v]).process.registry.get? "offset" = some v := by decide +kernel
  have exact : ∀ k, v.value.kind ≠ .float k := nofun
  exact ⟨found, exact, (restores_iff found exact).2.1 _ _ _ rfl⟩

/-- A variable refuses the blank that it holds, and another loses the blank before its text. -/
theorem blanks_not_restored :
    let c : Var := ⟨"separator", "", .character ' '⟩
    let s : Var := ⟨"label", "", .text " a"⟩
    let w := registering [c, s]
    w.process.registry.get? "separator" = some c ∧ w.process.registry.get? "label" = some s ∧
    w.parseVar "separator" c.text = (w, .parsed (some (.parse "separator" " ")) " ") ∧
    w.parseVar "label" s.text = (w.store "label" (.text "a"), .parsed none "a") ∧
    ¬ w.Restores "separator" c ∧ ¬ w.Restores "label" s := by
  intro c s w
  have foundC : w.process.registry.get? "separator" = some c := by decide +kernel
  have foundS : w.process.registry.get? "label" = some s := by decide +kernel
  have refused : w.parseVar "separator" c.text = (w, .parsed (some (.parse "separator" " ")) " ") :=
    parseVar_blank foundC rfl (by decide)
  have trimmed : Text.trim " a" = "a" := by decide +kernel
  have shortened : w.parseVar "label" s.text = (w.store "label" (.text "a"), .parsed none "a") :=
    trimmed ▸ parseVar_text foundS rfl
  refine ⟨foundC, foundS, refused, shortened, ?_, ?_⟩
  · rintro ⟨u, set, -⟩
    have same := (Prod.mk.inj (set.symm.trans refused)).2
    cases (Reply.parsed.inj same).1
  · rintro ⟨u, set, -⟩
    have same := (Reply.parsed.inj (Prod.mk.inj (set.symm.trans shortened)).2).2
    exact absurd same (by decide)

end World

end FiberEngine
