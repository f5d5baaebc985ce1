import Mathlib.Data.Rat.Floor
import Wall.Lib.Decimal
import Wall.Lib.Rounding

/-!
# Numerals with an exponent

The text `m ++ "e" ++ e` stands for the number `m * 10 ^ e`, as `strtod` reads it.  A text without an exponent is the
integer that it starts with.  A rational is printed with a number of significant digits (`significant`) or of digits
behind the point (`fixed`), and is read back rounded.
-/

namespace Numeral

def text (m e : Int) : String := toString m ++ ("e" ++ toString e)

def value (text : String) : Option ℚ := do
  let m ← Decimal.integer text
  match text.toList.dropWhile (· ≠ 'e') with
  | [] => return m
  | _ :: exponent => do
    let e ← Decimal.integer (String.ofList exponent)
    return m * (10 : ℚ) ^ e

private theorem ne_e_of_mem {m : Int} {c : Char} (h : c ∈ (toString m).toList) : c ≠ 'e' := by
  rintro rfl
  rcases Decimal.isDigit_of_mem_toString h with h | h <;> exact absurd h (by decide)

/-- A numeral is read back. -/
theorem value_text (m e : Int) : value (text m e) = some (m * (10 : ℚ) ^ e) := by
  have hmantissa : Decimal.integer (text m e) = some m :=
    Decimal.integer_append m (by simp)
  have hexponent : (text m e).toList.dropWhile (· ≠ 'e') = 'e' :: (toString e).toList := by
    rw [text, String.toList_append, String.toList_append,
      List.dropWhile_append_of_pos fun c hc => decide_eq_true (ne_e_of_mem hc)]
    rfl
  have he : Decimal.integer (Int.repr e) = some e := Decimal.integer_toString e
  unfold value
  rw [hmantissa, hexponent]
  simp [he]

/-- An integer is a numeral too. -/
theorem value_toString (m : Int) : value (toString m) = some (m : ℚ) := by
  have hnone : (toString m).toList.dropWhile (· ≠ 'e') = [] :=
    List.dropWhile_eq_nil_iff.2 fun c hc => decide_eq_true (ne_e_of_mem hc)
  unfold value
  rw [Decimal.integer_toString, hnone]
  rfl

theorem text_ne_empty (m e : Int) : text m e ≠ "" := by
  intro h
  exact Decimal.toString_ne_nil m (String.toList_eq_nil_iff.2 (String.append_eq_empty_iff.1 h).1)

/-- The characters of a numeral. -/
theorem mem_text {m e : Int} {c : Char} (h : c ∈ (text m e).toList) : c = '-' ∨ c = 'e' ∨ c.isDigit = true := by
  rw [text, String.toList_append, String.toList_append] at h
  rcases List.mem_append.1 h with h | h
  · exact (Decimal.isDigit_of_mem_toString h).imp id .inr
  · rcases List.mem_append.1 h with h | h
    · exact .inr (.inl (List.mem_singleton.1 h))
    · exact (Decimal.isDigit_of_mem_toString h).imp id .inr

open Rounding

/-- The numeral of `x` with at most `n` significant digits. -/
def significant (n : Nat) (x : ℚ) : String := text (round (x / quantum 10 n x)) (Int.log 10 |x| + 1 - n)

/-- The numeral of `x` with `n` digits behind the point. -/
def fixed (n : Nat) (x : ℚ) : String := text (round (x / (10 : ℚ) ^ (-n : ℤ))) (-n)

theorem value_significant (n : Nat) (x : ℚ) : value (significant n x) = some (roundSignificant 10 n x) :=
  value_text _ _

theorem value_fixed (n : Nat) (x : ℚ) : value (fixed n x) = some (roundTo ((10 : ℚ) ^ (-n : ℤ)) x) := value_text _ _

/-! ### The grammar of decimal numerals -/

/-- White space, perhaps a sign, digits with perhaps a point among them, and perhaps an exponent: what is between the
sign and the exponent. -/
def mantissa (cs : List Char) : List Char :=
  (Decimal.unsigned (cs.dropWhile Decimal.isSpace)).takeWhile fun c => c ≠ 'e' && c ≠ 'E'

def exponent (cs : List Char) : List Char :=
  (Decimal.unsigned (cs.dropWhile Decimal.isSpace)).dropWhile fun c => c ≠ 'e' && c ≠ 'E'

def isDigits (cs : List Char) : Bool := !cs.isEmpty && cs.all Char.isDigit

/-- The decimal numerals of `strtod`, which also has hexadecimal ones, infinities and NaNs. -/
def decimals : NumeralGrammar Char ℚ where
  isNumeral cs := isDigits ((mantissa cs).erase '.') &&
    ((exponent cs).isEmpty || isDigits (Decimal.unsigned (exponent cs).tail))
  value cs :=
    let sign : ℚ := if (cs.dropWhile Decimal.isSpace).head? = some '-' then -1 else 1
    let digits := Nat.ofDigitChars 10 ((mantissa cs).erase '.') 0
    let behindPoint := ((mantissa cs).dropWhile (· ≠ '.')).length - 1
    some (sign * digits * (10 : ℚ) ^ ((Decimal.signed (exponent cs).tail).getD 0 - behindPoint))

/-- A thousands separator ends a numeral, a point does not. -/
example : decimals.read " -1.5e2x".toList = some (-150) ∧ decimals.read "1,000".toList = some 1 := by decide +kernel

end Numeral
