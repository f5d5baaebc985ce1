import Wall.FileRepositories
import Wall.NumberFormats
import Wall.Lib.CString

/-!
# Values on their way through the database

`LibpqSession::exec_params` passes every value by `c_str`, so a text arrives without what stands behind its first NUL,
and `PQgetvalue` returns texts.  A number is printed by `std::to_string`, goes through a `DOUBLE PRECISION` column and
is read by `std::stod`.  It comes back as it was exactly if it has at most six decimals (`Documented.kept_iff`).
-/

namespace Wall

open Rounding CString

/-- How numbers are printed and read, and the text that a `DOUBLE PRECISION` column gives back for the text of a
number that was put into it. -/
structure LibpqNumbers where
  text : NumberText
  doublePrecision : String → String

namespace LibpqNumbers

/-- The text that `PQgetvalue` returns of a number. -/
def getValue (numbers : LibpqNumbers) (x : ℚ) : String := numbers.doublePrecision (cString (numbers.text.toString x))

/-- None where `std::stod` throws. -/
def read (numbers : LibpqNumbers) (x : ℚ) : Option ℚ := numbers.text.stod (numbers.getValue x)

/-- `NULLIF($n, '')::DOUBLE PRECISION` stores the text of no number as NULL, and `PQgetvalue` returns NULL as an empty
text. -/
def readOptional (numbers : LibpqNumbers) (value : Option ℚ) : Option (Option ℚ) :=
  numbers.text.decodeOptionalDouble ((value.map numbers.getValue).getD "")

/-- The documented behaviour: `std::to_string` prints the nearest decimal with six digits behind the point,
`std::stod` reads the nearest double, and a `DOUBLE PRECISION` column gives back a text of the double that it was
given. -/
structure Documented (numbers : LibpqNumbers) (print rnd : ℚ → ℚ) : Prop where
  print_nearest : IsNearest toStringNumbers print
  rnd_nearest : IsNearest doubles rnd
  noNul : ∀ x, '\x00' ∉ (numbers.text.toString x).toList
  stod_toString : ∀ x, numbers.text.stod (numbers.text.toString x) = some (rnd (print x))
  column_ne_empty : ∀ x, numbers.doublePrecision (numbers.text.toString x) ≠ ""
  stod_column : ∀ x, numbers.text.stod (numbers.doublePrecision (numbers.text.toString x)) =
    numbers.text.stod (numbers.text.toString x)

namespace Documented

variable {numbers : LibpqNumbers} {print rnd : ℚ → ℚ} (h : numbers.Documented print rnd)
include h

theorem read_eq (x : ℚ) : numbers.read x = some (rnd (print x)) := by
  rw [read, getValue, cString_of_notMem (h.noNul x), h.stod_column, h.stod_toString]

theorem readOptional_eq (value : Option ℚ) :
    numbers.readOptional value = some (value.map fun x => rnd (print x)) := by
  cases value with
  | none => rfl
  | some x =>
    have hread := h.read_eq x
    have hne : numbers.getValue x ≠ "" := by
      rw [getValue, cString_of_notMem (h.noNul x)]
      exact h.column_ne_empty x
    show numbers.text.decodeOptionalDouble (numbers.getValue x) = _
    rw [NumberText.decodeOptionalDouble, if_neg hne, ← read, hread]
    rfl

/-- A number is read as it was written exactly if it has at most six decimals. -/
theorem kept_iff {x : ℚ} : rnd (print x) = x ↔ x ∈ sixDecimals rnd :=
  toString_stod_iff h.print_nearest h.rnd_nearest x

/-- Zero is read as zero. -/
theorem zero : rnd (print 0) = 0 := by
  have hzero : (0 : ℚ) ∈ toStringNumbers := ⟨0, by simp⟩
  rw [h.print_nearest.fixed_iff.2 hzero, h.rnd_nearest.fixed_iff.2 zero_mem_doubles]

end Documented

/-! ### One choice of the formats -/

/-- Numerals as `decimalText` has them, read as doubles, and a column that prints a whole number without a point. -/
def decimal : LibpqNumbers where
  text := { decimalText with stod := fun text => (Numeral.value text).map toDouble }
  doublePrecision text :=
    match Numeral.value text with
    | some x => if x.den = 1 then toString x.num else text
    | none => text

theorem decimal_documented : decimal.Documented (roundTo ((10 : ℚ) ^ (-6 : ℤ))) toDouble where
  print_nearest := nearest_toString
  rnd_nearest := nearest_toDouble
  noNul x h := by rcases Numeral.mem_text h with h | h | h <;> exact absurd h (by decide)
  stod_toString x := congrArg (Option.map toDouble) (Numeral.value_fixed 6 x)
  column_ne_empty x := by
    have hvalue := Numeral.value_fixed 6 x
    show (match Numeral.value (Numeral.fixed 6 x) with
      | some y => if y.den = 1 then toString y.num else Numeral.fixed 6 x
      | none => Numeral.fixed 6 x) ≠ ""
    rw [hvalue]
    dsimp only
    split
    · exact fun h => Decimal.toString_ne_nil _ (String.toList_eq_nil_iff.2 h)
    · exact Numeral.text_ne_empty _ _
  stod_column x := by
    have hvalue := Numeral.value_fixed 6 x
    show (Numeral.value (match Numeral.value (Numeral.fixed 6 x) with
      | some y => if y.den = 1 then toString y.num else Numeral.fixed 6 x
      | none => Numeral.fixed 6 x)).map toDouble = (Numeral.value (Numeral.fixed 6 x)).map toDouble
    rw [hvalue]
    dsimp only
    split
    · rename_i hden
      rw [Numeral.value_toString, Rat.coe_int_num_of_den_eq_one hden]
    · rw [hvalue]

end LibpqNumbers

end Wall
