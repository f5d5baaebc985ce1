import Wall.Replay
import Wall.Lib.Numeral

/-!
# The number formats of the program

`stream << value` prints six significant digits, `std::to_string` six digits behind the point, and after
`std::setprecision(17)` a stream prints every digit that a double has.  The first two round to a nearest number that
they can print, in whichever way ties go.  Results about them hold for every such rounding; `Numeral.significant` and
`Numeral.fixed` are one choice each, with `Numeral.value` for `std::stod`.  The doubles themselves are a format of the
same kind, which sums, differences, products and quotients are rounded to.
-/

namespace Wall

open Rounding

/-- The numbers that `stream << value` can print: at most six significant digits. -/
def streamedNumbers : Set ℚ := significant ℚ 10 6

/-- The numbers that `std::to_string` can print: six digits behind the point. -/
def toStringNumbers : Set ℚ := grid ((10 : ℚ) ^ (-6 : ℤ))

/-- The numbers that a stream can print after `std::setprecision(17)`: at most seventeen significant digits. -/
def preciseNumbers : Set ℚ := significant ℚ 10 17

theorem nearest_precise : IsNearest preciseNumbers (roundSignificant 10 17) :=
  nearest_roundSignificant (by norm_num) (by norm_num)

theorem nearest_streamed : IsNearest streamedNumbers (roundSignificant 10 6) :=
  nearest_roundSignificant (by norm_num) (by norm_num)

theorem nearest_toString : IsNearest toStringNumbers (roundTo ((10 : ℚ) ^ (-6 : ℤ))) :=
  nearest_roundTo (by positivity)

instance (x : ℚ) : Decidable (x ∈ streamedNumbers) := decidable_of_iff _ nearest_streamed.fixed_iff

instance (x : ℚ) : Decidable (x ∈ toStringNumbers) := decidable_of_iff _ nearest_toString.fixed_iff

/-- The doubles, without the bounds of their exponents: at most 53 significant bits. -/
def doubles : Set ℚ := significant ℚ 2 53

/-- Rounding to a nearest double, as every operation on doubles does with its exact result. -/
def toDouble : ℚ → ℚ := roundSignificant 2 53

theorem nearest_toDouble : IsNearest doubles toDouble := nearest_roundSignificant (by norm_num) (by norm_num)

instance (x : ℚ) : Decidable (x ∈ doubles) := decidable_of_iff (toDouble x = x) nearest_toDouble.fixed_iff

theorem zero_mem_doubles : (0 : ℚ) ∈ doubles := ⟨0, 0, by norm_num, by norm_num⟩

/-- The doubles that `std::stod` reads from a decimal with at most six digits behind the point. -/
def sixDecimals (read : ℚ → ℚ) : Set ℚ := {x | ∃ decimal ∈ toStringNumbers, read decimal = x}

/-- What `std::to_string` prints of a number is read as that number exactly if some decimal with six digits behind the
point is. -/
theorem toString_stod_iff {print read : ℚ → ℚ} (hprint : IsNearest toStringNumbers print)
    (hread : IsNearest doubles read) (x : ℚ) : read (print x) = x ↔ x ∈ sixDecimals read := by
  -- a millionth is between `2 ^ (-20)` and `2 ^ (-19)`
  refine read_print_iff (by norm_num) (by norm_num) hprint hread (e := -19) ?_ ?_ ⟨2 ^ 33 * 10 ^ 6, ?_⟩ x <;> norm_num

/-- A decimal that a double carries: at most fifteen significant digits. -/
def doubleDecimals : Set ℚ := significant ℚ 10 15

instance (x : ℚ) : Decidable (x ∈ doubleDecimals) :=
  decidable_of_iff (roundSignificant 10 15 x = x) (nearest_roundSignificant (by norm_num) (by norm_num)).fixed_iff

theorem numerals_significant (n : Nat) :
    Numerals (Numeral.significant n) Numeral.value (roundSignificant 10 n) := by
  refine ⟨fun x => Numeral.text_ne_empty _ _, fun x c hc => ?_, Numeral.value_significant n⟩
  refine ⟨?_, ?_, ?_, ?_⟩ <;> rintro rfl <;> rcases Numeral.mem_text hc with h | h | h <;> exact absurd h (by decide)

theorem numerals_fixed (n : Nat) :
    Numerals (Numeral.fixed n) Numeral.value (roundTo ((10 : ℚ) ^ (-n : ℤ))) := by
  refine ⟨fun x => Numeral.text_ne_empty _ _, fun x c hc => ?_, Numeral.value_fixed n⟩
  refine ⟨?_, ?_, ?_, ?_⟩ <;> rintro rfl <;> rcases Numeral.mem_text hc with h | h | h <;> exact absurd h (by decide)

end Wall
