import Mathlib.Algebra.Order.Round
import Mathlib.Data.Int.Log
import Mathlib.Tactic.Linarith
import Mathlib.Tactic.Ring

/-!
# Rounding to the nearest number of a format

The numbers that a text format can carry are a set, and printing rounds to a nearest one, whichever way ties go
(`IsNearest`).  So the format carries a number exactly if the number is in the set (`IsNearest.fixed_iff`).

Arithmetic in a format rounds every result: `sumFrom` adds so, and `abs_sumFrom_sub_le` bounds what a sum is off by.

Two formats in a base `b`: a fixed step (`grid`), such as `n` digits behind the point, and at most `n` significant
digits (`significant`).  Each comes with a function that rounds to it.  Printed on the first and read into the second,
a number is kept exactly if it is what some text is read as (`read_print_iff`).
-/

namespace Rounding

section Nearest

variable {α : Type*} [AddCommGroup α] [LinearOrder α] [IsOrderedAddMonoid α]

/-- `rnd x` is in `s`, and nothing in `s` is nearer to `x`. -/
structure IsNearest (s : Set α) (rnd : α → α) : Prop where
  mem : ∀ x, rnd x ∈ s
  le : ∀ x, ∀ y ∈ s, |x - rnd x| ≤ |x - y|

variable {s : Set α} {rnd : α → α}

/-- What is kept by rounding is what the format can carry. -/
theorem IsNearest.fixed_iff (h : IsNearest s rnd) {x : α} : rnd x = x ↔ x ∈ s := by
  constructor
  · intro hx
    rw [← hx]
    exact h.mem x
  · intro hx
    have hle := h.le x x hx
    rw [sub_self, abs_zero] at hle
    exact (sub_eq_zero.1 (abs_nonpos_iff.1 hle)).symm

/-- Rounding to a nearest number never changes the order of two numbers. -/
theorem IsNearest.monotone (h : IsNearest s rnd) : Monotone rnd := by
  intro x y hxy
  rcases hxy.eq_or_lt with rfl | hlt
  · exact le_refl _
  · -- two numbers whose roundings are in the wrong order would each be nearer to the other's
    by_contra hrnd
    rw [not_le] at hrnd
    have hx := h.le x _ (h.mem y)
    have hy := h.le y _ (h.mem x)
    rcases le_total x (rnd y) with hxr | hxr
    · rw [abs_sub_comm, abs_of_nonneg (sub_nonneg.2 (hxr.trans hrnd.le)), abs_sub_comm,
        abs_of_nonneg (sub_nonneg.2 hxr), sub_le_sub_iff_right] at hx
      exact absurd hx (not_le.2 hrnd)
    · have hyr : rnd y < y := hxr.trans_lt hlt
      rw [abs_of_pos (sub_pos.2 hyr)] at hy
      rw [abs_of_nonneg (sub_nonneg.2 hxr)] at hx
      rcases le_total y (rnd x) with hyx | hyx
      · rw [abs_sub_comm, abs_of_nonneg (sub_nonneg.2 hyx)] at hy
        rw [abs_sub_comm, abs_of_nonneg (sub_nonneg.2 (hlt.le.trans hyx))] at hx
        have hsum := add_le_add hx hy
        have hlt' : x - rnd y + (rnd x - y) < rnd x - x + (y - rnd y) := by
          rw [← sub_pos]
          have : rnd x - x + (y - rnd y) - (x - rnd y + (rnd x - y)) = (y - x) + (y - x) := by abel
          rw [this]
          exact add_pos (sub_pos.2 hlt) (sub_pos.2 hlt)
        exact absurd hsum (not_le.2 hlt')
      · rw [abs_of_nonneg (sub_nonneg.2 hyx), sub_le_sub_iff_left] at hy
        exact absurd hy (not_le.2 hrnd)

/-- Rounding takes no number below one that the format carries with both signs. -/
theorem IsNearest.le_abs (h : IsNearest s rnd) {c x : α} (hc : c ∈ s) (hc' : -c ∈ s) (hx : c ≤ |x|) : c ≤ |rnd x| := by
  rcases le_total 0 x with h0 | h0
  · rw [abs_of_nonneg h0] at hx
    have hle := h.monotone hx
    rw [h.fixed_iff.2 hc] at hle
    exact hle.trans (le_abs_self _)
  · rw [abs_of_nonpos h0, le_neg] at hx
    have hle := h.monotone hx
    rw [h.fixed_iff.2 hc'] at hle
    exact (le_neg.1 hle).trans (neg_le_abs _)

end Nearest

section Sums

variable {α : Type*} [AddCommGroup α] [LinearOrder α] [IsOrderedAddMonoid α] (rnd : α → α)

/-- How far rounding moves a number. -/
def error (x : α) : α := |rnd x - x|

/-- Add the terms one by one, each result rounded. -/
def sumFrom : α → List α → α
  | a, [] => a
  | a, x :: xs => sumFrom (rnd (a + x)) xs

/-- How far the additions of `sumFrom` are rounded, all together. -/
def sumErrors : α → List α → α
  | _, [] => 0
  | a, x :: xs => error rnd (a + x) + sumErrors (rnd (a + x)) xs

theorem le_add_error (x : α) : rnd x ≤ x + error rnd x := by
  rw [← sub_le_iff_le_add']
  exact le_abs_self _

theorem sub_error_le (x : α) : x - error rnd x ≤ rnd x := by
  rw [sub_le_comm, error, abs_sub_comm]
  exact le_abs_self _

theorem error_nonneg (x : α) : 0 ≤ error rnd x := abs_nonneg _

/-- A rounded sum is as far from the exact one as its additions are rounded, at most. -/
theorem abs_sumFrom_sub_le (a : α) (xs : List α) : |sumFrom rnd a xs - (a + xs.sum)| ≤ sumErrors rnd a xs := by
  induction xs generalizing a with
  | nil => simp [sumFrom, sumErrors]
  | cons x xs ih =>
    calc |sumFrom rnd (rnd (a + x)) xs - (a + (x :: xs).sum)|
        = |(sumFrom rnd (rnd (a + x)) xs - (rnd (a + x) + xs.sum)) + (rnd (a + x) - (a + x))| := by
          rw [List.sum_cons]
          congr 1
          abel
      _ ≤ |sumFrom rnd (rnd (a + x)) xs - (rnd (a + x) + xs.sum)| + error rnd (a + x) := abs_add_le _ _
      _ ≤ sumErrors rnd (rnd (a + x)) xs + error rnd (a + x) := add_le_add (ih _) le_rfl
      _ = sumErrors rnd a (x :: xs) := add_comm _ _

end Sums

section Formats

variable {K : Type*} [Field K] [LinearOrder K] [IsStrictOrderedRing K] [FloorRing K]

omit [LinearOrder K] [IsStrictOrderedRing K] [FloorRing K] in
/-- The multiples of `step`. -/
def grid (step : K) : Set K := {x | ∃ m : ℤ, x = m * step}

/-- The numbers with at most `n` significant digits in base `b`. -/
def significant (K : Type*) [Field K] (b n : ℕ) : Set K :=
  {x | ∃ m e : ℤ, |m| < (b : ℤ) ^ n ∧ x = m * (b : K) ^ e}

def roundTo (step x : K) : K := round (x / step) * step

/-- The step between the numbers with `n` significant digits near `x`. -/
def quantum (b n : ℕ) (x : K) : K := (b : K) ^ (Int.log b |x| + 1 - n)

def roundSignificant (b n : ℕ) (x : K) : K := roundTo (quantum b n x) x

theorem nearest_roundTo {step : K} (hstep : 0 < step) : IsNearest (grid step) (roundTo step) := by
  refine ⟨fun x => ⟨round (x / step), rfl⟩, ?_⟩
  rintro x _ ⟨m, rfl⟩
  have hscale : ∀ k : ℤ, |x - k * step| = |x / step - k| * step := by
    intro k
    rw [← abs_of_pos hstep, ← abs_mul, abs_of_pos hstep, sub_mul, div_mul_cancel₀ _ hstep.ne']
  rw [roundTo, hscale, hscale]
  exact mul_le_mul_of_nonneg_right (round_le _ m) hstep.le

variable {b n : ℕ}

omit [FloorRing K] in
private theorem base_pos (hb : 1 < b) : (0 : K) < b := Nat.cast_pos.2 (Nat.zero_lt_of_lt hb)

private theorem quantum_pos (hb : 1 < b) (x : K) : 0 < quantum b n x := zpow_pos (base_pos hb) _

/-- A power of the base that is not below the quantum is on its grid, with all its integral multiples. -/
private theorem mem_grid_quantum (hb : 1 < b) (x : K) (m : ℤ) {e : ℤ} (he : Int.log b |x| + 1 - n ≤ e) :
    m * (b : K) ^ e ∈ grid (quantum b n x) := by
  obtain ⟨k, hk⟩ := Int.le.dest he
  refine ⟨m * (b : ℤ) ^ k, ?_⟩
  rw [quantum, ← hk, zpow_add₀ (base_pos hb).ne', zpow_natCast]
  push_cast
  ring

/-- A number with few digits and a small exponent is not above the power of the base below `x`. -/
private theorem abs_le_of_small (hb : 1 < b) {x : K} {m e : ℤ} (hm : |m| < (b : ℤ) ^ n)
    (he : e < Int.log b |x| + 1 - n) : |m * (b : K) ^ e| ≤ (b : K) ^ Int.log b |x| := by
  have hpos : (0 : K) < (b : K) ^ e := zpow_pos (base_pos hb) _
  have hm' : |(m : K)| ≤ (b : K) ^ n := by exact_mod_cast hm.le
  calc |m * (b : K) ^ e| = |(m : K)| * (b : K) ^ e := by rw [abs_mul, abs_of_pos hpos]
    _ ≤ (b : K) ^ n * (b : K) ^ e := mul_le_mul_of_nonneg_right hm' hpos.le
    _ = (b : K) ^ ((n : ℤ) + e) := by rw [zpow_add₀ (base_pos hb).ne', zpow_natCast]
    _ ≤ (b : K) ^ Int.log b |x| := by
      refine zpow_le_zpow_right₀ ?_ (by omega)
      exact_mod_cast hb.le

/-- `x` is below the power of the base above it, which is `b ^ n` steps. -/
private theorem abs_div_quantum_lt (hb : 1 < b) (x : K) : |x / quantum b n x| < (b : K) ^ n := by
  have hq := quantum_pos (n := n) hb x
  rw [abs_div, abs_of_pos hq, div_lt_iff₀ hq, quantum, ← zpow_natCast, ← zpow_add₀ (base_pos hb).ne']
  have hexp : (n : ℤ) + (Int.log b |x| + 1 - n) = Int.log b |x| + 1 := by ring
  rw [hexp]
  exact Int.lt_zpow_succ_log_self hb |x|

private theorem abs_round_le {y : K} {N : ℤ} (h : |y| < N) : |round y| ≤ N := by
  obtain ⟨hlow, hhigh⟩ := abs_lt.1 h
  rw [round_eq, abs_le]
  constructor
  · rw [Int.le_floor]
    push_cast
    linarith
  · rw [← Int.lt_add_one_iff, Int.floor_lt]
    push_cast
    linarith

private theorem roundSignificant_mem (hb : 1 < b) (hn : 0 < n) (x : K) :
    roundSignificant b n x ∈ significant K b n := by
  have hround : |round (x / quantum b n x)| ≤ (b : ℤ) ^ n :=
    abs_round_le (by push_cast; exact abs_div_quantum_lt hb x)
  rcases hround.lt_or_eq with hlt | heq
  · exact ⟨_, _, hlt, rfl⟩
  · -- rounded up to a power of the base, which has one significant digit
    have hpow : (b : K) ^ n * quantum b n x = (b : K) ^ (Int.log b |x| + 1) := by
      rw [quantum, ← zpow_natCast, ← zpow_add₀ (base_pos hb).ne']
      congr 1
      ring
    have hone : (1 : ℤ) < (b : ℤ) ^ n := one_lt_pow₀ (by exact_mod_cast hb) hn.ne'
    rcases (abs_eq (pow_nonneg (Int.natCast_nonneg b) n)).1 heq with h | h
    · refine ⟨1, Int.log b |x| + 1, by rwa [abs_one], ?_⟩
      rw [roundSignificant, roundTo, h, ← hpow]
      push_cast
      ring
    · refine ⟨-1, Int.log b |x| + 1, by rwa [abs_neg, abs_one], ?_⟩
      rw [roundSignificant, roundTo, h, ← hpow]
      push_cast
      ring

omit [FloorRing K] in
/-- The power of the base below `|x|`, with the sign of `x`, is between `x` and every number that is not above it. -/
private theorem le_abs_sub_of_small {x y p : K} (hp : p ≤ |x|) (hy : |y| ≤ p) :
    |x - p| ≤ |x - y| ∨ |x - -p| ≤ |x - y| := by
  obtain ⟨hlow, hhigh⟩ := abs_le.1 hy
  rcases le_total 0 x with hx | hx
  · rw [abs_of_nonneg hx] at hp
    refine .inl ?_
    rw [abs_of_nonneg (sub_nonneg.2 hp), abs_of_nonneg (sub_nonneg.2 (hhigh.trans hp))]
    linarith
  · rw [abs_of_nonpos hx] at hp
    refine .inr ?_
    rw [abs_of_nonpos (by linarith), abs_of_nonpos (by linarith)]
    linarith

theorem nearest_roundSignificant (hb : 1 < b) (hn : 0 < n) :
    IsNearest (significant K b n) (roundSignificant b n) := by
  refine ⟨roundSignificant_mem hb hn, ?_⟩
  rintro x _ ⟨m, e, hm, rfl⟩
  have hgrid := (nearest_roundTo (quantum_pos (n := n) hb x)).le x
  by_cases he : Int.log b |x| + 1 - n ≤ e
  · exact hgrid _ (mem_grid_quantum hb x m he)
  · rcases eq_or_ne x 0 with rfl | hx
    · have hzero : roundSignificant b n (0 : K) = 0 := by simp [roundSignificant, roundTo]
      rw [hzero, sub_self, abs_zero]
      exact abs_nonneg _
    · have hsmall := abs_le_of_small hb hm (not_le.1 he)
      have hpow : (b : K) ^ Int.log b |x| ≤ |x| := Int.zpow_log_le_self hb (abs_pos.2 hx)
      have hexp : Int.log b |x| + 1 - n ≤ Int.log b |x| := by omega
      rcases le_abs_sub_of_small hpow hsmall with h | h
      · refine (hgrid _ ?_).trans h
        simpa using mem_grid_quantum hb x 1 hexp
      · refine (hgrid _ ?_).trans h
        simpa using mem_grid_quantum hb x (-1) hexp

/-! ### Printed and read -/

private theorem IsNearest.abs_sub_le_half {step : K} {rnd : K → K} (h : IsNearest (grid step) rnd) (hstep : 0 < step)
    (x : K) : |x - rnd x| ≤ step / 2 := by
  calc |x - rnd x| ≤ |x - roundTo step x| := h.le x _ ⟨round (x / step), rfl⟩
    _ = |x / step - round (x / step)| * step := by
        rw [roundTo, ← abs_of_pos hstep, ← abs_mul, abs_of_pos hstep, sub_mul, div_mul_cancel₀ _ hstep.ne']
    _ ≤ 1 / 2 * step := mul_le_mul_of_nonneg_right (abs_sub_round _) hstep.le
    _ = step / 2 := by ring

theorem IsNearest.abs_sub_le_quantum (hb : 1 < b) (hn : 0 < n) {rnd : K → K}
    (h : IsNearest (significant K b n) rnd) (x : K) : |x - rnd x| ≤ quantum b n x / 2 :=
  (h.le x _ (roundSignificant_mem hb hn x)).trans
    ((nearest_roundTo (quantum_pos hb x)).abs_sub_le_half (quantum_pos hb x) x)

omit [FloorRing K] in
private theorem grid_eq_of_lt {step x y : K} (hstep : 0 < step) (hx : x ∈ grid step) (hy : y ∈ grid step)
    (h : |x - y| < step) : x = y := by
  obtain ⟨k, rfl⟩ := hx
  obtain ⟨m, rfl⟩ := hy
  rw [← sub_mul, abs_mul, abs_of_pos hstep, mul_lt_iff_lt_one_left hstep] at h
  have hkm : |k - m| < 1 := by exact_mod_cast h
  rw [sub_eq_zero.1 (Int.abs_lt_one_iff.1 hkm)]

omit [FloorRing K] in
/-- A number with few digits that is large enough is on a grid. -/
theorem mem_grid_of_le_abs (hb : 1 < b) {x : K} (hx : x ∈ significant K b n) {e : ℤ}
    (hle : (b : K) ^ (n + e - 1) ≤ |x|) : x ∈ grid ((b : K) ^ e) := by
  obtain ⟨m, e', hm, rfl⟩ := hx
  rcases le_or_gt e e' with he | he
  · obtain ⟨k, rfl⟩ := Int.le.dest he
    refine ⟨m * (b : ℤ) ^ k, ?_⟩
    rw [zpow_add₀ (base_pos hb).ne', zpow_natCast]
    push_cast
    ring
  · -- too few digits for a number of that size
    have hpos : (0 : K) < (b : K) ^ e' := zpow_pos (base_pos hb) _
    have hm' : |(m : K)| < (b : K) ^ n := by exact_mod_cast hm
    have hlt : |m * (b : K) ^ e'| < (b : K) ^ (n + e - 1) :=
      calc |m * (b : K) ^ e'| = |(m : K)| * (b : K) ^ e' := by rw [abs_mul, abs_of_pos hpos]
        _ < (b : K) ^ n * (b : K) ^ e' := mul_lt_mul_of_pos_right hm' hpos
        _ = (b : K) ^ ((n : ℤ) + e') := by rw [zpow_add₀ (base_pos hb).ne', zpow_natCast]
        _ ≤ (b : K) ^ (n + e - 1) := zpow_le_zpow_right₀ (by exact_mod_cast hb.le) (by omega)
    exact absurd hle (not_le.2 hlt)

/-- Numbers are printed with a fixed step and read as the nearest number with `n` digits in base `b`: what is read is
the number that was printed exactly if it is what some multiple of the step is read as.  The step lies between two
powers of the base, and the numbers beyond which the format is coarser than the step begin at one of its multiples. -/
theorem read_print_iff (hb : 1 < b) (hn : 0 < n) {step : K} {print read : K → K} (hprint : IsNearest (grid step) print)
    (hread : IsNearest (significant K b n) read) {e : ℤ} (hlow : (b : K) ^ (e - 1) < step) (hhigh : step < (b : K) ^ e)
    (hmem : (b : K) ^ (n + e - 1) ∈ grid step) (x : K) : read (print x) = x ↔ ∃ p ∈ grid step, read p = x := by
  have hstep : 0 < step := (zpow_pos (base_pos hb) _).trans hlow
  refine ⟨fun h => ⟨print x, hprint.mem x, h⟩, ?_⟩
  rintro ⟨p, hp, rfl⟩
  have hnear := hprint.abs_sub_le_half hstep (read p)
  rcases lt_or_ge |read p - p| (step / 2) with hlt | hge
  · -- `p` is the only multiple that near
    have hsame : |print (read p) - p| < step :=
      calc |print (read p) - p| ≤ |print (read p) - read p| + |read p - p| := abs_sub_le _ _ _
        _ < step / 2 + step / 2 := by rw [abs_sub_comm (print _)]; exact add_lt_add_of_le_of_lt hnear hlt
        _ = step := add_halves step
    rw [grid_eq_of_lt hstep (hprint.mem _) hp hsame]
  · -- reading is coarser than the step here, so what is near `read p` is read as `read p`
    have hone : (1 : ℤ) < (b : ℤ) ^ n := one_lt_pow₀ (by exact_mod_cast hb) hn.ne'
    have hc : (b : K) ^ (n + e - 1) ∈ significant K b n := ⟨1, n + e - 1, by rwa [abs_one], by simp⟩
    have hc' : -(b : K) ^ (n + e - 1) ∈ significant K b n :=
      ⟨-1, n + e - 1, by rwa [abs_neg, abs_one], by simp⟩
    have hmem' : -(b : K) ^ (n + e - 1) ∈ grid step := by
      obtain ⟨m, hm⟩ := hmem
      exact ⟨-m, by rw [hm]; push_cast; ring⟩
    have hp0 : p ≠ 0 := by
      rintro rfl
      have hzero : (0 : K) ∈ significant K b n := ⟨0, 0, by rw [abs_zero]; exact zero_lt_one.trans hone, by simp⟩
      rw [hread.fixed_iff.2 hzero, sub_self, abs_zero] at hge
      exact absurd hge (not_le.2 (half_pos hstep))
    have hlarge : (b : K) ^ (n + e - 1) ≤ |p| := by
      have hquantum : step ≤ quantum b n p := by
        have hle := hread.abs_sub_le_quantum hb hn p
        rw [abs_sub_comm] at hge
        linarith
      have hexp : e - 1 < Int.log b |p| + 1 - n :=
        (zpow_lt_zpow_iff_right₀ (by exact_mod_cast hb)).1 (hlow.trans_le hquantum)
      calc (b : K) ^ (n + e - 1) ≤ (b : K) ^ Int.log b |p| :=
            zpow_le_zpow_right₀ (by exact_mod_cast hb.le) (by omega)
        _ ≤ |p| := Int.zpow_log_le_self hb (abs_pos.2 hp0)
    have hx := hread.le_abs hc hc' hlarge
    have hz := hread.le_abs hc hc' (hprint.le_abs hmem hmem' hx)
    refine grid_eq_of_lt (zpow_pos (base_pos hb) e) (mem_grid_of_le_abs hb (hread.mem _) hz)
      (mem_grid_of_le_abs hb (hread.mem _) hx) (lt_of_le_of_lt ?_ hhigh)
    have hback := hread.le (print (read p)) _ (hread.mem p)
    rw [abs_sub_comm (print _) (read p)] at hback
    calc |read (print (read p)) - read p|
        ≤ |read (print (read p)) - print (read p)| + |print (read p) - read p| := abs_sub_le _ _ _
      _ ≤ step / 2 + step / 2 := by
          refine add_le_add ?_ ?_
          · rw [abs_sub_comm]
            exact hback.trans hnear
          · rw [abs_sub_comm]
            exact hnear
      _ = step := add_halves step

end Formats

end Rounding
