import Wall.Lib.Rounding
import Mathlib.Algebra.Order.BigOperators.Group.List

/-!
# Scales

How far sums can be off is known before they are computed, from the numbers that are added.  A scale (`Scale`) is a set
of numbers that rounded sums do not leave, with a bound for how far one sum is off; it bounds all the additions of
`sumFrom` together (`Scale.sumErrors_le`).  All numbers with at most `n` digits are a scale (`significantScale`), and
so are the multiples of a power of the base among them, where sums that are small enough are exact (`gridScale`).
-/

namespace Rounding

variable {K : Type*} [Field K] [LinearOrder K] [IsStrictOrderedRing K]

/-- Numbers that sums are computed with: the rounded sum of two is one again, and is off by at most `grain` where the
exact sum is not above `size`. -/
structure Scale (rnd : K → K) (size : K) where
  numbers : Set K
  grain : K
  fixed : ∀ x ∈ numbers, rnd x = x
  zero_mem : 0 ∈ numbers
  neg_mem : ∀ x ∈ numbers, -x ∈ numbers
  add_mem : ∀ x ∈ numbers, ∀ y ∈ numbers, rnd (x + y) ∈ numbers
  error_le : ∀ x ∈ numbers, ∀ y ∈ numbers, |x + y| ≤ size → error rnd (x + y) ≤ grain

namespace Scale

variable {rnd : K → K} {size : K} (scale : Scale rnd size)

omit [IsStrictOrderedRing K] in
theorem sub_mem {x y : K} (hx : x ∈ scale.numbers) (hy : y ∈ scale.numbers) : rnd (x - y) ∈ scale.numbers := by
  rw [sub_eq_add_neg]
  exact scale.add_mem x hx _ (scale.neg_mem y hy)

omit [IsStrictOrderedRing K] in
theorem error_sub_le {x y : K} (hx : x ∈ scale.numbers) (hy : y ∈ scale.numbers) (h : |x - y| ≤ size) :
    error rnd (x - y) ≤ scale.grain := by
  rw [sub_eq_add_neg] at h ⊢
  exact scale.error_le x hx _ (scale.neg_mem y hy) h

theorem grain_nonneg (hsize : 0 ≤ size) : 0 ≤ scale.grain := by
  have hle := scale.error_le 0 scale.zero_mem 0 scale.zero_mem (by rwa [add_zero, abs_zero])
  exact (error_nonneg rnd _).trans hle

omit [IsStrictOrderedRing K] in
theorem sumFrom_mem {xs : List K} (hxs : ∀ x ∈ xs, x ∈ scale.numbers) {a : K} (ha : a ∈ scale.numbers) :
    sumFrom rnd a xs ∈ scale.numbers := by
  induction xs generalizing a with
  | nil => exact ha
  | cons x xs ih =>
    exact ih (fun y hy => hxs y (List.mem_cons_of_mem x hy)) (scale.add_mem a ha x (hxs x (List.mem_cons_self ..)))

private theorem sum_max_nonneg (f : K → K) (xs : List K) : 0 ≤ (xs.map fun x => max (f x) 0).sum := by
  refine List.sum_nonneg fun y hy => ?_
  obtain ⟨x, -, rfl⟩ := List.mem_map.1 hy
  exact le_max_right _ _

/-- Every addition is off by at most the grain, if neither the positive nor the negative terms take the sum beyond
`size`, rounding included. -/
theorem sumErrors_le (hsize : 0 ≤ size) {xs : List K} (hxs : ∀ x ∈ xs, x ∈ scale.numbers) {a : K}
    (ha : a ∈ scale.numbers) (hup : a + (xs.map fun x => max x 0).sum + xs.length * scale.grain ≤ size)
    (hdown : -a + (xs.map fun x => max (-x) 0).sum + xs.length * scale.grain ≤ size) :
    sumErrors rnd a xs ≤ xs.length * scale.grain := by
  have hgrain := scale.grain_nonneg hsize
  induction xs generalizing a with
  | nil => simp [sumErrors]
  | cons x xs ih =>
    have hx := hxs x (List.mem_cons_self ..)
    have hpos := sum_max_nonneg (fun x => x) xs
    have hneg := sum_max_nonneg (fun x => -x) xs
    have hlength : 0 ≤ (xs.length : K) * scale.grain := mul_nonneg (Nat.cast_nonneg _) hgrain
    simp only [List.map_cons, List.sum_cons, List.length_cons, Nat.cast_add, Nat.cast_one, add_mul,
      one_mul] at hup hdown ⊢
    have hxup := le_max_left x 0
    have hxdown := le_max_left (-x) 0
    have hxup' := le_max_right x 0
    have hxdown' := le_max_right (-x) 0
    have herror : error rnd (a + x) ≤ scale.grain := by
      refine scale.error_le a ha x hx (abs_le.2 ⟨?_, ?_⟩) <;> linarith
    have hle := le_add_error rnd (a + x)
    have hge := sub_error_le rnd (a + x)
    have hrest := ih (fun y hy => hxs y (List.mem_cons_of_mem x hy)) (scale.add_mem a ha x hx)
      (by linarith) (by linarith)
    rw [sumErrors]
    linarith

end Scale

/-! ### The scales of a format -/

variable [FloorRing K] {b n : ℕ} {rnd : K → K} {size : K}

omit [LinearOrder K] [IsStrictOrderedRing K] [FloorRing K] in
theorem zero_mem_significant (hb : 1 < b) : (0 : K) ∈ significant K b n :=
  ⟨0, 0, by rw [abs_zero]; exact pow_pos (by exact_mod_cast Nat.zero_lt_of_lt hb) n, by simp⟩

omit [LinearOrder K] [IsStrictOrderedRing K] [FloorRing K] in
theorem neg_mem_significant {x : K} (hx : x ∈ significant K b n) : -x ∈ significant K b n := by
  obtain ⟨m, e, hm, rfl⟩ := hx
  exact ⟨-m, e, by rwa [abs_neg], by push_cast; ring⟩

/-- Rounding is off by at most half of the last digit that a number of that size can have. -/
theorem error_le_of_lt (hb : 1 < b) (hn : 0 < n) (h : IsNearest (significant K b n) rnd) {e : ℤ} {x : K}
    (hx : |x| < (b : K) ^ e) : error rnd x ≤ (b : K) ^ (e - n) / 2 := by
  have hpos : (0 : K) < b := Nat.cast_pos.2 (Nat.zero_lt_of_lt hb)
  rcases eq_or_ne x 0 with h0 | h0
  · rw [error, h0, h.fixed_iff.2 (zero_mem_significant hb), sub_self, abs_zero]
    exact div_nonneg (zpow_nonneg hpos.le _) zero_le_two
  · have hlog : Int.log b |x| < e := (Int.lt_zpow_iff_log_lt hb (abs_pos.2 h0)).1 hx
    calc error rnd x = |x - rnd x| := abs_sub_comm _ _
      _ ≤ quantum b n x / 2 := h.abs_sub_le_quantum hb hn _
      _ ≤ (b : K) ^ (e - n) / 2 := by
        refine div_le_div_of_nonneg_right ?_ zero_le_two
        exact zpow_le_zpow_right₀ (by exact_mod_cast hb.le) (by omega)

/-- All numbers with at most `n` digits. -/
def significantScale (hb : 1 < b) (hn : 0 < n) (h : IsNearest (significant K b n) rnd) {e : ℤ}
    (hsize : size < (b : K) ^ e) : Scale rnd size where
  numbers := significant K b n
  grain := (b : K) ^ (e - n) / 2
  fixed _ hx := h.fixed_iff.2 hx
  zero_mem := zero_mem_significant hb
  neg_mem _ := neg_mem_significant
  add_mem _ _ _ _ := h.mem _
  error_le _ _ _ _ hxy := error_le_of_lt hb hn h (hxy.trans_lt hsize)

omit [LinearOrder K] [IsStrictOrderedRing K] [FloorRing K] in
private theorem add_mem_grid {step x y : K} (hx : x ∈ grid step) (hy : y ∈ grid step) : x + y ∈ grid step := by
  obtain ⟨k, rfl⟩ := hx
  obtain ⟨m, rfl⟩ := hy
  exact ⟨k + m, by push_cast; ring⟩

omit [FloorRing K] in
/-- A multiple of a power of the base needs few digits if it is small. -/
private theorem mem_significant_of_lt (hb : 1 < b) {e : ℤ} {x : K} (hx : x ∈ grid ((b : K) ^ e))
    (hlt : |x| < (b : K) ^ (n + e)) : x ∈ significant K b n := by
  have hpos : (0 : K) < b := Nat.cast_pos.2 (Nat.zero_lt_of_lt hb)
  obtain ⟨m, rfl⟩ := hx
  rw [abs_mul, abs_of_pos (zpow_pos hpos e), zpow_add₀ hpos.ne', zpow_natCast,
    mul_lt_mul_iff_left₀ (zpow_pos hpos e)] at hlt
  exact ⟨m, e, by exact_mod_cast hlt, rfl⟩

/-- Rounding leads from one multiple of a power of the base to another: where digits are missing, the numbers of the
format are multiples of a larger power. -/
private theorem rnd_mem_grid (hb : 1 < b) (hn : 0 < n) (h : IsNearest (significant K b n) rnd) {e : ℤ} {x : K}
    (hx : x ∈ grid ((b : K) ^ e)) : rnd x ∈ grid ((b : K) ^ e) := by
  rcases lt_or_ge |x| ((b : K) ^ (n + e)) with hlt | hle
  · rwa [h.fixed_iff.2 (mem_significant_of_lt hb hx hlt)]
  · have hone : (1 : ℤ) < (b : ℤ) ^ n := one_lt_pow₀ (by exact_mod_cast hb) hn.ne'
    have hpower : (b : K) ^ ((n : ℤ) + e) ∈ significant K b n := ⟨1, n + e, by rwa [abs_one], by simp⟩
    have hlarge : (b : K) ^ ((n : ℤ) + e) ≤ |rnd x| := h.le_abs hpower (neg_mem_significant hpower) hle
    refine mem_grid_of_le_abs hb (h.mem x) (le_trans ?_ hlarge)
    exact zpow_le_zpow_right₀ (by exact_mod_cast hb.le) (by omega)

/-- The multiples of a power of the base: sums are exact as long as they need no more than `n` digits. -/
def gridScale (hb : 1 < b) (hn : 0 < n) (h : IsNearest (significant K b n) rnd) (e : ℤ)
    (hsize : size < (b : K) ^ (n + e)) : Scale rnd size where
  numbers := significant K b n ∩ grid ((b : K) ^ e)
  grain := 0
  fixed _ hx := h.fixed_iff.2 hx.1
  zero_mem := ⟨zero_mem_significant hb, 0, by simp⟩
  neg_mem := by
    rintro x ⟨hx, m, rfl⟩
    exact ⟨neg_mem_significant hx, -m, by push_cast; ring⟩
  add_mem _ hx _ hy := ⟨h.mem _, rnd_mem_grid hb hn h (add_mem_grid hx.2 hy.2)⟩
  error_le x hx y hy hxy := by
    have hmem : x + y ∈ significant K b n :=
      mem_significant_of_lt hb (add_mem_grid hx.2 hy.2) (hxy.trans_lt hsize)
    rw [error, h.fixed_iff.2 hmem, sub_self, abs_zero]

end Rounding
