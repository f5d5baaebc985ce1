import Mathlib.Order.Lattice
import Mathlib.Order.MinMax
import Mathlib.Data.List.Basic

/-!
# The largest element over a floor

`largest b xs` is the largest of the elements of `xs` and `b`.  It depends on the members of `xs` alone, so neither
their order nor their repetitions matter: `largest_congr`.
-/

namespace Largest

variable {α : Type*} [LinearOrder α]

def largest (b : α) (xs : List α) : α := xs.foldr max b

@[simp] theorem largest_nil (b : α) : largest b [] = b := rfl

@[simp] theorem largest_cons (b x : α) (xs : List α) : largest b (x :: xs) = max x (largest b xs) := rfl

theorem largest_le_iff {b m : α} {xs : List α} : largest b xs ≤ m ↔ b ≤ m ∧ ∀ x ∈ xs, x ≤ m := by
  induction xs with
  | nil => simp
  | cons x xs ih =>
    rw [largest_cons, max_le_iff, ih, List.forall_mem_cons]
    exact and_left_comm

private theorem floor_le_largest (b : α) (xs : List α) : b ≤ largest b xs := (largest_le_iff.1 le_rfl).1

theorem le_largest {b x : α} {xs : List α} (h : x ∈ xs) : x ≤ largest b xs := (largest_le_iff.1 le_rfl).2 x h

theorem largest_congr {b : α} {xs ys : List α} (h : ∀ x, x ∈ xs ↔ x ∈ ys) : largest b xs = largest b ys := by
  refine le_antisymm (largest_le_iff.2 ⟨floor_le_largest b ys, fun x hx => le_largest ((h x).1 hx)⟩) ?_
  exact largest_le_iff.2 ⟨floor_le_largest b xs, fun x hx => le_largest ((h x).2 hx)⟩

/-- The largest element is the floor or one of the list. -/
theorem largest_mem (b : α) (xs : List α) : largest b xs = b ∨ largest b xs ∈ xs := by
  induction xs with
  | nil => exact .inl rfl
  | cons x xs ih =>
    rw [largest_cons]
    rcases max_choice x (largest b xs) with h | h
    · rw [h]
      exact .inr (List.mem_cons_self ..)
    · rw [h]
      exact ih.imp_right (List.mem_cons_of_mem x)

/-- A higher floor. -/
theorem largest_max (b b' : α) (xs : List α) : largest (max b b') xs = max b (largest b' xs) := by
  induction xs with
  | nil => rfl
  | cons x xs ih => rw [largest_cons, ih, largest_cons, max_left_comm]

/-- A further element counts at the end as at the front. -/
theorem largest_concat (b : α) (xs : List α) (x : α) : largest b (xs ++ [x]) = max x (largest b xs) := by
  rw [← largest_cons]
  exact largest_congr fun y => by simp [or_comm]

end Largest
