import Mathlib.Data.List.Perm.Basic
import Mathlib.Data.List.Count

/-!
# Interleavings of keyed actions

Every action has a key, and `ofKey key k l` are the actions of the key `k` in their order.  What an action changes at
its own key only, a fold changes as the actions of each key would alone (`view_foldl`).  Lists with the same actions
of each key in the same order are permutations of each other (`perm_of_ofKey`), so a fold whose actions commute cannot
tell them apart.
-/

namespace Interleaving

variable {α κ σ ν : Type*} [DecidableEq κ] {key : α → κ}

def ofKey (key : α → κ) (k : κ) (l : List α) : List α := l.filter fun a => decide (key a = k)

@[simp] theorem ofKey_nil (k : κ) : ofKey key k [] = [] := rfl

theorem ofKey_cons (k : κ) (a : α) (l : List α) :
    ofKey key k (a :: l) = if key a = k then a :: ofKey key k l else ofKey key k l := by
  rw [ofKey, List.filter_cons, ← ofKey]
  exact if_congr decide_eq_true_iff rfl rfl

theorem mem_ofKey {k : κ} {a : α} {l : List α} : a ∈ ofKey key k l ↔ a ∈ l ∧ key a = k := by
  rw [ofKey, List.mem_filter, decide_eq_true_iff]

/-- Two actions of different keys may be swapped. -/
theorem ofKey_swap {a b : α} (h : key a ≠ key b) (k : κ) (l : List α) :
    ofKey key k (a :: b :: l) = ofKey key k (b :: a :: l) := by
  simp only [ofKey_cons]
  by_cases ha : key a = k
  · have hb : key b ≠ k := fun hb => h (ha.trans hb.symm)
    simp only [if_pos ha, if_neg hb]
  · simp only [if_neg ha]

/-- What is seen at one key after a fold of actions that each change it at their own key. -/
theorem view_foldl {act : σ → α → σ} {view : κ → σ → ν} {step : ν → α → ν}
    (h : ∀ s a k, view k (act s a) = if key a = k then step (view k s) a else view k s) (l : List α) (s : σ) (k : κ) :
    view k (l.foldl act s) = (ofKey key k l).foldl step (view k s) := by
  induction l generalizing s with
  | nil => rfl
  | cons a l ih =>
    rw [List.foldl_cons, ih, h, ofKey_cons]
    split <;> rfl

/-- Two interleavings of the same actions of each key. -/
theorem perm_of_ofKey {l l' : List α} (h : ∀ k, ofKey key k l = ofKey key k l') : l.Perm l' := by
  classical
  refine List.perm_iff_count.2 fun a => ?_
  have hcount : ∀ l : List α, (ofKey key (key a) l).count a = l.count a :=
    fun l => List.count_filter (decide_eq_true rfl)
  rw [← hcount l, h, hcount]

/-- A fold of commuting actions gives one result for all interleavings. -/
theorem foldl_eq_of_ofKey {act : σ → α → σ} (hcomm : ∀ s a b, act (act s a) b = act (act s b) a) {l l' : List α}
    (h : ∀ k, ofKey key k l = ofKey key k l') (s : σ) : l.foldl act s = l'.foldl act s :=
  (perm_of_ofKey h).foldl_eq' (fun a _ b _ s => hcomm s a b) s

end Interleaving
