import Wall.Lib.Interleaving
import Wall.Lib.Machine

/-!
# A machine seen at one key

Every input of a machine has a key, and what is seen of a state at a key changes with the inputs of this key alone, as
the state of a machine of its own (`ActsAt`).  Then a run seen at a key is the run of that machine on the inputs of the
key, and the answers to these inputs are its outputs: they do not depend on what is read between them.
-/

namespace Machine

open Interleaving

variable {σ ν ι ο κ : Type*} [DecidableEq κ]

/-- The answers to the inputs of a key. -/
def outputsAt (M : Machine σ ι ο) (key : ι → κ) (k : κ) (s : σ) (is : List ι) : List ο :=
  ((is.zip (M.outputs s is)).filter fun answered => decide (key answered.1 = k)).map Prod.snd

structure ActsAt (M : Machine σ ι ο) (N : Machine ν ι ο) (key : ι → κ) (k : κ) (view : σ → ν) : Prop where
  own : ∀ s i, key i = k → view (M.step s i).1 = (N.step (view s) i).1 ∧ (M.step s i).2 = (N.step (view s) i).2
  other : ∀ s i, key i ≠ k → view (M.step s i).1 = view s

variable {M : Machine σ ι ο} {N : Machine ν ι ο} {key : ι → κ} {k : κ} {view : σ → ν}

theorem ActsAt.run (h : ActsAt M N key k view) (s : σ) (is : List ι) :
    view (M.run s is) = N.run (view s) (ofKey key k is) := by
  induction is generalizing s with
  | nil => rfl
  | cons i is ih =>
    rw [run_cons, ih, ofKey_cons]
    by_cases hk : key i = k
    · rw [if_pos hk, run_cons, (h.own s i hk).1]
    · rw [if_neg hk, h.other s i hk]

theorem ActsAt.outputs (h : ActsAt M N key k view) (s : σ) (is : List ι) :
    M.outputsAt key k s is = N.outputs (view s) (ofKey key k is) := by
  induction is generalizing s with
  | nil => rfl
  | cons i is ih =>
    have hrest := ih (M.step s i).1
    unfold outputsAt at hrest ⊢
    rw [outputs_cons, List.zip_cons_cons, ofKey_cons]
    by_cases hk : key i = k
    · rw [List.filter_cons_of_pos (by simpa using hk), List.map_cons, hrest, if_pos hk, outputs_cons,
        (h.own s i hk).1, (h.own s i hk).2]
    · rw [List.filter_cons_of_neg (by simpa using hk), hrest, if_neg hk, h.other s i hk]

end Machine
