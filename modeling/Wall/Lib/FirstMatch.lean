import Mathlib.Data.List.Basic

/-!
# Editing the first match of a list

A scan of a queue for the first element that passes a test, which then deletes or overwrites that element:
`find?` finds it, `eraseP` deletes it, `replaceFirst` overwrites it.  All three split the list at the same place
(`find?_split`).
-/

namespace FirstMatch

variable {α : Type*}

/-- Overwrite the first element passing `p` by `b`. -/
def replaceFirst (p : α → Bool) (b : α) : List α → List α
  | [] => []
  | a :: l => if p a then b :: l else a :: replaceFirst p b l

/-- The first match splits the list; deleting and overwriting it act at the split. -/
theorem find?_split {p : α → Bool} {l : List α} {a : α} (h : l.find? p = some a) :
    ∃ l₁ l₂, l = l₁ ++ a :: l₂ ∧ l.eraseP p = l₁ ++ l₂ ∧ ∀ b, replaceFirst p b l = l₁ ++ b :: l₂ := by
  induction l with
  | nil => simp at h
  | cons c l ih =>
    rw [List.find?_cons] at h
    cases hc : p c with
    | true =>
      rw [hc] at h
      cases h
      exact ⟨[], l, rfl, by simp [hc], fun b => by simp [replaceFirst, hc]⟩
    | false =>
      rw [hc] at h
      obtain ⟨l₁, l₂, rfl, he, hr⟩ := ih h
      exact ⟨c :: l₁, l₂, rfl, by simp [hc, he], fun b => by simp [replaceFirst, hc, hr]⟩

end FirstMatch
