import Mathlib.Data.List.Sort
import Mathlib.Data.Multiset.AddSub
import Mathlib.Data.Multiset.ZeroCons

/-!
# Strictly sorted lists

A list that is strictly sorted is determined by its elements: two arrangements of one multiset that are both sorted
by an asymmetric relation are equal (`eq_of_coe_eq`), and so are two that have the same members
(`eq_of_mem_iff`).  What is left after deleting or replacing an element, and a list
with a last element added, are therefore known as lists as soon as they are known as multisets.
-/

namespace StrictlySorted

variable {α : Type*} {r : α → α → Prop}

/-- Two sorted arrangements of the same elements are equal. -/
theorem eq_of_coe_eq (hasymm : ∀ a b, r a b → ¬ r b a) {l l' : List α} (h : (l : Multiset α) = l')
    (hl : l.Pairwise r) (hl' : l'.Pairwise r) : l = l' :=
  List.Perm.eq_of_pairwise (fun a b _ _ hab hba => absurd hba (hasymm a b hab)) hl hl' (Multiset.coe_eq_coe.1 h)

theorem nodup (hasymm : ∀ a b, r a b → ¬ r b a) {l : List α} (hl : l.Pairwise r) : l.Nodup := by
  refine hl.imp ?_
  rintro a b hab rfl
  exact hasymm a a hab hab

/-- A sorted list is known by its members. -/
theorem eq_of_mem_iff (hasymm : ∀ a b, r a b → ¬ r b a) {l l' : List α} (h : ∀ a, a ∈ l ↔ a ∈ l')
    (hl : l.Pairwise r) (hl' : l'.Pairwise r) : l = l' := by
  have hnodup : (l : Multiset α).Nodup := Multiset.coe_nodup.2 (nodup hasymm hl)
  have hnodup' : (l' : Multiset α).Nodup := Multiset.coe_nodup.2 (nodup hasymm hl')
  exact eq_of_coe_eq hasymm ((hnodup.ext hnodup').2 h) hl hl'

/-- Deleting an element of an arrangement leaves the elements before it and after it. -/
theorem exists_split {l : List α} {a : α} {s : Multiset α} (h : (l : Multiset α) = a ::ₘ s) :
    ∃ l₁ l₂, l = l₁ ++ a :: l₂ ∧ ((l₁ ++ l₂ : List α) : Multiset α) = s := by
  have ha : a ∈ l := Multiset.mem_coe.1 (h ▸ Multiset.mem_cons_self a s)
  obtain ⟨l₁, l₂, rfl⟩ := List.append_of_mem ha
  refine ⟨l₁, l₂, rfl, ?_⟩
  have hp : ((l₁ ++ a :: l₂ : List α) : Multiset α) = a ::ₘ ((l₁ ++ l₂ : List α) : Multiset α) :=
    Multiset.coe_eq_coe.2 List.perm_middle
  exact (Multiset.cons_inj_right a).1 (hp.symm.trans h)

/-- Replacing an element by one that stands in the same place keeps an arrangement sorted. -/
theorem pairwise_replace {l₁ l₂ : List α} {a b : α} (h : (l₁ ++ a :: l₂).Pairwise r)
    (hbefore : ∀ x, r x a → r x b) (hafter : ∀ x, r a x → r b x) : (l₁ ++ b :: l₂).Pairwise r := by
  rw [List.pairwise_append, List.pairwise_cons] at h ⊢
  obtain ⟨hl₁, ⟨ha, hl₂⟩, hbetween⟩ := h
  refine ⟨hl₁, ⟨fun x hx => hafter x (ha x hx), hl₂⟩, fun x hx y hy => ?_⟩
  rcases List.mem_cons.1 hy with rfl | hy
  · exact hbefore x (hbetween x hx a (List.mem_cons_self ..))
  · exact hbetween x hx y (List.mem_cons_of_mem _ hy)

end StrictlySorted
