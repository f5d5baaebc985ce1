import Mathlib.Algebra.Order.Group.Defs
import Mathlib.Data.List.Basic

/-!
# Sums over the records of a list

An element of a list is a record if its level is above those of all elements before it and above the floor.
`recordSum level weight floor l` adds up the weights of the records, each depending on the level that the record
rises from.  If a record may be passed over without a change in the sum, the sum is the weight of the highest
element alone (`recordSum_eq_weight`), so it does not depend on the order of the list.
-/

namespace RunningMaximum

variable {α K : Type*} [AddCommGroup K] [LinearOrder K]

def recordSum (level : α → K) (weight : K → α → K) : K → List α → K
  | _, [] => 0
  | floor, a :: l =>
    if floor < level a then weight floor a + recordSum level weight (level a) l
    else recordSum level weight floor l

variable {level : α → K} {weight : K → α → K} {floor : K} {a b : α} {l : List α}

theorem recordSum_cons_of_lt (h : floor < level a) :
    recordSum level weight floor (a :: l) = weight floor a + recordSum level weight (level a) l := if_pos h

theorem recordSum_cons_of_le (h : level a ≤ floor) :
    recordSum level weight floor (a :: l) = recordSum level weight floor l := if_neg (not_lt.2 h)

/-- Below the floor there is no record. -/
theorem recordSum_of_le (h : ∀ a ∈ l, level a ≤ floor) : recordSum level weight floor l = 0 := by
  induction l with
  | nil => rfl
  | cons a l ih =>
    rw [recordSum_cons_of_le (h a (List.mem_cons_self ..))]
    exact ih fun b hb => h b (List.mem_cons_of_mem _ hb)

/-- Two elements in rising order are both records, and in falling order only the first is: what the sum gains. -/
theorem recordSum_swap (ha : floor < level a) (hab : level a < level b) :
    recordSum level weight floor (a :: b :: l) = recordSum level weight floor (b :: a :: l) ↔
      weight floor a + weight (level a) b = weight floor b := by
  rw [recordSum_cons_of_lt ha, recordSum_cons_of_lt hab, recordSum_cons_of_lt (ha.trans hab),
    recordSum_cons_of_le hab.le, ← add_assoc]
  exact add_left_inj _

/-- If every lower record may be passed over, the sum is the weight of the highest element. -/
theorem recordSum_eq_weight {m : α} (hm : m ∈ l) (hfloor : floor < level m)
    (hmax : ∀ a ∈ l, a = m ∨ level a < level m)
    (hskip : ∀ a ∈ l, ∀ t, floor ≤ t → t < level a → level a < level m →
      weight t a + weight (level a) m = weight t m) :
    recordSum level weight floor l = weight floor m := by
  induction l generalizing floor with
  | nil => cases hm
  | cons a l ih =>
    have htail := fun b hb => hmax b (List.mem_cons_of_mem a hb)
    rcases hmax a (List.mem_cons_self ..) with rfl | hlt
    · -- after the highest element there is no record
      have hrest : ∀ b ∈ l, level b ≤ level a := fun b hb => (htail b hb).elim (fun h => h ▸ le_rfl) le_of_lt
      rw [recordSum_cons_of_lt hfloor, recordSum_of_le hrest, add_zero]
    · have hml : m ∈ l := (List.mem_cons.1 hm).resolve_left fun h => (h ▸ hlt).false
      by_cases ha : floor < level a
      · have hrest := ih hml hlt htail fun b hb t ht => hskip b (List.mem_cons_of_mem _ hb) t (ha.le.trans ht)
        rw [recordSum_cons_of_lt ha, hrest]
        exact hskip a (List.mem_cons_self ..) floor le_rfl ha hlt
      · rw [recordSum_cons_of_le (not_lt.1 ha)]
        exact ih hml hfloor htail fun b hb => hskip b (List.mem_cons_of_mem _ hb)

end RunningMaximum
