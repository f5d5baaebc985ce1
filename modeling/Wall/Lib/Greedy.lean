import Mathlib.Algebra.BigOperators.Group.List.Basic
import Mathlib.Algebra.Order.BigOperators.Group.List
import Mathlib.Algebra.Order.Field.Basic
import Mathlib.Data.List.Infix
import Mathlib.Tactic.Linarith

/-!
# Greedy walks along a list of lots

A walk takes from a list of lots, head first: while more than a tolerance is wanted and the next lot is accepted, it
takes what is wanted of that lot, or all of it.  A lot of which more than the tolerance is left stays, reduced, and
the others go.  The walk takes one lot at a time and may be stopped and taken up again after each of them
(`walk_cons`); it serves the lots in turn (`walk_inTurn`) and leaves no lot that could have been taken
(`walk_complete`).
-/

namespace Greedy

/-! ### Serving in turn -/

/-- `served` lists names that were each at the head of the queue when they were served; the head then stayed or left.
The queue was `queue` at first and is `left` in the end. -/
inductive InTurn {ι : Type*} : List ι → List ι → List ι → Prop
  | nil (queue : List ι) : InTurn queue [] queue
  | stays {i : ι} {queue served left : List ι} (h : InTurn (i :: queue) served left) :
      InTurn (i :: queue) (i :: served) left
  | leaves {i : ι} {queue served left : List ι} (h : InTurn queue served left) :
      InTurn (i :: queue) (i :: served) left

namespace InTurn

variable {ι : Type*} {queue served left served' left' : List ι}

theorem append (h : InTurn queue served left) (h' : InTurn left served' left') :
    InTurn queue (served ++ served') left' := by
  induction h with
  | nil => exact h'
  | stays _ ih => exact .stays (ih h')
  | leaves _ ih => exact .leaves (ih h')

end InTurn

/-! ### The walk -/

/-- Lots of type `α`: the amount of a lot, and a lot after an amount has been taken from it. -/
structure Lots (α K : Type*) where
  amount : α → K
  reduce : α → K → α

/-- What a walk took from which lots, the lots that it leaves and what it still wants. -/
structure Outcome (α K : Type*) where
  taken : List (α × K)
  left : List α
  wanted : K

variable {α ι K : Type*} [Field K] [LinearOrder K]

/-- What stays in the list of a lot that `quantity` is taken from. -/
def Lots.remainder (lots : Lots α K) (tol : K) (a : α) (quantity : K) : List α :=
  if lots.amount a - quantity ≤ tol then [] else [lots.reduce a quantity]

def walk (lots : Lots α K) (tol : K) (accepts : α → Bool) : List α → K → Outcome α K
  | [], wanted => ⟨[], [], wanted⟩
  | a :: l, wanted =>
    if tol < wanted ∧ accepts a = true then
      let quantity := min wanted (lots.amount a)
      let rest := walk lots tol accepts l (wanted - quantity)
      ⟨(a, quantity) :: rest.taken, lots.remainder tol a quantity ++ rest.left, rest.wanted⟩
    else ⟨[], a :: l, wanted⟩

variable {lots : Lots α K} {tol : K} {accepts : α → Bool}

theorem walk_of_le {wanted : K} (h : wanted ≤ tol) (l : List α) :
    walk lots tol accepts l wanted = ⟨[], l, wanted⟩ := by
  cases l with
  | nil => rfl
  | cons a l => exact if_neg fun hw => absurd h (not_le.2 hw.1)

theorem walk_of_not_accepts {a : α} (h : accepts a = false) (l : List α) (wanted : K) :
    walk lots tol accepts (a :: l) wanted = ⟨[], a :: l, wanted⟩ :=
  if_neg fun hw => Bool.false_ne_true (h.symm.trans hw.2)

/-- A lot that stays has given all that was wanted. -/
theorem Lots.remainder_cases [IsStrictOrderedRing K] (lots : Lots α K) (htol : 0 ≤ tol) (a : α) (wanted : K) :
    lots.remainder tol a (min wanted (lots.amount a)) = [] ∨
    lots.remainder tol a (min wanted (lots.amount a)) = [lots.reduce a wanted] ∧
      min wanted (lots.amount a) = wanted := by
  rcases le_total wanted (lots.amount a) with hle | hle
  · rw [min_eq_left hle]
    by_cases hrem : lots.amount a - wanted ≤ tol
    · exact .inl (if_pos hrem)
    · exact .inr ⟨if_neg hrem, rfl⟩
  · rw [min_eq_right hle]
    exact .inl (if_pos (by rwa [sub_self]))

/-- The walk takes from the first lot and goes on with the list that this leaves. -/
theorem walk_cons [IsStrictOrderedRing K] (htol : 0 ≤ tol) {a : α} {wanted : K} (hwanted : tol < wanted)
    (haccepts : accepts a = true) (l : List α) :
    walk lots tol accepts (a :: l) wanted =
      let quantity := min wanted (lots.amount a)
      let rest := walk lots tol accepts (lots.remainder tol a quantity ++ l) (wanted - quantity)
      ⟨(a, quantity) :: rest.taken, rest.left, rest.wanted⟩ := by
  rw [walk, if_pos ⟨hwanted, haccepts⟩]
  dsimp only
  rcases lots.remainder_cases htol a wanted with hrem | ⟨-, hmin⟩
  · rw [hrem, List.nil_append, List.nil_append]
  · -- nothing is wanted any more, so the walk ends at the lot that stays
    have hzero : wanted - min wanted (lots.amount a) ≤ tol := by rwa [hmin, sub_self]
    rw [walk_of_le hzero, walk_of_le hzero]

theorem walk_wanted (l : List α) (wanted : K) : (walk lots tol accepts l wanted).wanted =
    wanted - ((walk lots tol accepts l wanted).taken.map Prod.snd).sum := by
  induction l generalizing wanted with
  | nil => exact (sub_zero wanted).symm
  | cons a l ih =>
    by_cases h : tol < wanted ∧ accepts a = true
    · rw [walk, if_pos h]
      dsimp only
      rw [ih, List.map_cons, List.sum_cons, sub_sub]
    · rw [walk, if_neg h]
      exact (sub_zero wanted).symm

theorem walk_wanted_nonneg [IsStrictOrderedRing K] (l : List α) {wanted : K} (h : 0 ≤ wanted) :
    0 ≤ (walk lots tol accepts l wanted).wanted := by
  induction l generalizing wanted with
  | nil => exact h
  | cons a l ih =>
    by_cases hw : tol < wanted ∧ accepts a = true
    · rw [walk, if_pos hw]
      exact ih (sub_nonneg.2 (min_le_left _ _))
    · rw [walk, if_neg hw]
      exact h

/-- The first lots that are accepted, all together. -/
theorem amounts_nonneg [IsStrictOrderedRing K] {l first : List α} (hl : ∀ a ∈ l, 0 ≤ lots.amount a)
    (hfirst : first <+: l.takeWhile accepts) : 0 ≤ (first.map lots.amount).sum := by
  refine List.sum_nonneg fun x hx => ?_
  obtain ⟨a, ha, rfl⟩ := List.mem_map.1 hx
  exact hl a ((hfirst.trans (List.takeWhile_prefix _)).subset ha)

/-- What a walk wants in the end is more than nothing and within the tolerance exactly if some of the first lots, all
accepted, together leave as much of what it wanted at first. -/
theorem walk_wanted_dust_iff [IsStrictOrderedRing K] {l : List α} (hl : ∀ a ∈ l, 0 ≤ lots.amount a) (wanted : K) :
    (0 < (walk lots tol accepts l wanted).wanted ∧ (walk lots tol accepts l wanted).wanted ≤ tol) ↔
      ∃ first, first <+: l.takeWhile accepts ∧ 0 < wanted - (first.map lots.amount).sum ∧
        wanted - (first.map lots.amount).sum ≤ tol := by
  have hnil : ∀ wanted, wanted - (([] : List α).map lots.amount).sum = wanted := sub_zero
  induction l generalizing wanted with
  | nil =>
    refine ⟨fun h => ⟨[], List.nil_prefix, h.1.trans_eq (hnil wanted).symm, (hnil wanted).trans_le h.2⟩, ?_⟩
    rintro ⟨first, hfirst, h⟩
    rw [List.prefix_nil.1 hfirst, hnil] at h
    exact h
  | cons a l ih =>
    have hl' : ∀ b ∈ l, 0 ≤ lots.amount b := fun b hb => hl b (List.mem_cons_of_mem _ hb)
    by_cases hwanted : wanted ≤ tol
    · -- the walk takes nothing
      rw [walk_of_le hwanted]
      refine ⟨fun h => ⟨[], List.nil_prefix, h.1.trans_eq (hnil wanted).symm, (hnil wanted).trans_le h.2⟩, ?_⟩
      rintro ⟨first, hfirst, hpos, -⟩
      exact ⟨hpos.trans_le (sub_le_self _ (amounts_nonneg hl hfirst)), hwanted⟩
    · by_cases haccepts : accepts a = true
      · rw [walk, if_pos ⟨not_le.1 hwanted, haccepts⟩, List.takeWhile_cons_of_pos haccepts]
        dsimp only
        refine (ih hl' _).trans ?_
        constructor
        · rintro ⟨first, hfirst, hpos, hle⟩
          have hrest := amounts_nonneg hl' hfirst
          -- nothing would be left if the lot had all that is wanted
          have hmin : min wanted (lots.amount a) = lots.amount a := by
            refine (min_choice ..).resolve_left fun hall => ?_
            rw [hall, sub_self, zero_sub] at hpos
            exact absurd hrest (not_le.2 (neg_pos.1 hpos))
          rw [hmin, sub_sub] at hpos hle
          exact ⟨a :: first, List.cons_prefix_cons.2 ⟨rfl, hfirst⟩, by rwa [List.map_cons, List.sum_cons],
            by rwa [List.map_cons, List.sum_cons]⟩
        · rintro ⟨first, hfirst, hpos, hle⟩
          cases first with
          | nil =>
            rw [hnil] at hle
            exact absurd hle hwanted
          | cons b first =>
            obtain ⟨rfl, htail⟩ := List.cons_prefix_cons.1 hfirst
            have hrest := amounts_nonneg hl' htail
            rw [List.map_cons, List.sum_cons, ← sub_sub] at hpos hle
            have hmin : min wanted (lots.amount b) = lots.amount b := min_eq_right (by linarith)
            refine ⟨first, htail, ?_⟩
            rw [hmin]
            exact ⟨hpos, hle⟩
      · rw [walk_of_not_accepts (Bool.eq_false_iff.2 haccepts), List.takeWhile_cons_of_neg haccepts]
        refine iff_of_false (fun h => hwanted h.2) ?_
        rintro ⟨first, hfirst, -, hle⟩
        rw [List.prefix_nil.1 hfirst, hnil] at hle
        exact hwanted hle

/-- The lots that were taken from are the first ones of the list, each once. -/
theorem walk_taken_prefix (l : List α) (wanted : K) :
    (walk lots tol accepts l wanted).taken.map Prod.fst <+: l := by
  induction l generalizing wanted with
  | nil => exact List.nil_prefix
  | cons a l ih =>
    by_cases h : tol < wanted ∧ accepts a = true
    · rw [walk, if_pos h]
      exact List.cons_prefix_cons.2 ⟨rfl, ih _⟩
    · rw [walk, if_neg h]
      exact List.nil_prefix

/-- What is taken is taken from an accepted lot, and is all of it or all that is wanted. -/
theorem forall_walk_taken {P : α × K → Prop}
    (hP : ∀ a wanted, tol < wanted → accepts a = true → P (a, min wanted (lots.amount a))) (l : List α) (wanted : K) :
    ∀ t ∈ (walk lots tol accepts l wanted).taken, P t := by
  induction l generalizing wanted with
  | nil => exact fun t ht => absurd ht List.not_mem_nil
  | cons a l ih =>
    by_cases h : tol < wanted ∧ accepts a = true
    · rw [walk, if_pos h]
      intro t ht
      rcases List.mem_cons.1 ht with rfl | ht
      · exact hP a wanted h.1 h.2
      · exact ih _ t ht
    · rw [walk, if_neg h]
      exact fun t ht => absurd ht List.not_mem_nil

theorem walk_taken_accepted (l : List α) (wanted : K) :
    ∀ t ∈ (walk lots tol accepts l wanted).taken, accepts t.1 = true :=
  forall_walk_taken (fun _ _ _ haccepts => haccepts) l wanted

theorem walk_taken_le (l : List α) (wanted : K) :
    ∀ t ∈ (walk lots tol accepts l wanted).taken, t.2 ≤ lots.amount t.1 :=
  forall_walk_taken (fun _ _ _ _ => min_le_right _ _) l wanted

/-- The lots are served in turn, whatever names them and does not change when they are reduced. -/
theorem walk_inTurn [IsStrictOrderedRing K] (htol : 0 ≤ tol) {name : α → ι}
    (hname : ∀ a quantity, name (lots.reduce a quantity) = name a) (l : List α) (wanted : K) :
    InTurn (l.map name) ((walk lots tol accepts l wanted).taken.map fun t => name t.1)
      ((walk lots tol accepts l wanted).left.map name) := by
  induction l generalizing wanted with
  | nil => exact .nil _
  | cons a l ih =>
    by_cases h : tol < wanted ∧ accepts a = true
    · rw [walk, if_pos h]
      dsimp only
      rcases lots.remainder_cases htol a wanted with hrem | ⟨hrem, hmin⟩
      · rw [hrem]
        exact .leaves (ih _)
      · have hzero : wanted - min wanted (lots.amount a) ≤ tol := by rwa [hmin, sub_self]
        rw [hrem, walk_of_le hzero]
        show InTurn (name a :: l.map name) [name a] (name (lots.reduce a wanted) :: l.map name)
        rw [hname]
        exact .stays (.nil _)
    · rw [walk, if_neg h]
      exact .nil _

/-- A walk that still wants more than the tolerance has left no lot that it accepts, if it accepts every lot before
one that it accepts. -/
theorem walk_complete [IsStrictOrderedRing K] (htol : 0 ≤ tol) {l : List α}
    (hl : l.Pairwise fun a b => accepts b = true → accepts a = true) (wanted : K) :
    (walk lots tol accepts l wanted).wanted ≤ tol ∨
      ∀ a ∈ (walk lots tol accepts l wanted).left, accepts a = false := by
  induction l generalizing wanted with
  | nil => exact .inr fun a ha => absurd ha List.not_mem_nil
  | cons a l ih =>
    obtain ⟨ha, hl⟩ := List.pairwise_cons.1 hl
    by_cases h : tol < wanted ∧ accepts a = true
    · rw [walk, if_pos h]
      dsimp only
      rcases lots.remainder_cases htol a wanted with hrem | ⟨-, hmin⟩
      · rw [hrem]
        exact ih hl _
      · have hzero : wanted - min wanted (lots.amount a) ≤ tol := by rwa [hmin, sub_self]
        rw [walk_of_le hzero]
        exact .inl hzero
    · rw [walk, if_neg h]
      by_cases hw : tol < wanted
      · have hno : accepts a = false := Bool.eq_false_iff.2 fun hyes => h ⟨hw, hyes⟩
        refine .inr fun b hb => ?_
        rcases List.mem_cons.1 hb with rfl | hb
        · exact hno
        · exact Bool.eq_false_iff.2 fun hyes => Bool.false_ne_true (hno.symm.trans (ha b hb hyes))
      · exact .inl (not_lt.1 hw)

end Greedy
