import Wall.Lib.Largest
import Mathlib.Data.List.Induction

/-!
# Logs of timed events

An event of a log is in order if it is not older than any event before it (`inOrder`).  `latest f l` is what the last
event of `l` says that says anything.  Both follow a log that grows at its end.
-/

namespace TimedLog

open Largest

variable {α β K : Type*} [LinearOrder K] {time : α → K}

/-- Those of the events that are not older than the ones before them, the `earlier` ones included. -/
def inOrderAfter (time : α → K) : List α → List α → List α
  | _, [] => []
  | earlier, a :: l =>
    if ∀ b ∈ earlier, time b ≤ time a then a :: inOrderAfter time (earlier ++ [a]) l
    else inOrderAfter time (earlier ++ [a]) l

/-- The events that are not older than any event before them. -/
def inOrder (time : α → K) (l : List α) : List α := inOrderAfter time [] l

private theorem inOrderAfter_concat (earlier l : List α) (a : α) : inOrderAfter time earlier (l ++ [a]) =
    inOrderAfter time earlier l ++ if ∀ b ∈ earlier ++ l, time b ≤ time a then [a] else [] := by
  induction l generalizing earlier with
  | nil =>
    rw [List.nil_append, List.append_nil, inOrderAfter, inOrderAfter, inOrderAfter, List.nil_append]
  | cons b l ih =>
    have hassoc : earlier ++ [b] ++ l = earlier ++ b :: l := List.append_cons .. |>.symm
    rw [List.cons_append, inOrderAfter, inOrderAfter, ih, hassoc]
    by_cases hb : ∀ c ∈ earlier, time c ≤ time b
    · rw [if_pos hb, if_pos hb, List.cons_append]
    · rw [if_neg hb, if_neg hb]

/-- An event at the end of a log is in order if it is not older than the largest time so far. -/
theorem inOrder_concat (l : List α) {a : α} {b : K} (hb : b ≤ time a) :
    inOrder time (l ++ [a]) = inOrder time l ++ if largest b (l.map time) ≤ time a then [a] else [] := by
  rw [inOrder, inOrderAfter_concat, List.nil_append, ← inOrder]
  congr 1
  refine if_congr ?_ rfl rfl
  rw [largest_le_iff, List.forall_mem_map]
  exact (and_iff_right hb).symm

/-- What the last event that says anything says. -/
def latest (f : α → Option β) (l : List α) : Option β := (l.filterMap f).getLast?

@[simp] theorem latest_nil (f : α → Option β) : latest f [] = none := rfl

theorem latest_concat (f : α → Option β) (l : List α) (a : α) : latest f (l ++ [a]) = (f a).or (latest f l) := by
  rw [latest, List.filterMap_append, latest]
  cases hf : f a with
  | none => rw [List.filterMap_cons_none hf, List.filterMap_nil, List.append_nil, Option.none_or]
  | some b => rw [List.filterMap_cons_some hf, List.filterMap_nil, List.getLast?_concat, Option.some_or]

end TimedLog
