import Mathlib.Data.Nat.Find

/-!
# Reading the longest numeral

A grammar says which texts are numerals and what number each denotes, if it is in range.  `strtod` and `strtol` read
the longest numeral that a text starts with and leave the rest of the text unread.  So a text that is read is a
numeral if and only if nothing of it is left (`isNumeral_iff_unread`).
-/

/-- The numerals of a type of numbers. -/
structure NumeralGrammar (α β : Type*) where
  isNumeral : List α → Bool
  value : List α → Option β

namespace NumeralGrammar

variable {α β : Type*} (grammar : NumeralGrammar α β)

/-- The length of the longest numeral that the text starts with, or 0. -/
def consumed (text : List α) : Nat := Nat.findGreatest (fun n => grammar.isNumeral (text.take n) = true) text.length

def read (text : List α) : Option β :=
  if grammar.isNumeral (text.take (grammar.consumed text)) then grammar.value (text.take (grammar.consumed text))
  else none

def unread (text : List α) : List α := text.drop (grammar.consumed text)

variable {grammar}

private theorem consumed_le (text : List α) : grammar.consumed text ≤ text.length := Nat.findGreatest_le _

/-- If some prefix is a numeral, then so is the one that is consumed, and it is no shorter. -/
theorem isNumeral_consumed {text : List α} {n : Nat} (hn : n ≤ text.length)
    (h : grammar.isNumeral (text.take n) = true) :
    grammar.isNumeral (text.take (grammar.consumed text)) = true ∧ n ≤ grammar.consumed text :=
  ⟨Nat.findGreatest_spec (P := fun n => grammar.isNumeral (text.take n) = true) hn h, Nat.le_findGreatest hn h⟩

private theorem isNumeral_of_read {text : List α} (h : (grammar.read text).isSome = true) :
    grammar.isNumeral (text.take (grammar.consumed text)) = true := by
  unfold read at h
  split at h
  · assumption
  · cases h

/-- A numeral is read as a whole. -/
theorem consumed_eq_length {text : List α} (h : grammar.isNumeral text = true) :
    grammar.consumed text = text.length := by
  rw [← List.take_length (l := text)] at h
  exact Nat.le_antisymm (consumed_le text) (isNumeral_consumed (le_refl _) h).2

theorem read_of_isNumeral {text : List α} (h : grammar.isNumeral text = true) :
    grammar.read text = grammar.value text := by
  rw [read, consumed_eq_length h, List.take_length, if_pos h]

/-- Of the texts that are read, those that are consumed are numerals. -/
theorem isNumeral_iff_consumed {text : List α} (h : (grammar.read text).isSome = true) :
    grammar.isNumeral text = true ↔ grammar.consumed text = text.length := by
  refine ⟨consumed_eq_length, fun hconsumed => ?_⟩
  have hnumeral := isNumeral_of_read h
  rwa [hconsumed, List.take_length] at hnumeral

/-- Of the texts that are read, those of which nothing is left are numerals. -/
theorem isNumeral_iff_unread {text : List α} (h : (grammar.read text).isSome = true) :
    grammar.isNumeral text = true ↔ grammar.unread text = [] := by
  rw [isNumeral_iff_consumed h, unread, List.drop_eq_nil_iff]
  exact ⟨Nat.le_of_eq ∘ Eq.symm, Nat.le_antisymm (consumed_le text)⟩

end NumeralGrammar
