import Mathlib.Data.List.Basic

/-!
# Pieces between delimiters

The pieces of a text are what stands between its delimiters, empty ones left out.  A delimiter cuts a text into two
whose pieces follow each other (`pieces_append_cons`), so further delimiters beside it, in front of the text or behind
it make no difference.  A text that is `joined` from pieces has these pieces (`pieces_joined`).
-/

namespace Pieces

variable {α : Type*} [DecidableEq α]

def pieces (delimiter : α) (text : List α) : List (List α) := (text.splitOn delimiter).filter fun piece => piece ≠ []

variable {delimiter : α}

@[simp] theorem pieces_nil : pieces delimiter [] = [] := rfl

/-- A text without the delimiter is its only piece, if it is not empty. -/
theorem pieces_of_not_mem {text : List α} (h : delimiter ∉ text) :
    pieces delimiter text = if text = [] then [] else [text] := by
  rw [pieces, List.splitOn_eq_singleton h]
  by_cases hnil : text = [] <;> simp [hnil]

/-- A delimiter cuts a text into two. -/
theorem pieces_append_cons (before behind : List α) :
    pieces delimiter (before ++ delimiter :: behind) = pieces delimiter before ++ pieces delimiter behind := by
  rw [pieces, List.splitOn_append_cons_self, List.filter_append]
  rfl

/-- Delimiters in front of a text make no difference. -/
theorem pieces_replicate_append (n : Nat) (text : List α) :
    pieces delimiter (List.replicate n delimiter ++ text) = pieces delimiter text := by
  induction n with
  | zero => rfl
  | succ n ih =>
    rw [List.replicate_succ, List.cons_append, ← ih]
    exact pieces_append_cons [] (List.replicate n delimiter ++ text)

/-- Delimiters behind a text make no difference. -/
theorem pieces_append_replicate (text : List α) (n : Nat) :
    pieces delimiter (text ++ List.replicate n delimiter) = pieces delimiter text := by
  cases n with
  | zero => rw [List.replicate_zero, List.append_nil]
  | succ n =>
    have hbehind : pieces delimiter (List.replicate n delimiter ++ []) = [] := pieces_replicate_append n []
    rw [List.append_nil] at hbehind
    rw [List.replicate_succ, pieces_append_cons, hbehind, List.append_nil]

/-- Pieces joined by delimiters: so many more than one behind each, and so many behind the last. -/
def joined (delimiter : α) : List (List α × Nat) → List α
  | [] => []
  | [(piece, n)] => piece ++ List.replicate n delimiter
  | (piece, n) :: next :: entries =>
    piece ++ delimiter :: (List.replicate n delimiter ++ joined delimiter (next :: entries))

/-- A joined text has the pieces that it is made of. -/
theorem pieces_joined {entries : List (List α × Nat)} (h : ∀ entry ∈ entries, entry.1 ≠ [] ∧ delimiter ∉ entry.1) :
    pieces delimiter (joined delimiter entries) = entries.map Prod.fst := by
  have hpiece : ∀ entry ∈ entries, pieces delimiter entry.1 = [entry.1] := fun entry hentry => by
    rw [pieces_of_not_mem (h entry hentry).2, if_neg (h entry hentry).1]
  clear h
  induction entries using joined.induct with
  | case1 => rfl
  | case2 piece n => rw [joined, pieces_append_replicate, hpiece _ (List.mem_singleton.2 rfl)]; rfl
  | case3 piece n next entries ih =>
    rw [joined, pieces_append_cons, pieces_replicate_append, hpiece _ (List.mem_cons_self ..),
      ih fun entry hentry => hpiece entry (List.mem_cons_of_mem _ hentry)]
    rfl

end Pieces
