import Mathlib.Data.List.DropRight

/-!
# Reading a text with a cursor

A cursor into a text is the text from it on.  `find` searches for the next character of a kind and `trim` takes the
characters of a kind off both ends.  `scan` is a loop whose every pass reads something off at the cursor; it has enough
fuel if every pass that does not end it moves the cursor on (`scan_ne_outOfFuel`).
-/

namespace Cursor

variable {α σ : Type*}

/-- What stands before the next character of a kind, and the cursor at it. -/
def find (p : α → Bool) (cursor : List α) : Option (List α × List α) :=
  match cursor.dropWhile fun c => !p c with
  | [] => none
  | rest => some (cursor.takeWhile fun c => !p c, rest)

def trim (p : α → Bool) (text : List α) : List α := (text.dropWhile p).rdropWhile p

variable {p : α → Bool}

theorem find_append_cons {before : List α} (h : ∀ c ∈ before, p c = false) {c : α} (hc : p c = true) (rest : List α) :
    find p (before ++ c :: rest) = some (before, c :: rest) := by
  have hskip : ∀ d ∈ before, (!p d) = true := fun d hd => by rw [h d hd]; rfl
  rw [find, List.dropWhile_append_of_pos hskip, List.takeWhile_append_of_pos hskip]
  simp [hc]

/-- The search ends at the first character of the kind. -/
theorem find_eq (p : α → Bool) (cursor : List α) :
    find p cursor = if cursor.findIdx p < cursor.length then
      some (cursor.take (cursor.findIdx p), cursor.drop (cursor.findIdx p)) else none := by
  rw [find, List.dropWhile_eq_drop_findIdx_not, List.takeWhile_eq_take_findIdx_not]
  simp only [Bool.not_not]
  by_cases h : cursor.findIdx p < cursor.length
  · rw [if_pos h]
    split
    · rename_i hnil
      exact absurd (List.drop_eq_nil_iff.1 hnil) (not_le.2 h)
    · rfl
  · rw [if_neg h, List.drop_of_length_le (not_lt.1 h)]

/-- What is found is at the cursor or behind it. -/
theorem length_of_find {cursor before rest : List α} (h : find p cursor = some (before, rest)) :
    rest ≠ [] ∧ rest.length ≤ cursor.length := by
  unfold find at h
  split at h
  · cases h
  · rename_i hne
    cases h
    exact ⟨hne, (List.dropWhile_suffix _).length_le⟩

/-- Skipping the characters of a kind ends at the first of another kind. -/
theorem dropWhile_append {skipped rest : List α} (h : ∀ c ∈ skipped, p c = true)
    (hrest : ∀ c ∈ rest.head?, p c = false) : (skipped ++ rest).dropWhile p = rest := by
  rw [List.dropWhile_append_of_pos h]
  cases rest with
  | nil => rfl
  | cons c rest => rw [List.dropWhile_cons_of_neg (by rw [hrest c rfl]; decide)]

/-- What skipping the characters of a kind leaves. -/
theorem dropWhile_eq_iff {text rest : List α} : text.dropWhile p = rest ↔
    ∃ skipped, text = skipped ++ rest ∧ (∀ c ∈ skipped, p c = true) ∧ ∀ c ∈ rest.head?, p c = false := by
  constructor
  · rintro rfl
    refine ⟨text.takeWhile p, List.takeWhile_append_dropWhile.symm, fun c hc => List.mem_takeWhile_imp hc,
      fun c hc => ?_⟩
    rw [← List.find?_not_eq_head?_dropWhile] at hc
    simpa using List.find?_some hc
  · rintro ⟨skipped, rfl, hskipped, hrest⟩
    exact dropWhile_append hskipped hrest

/-- A search cuts the text in front of the first character of the kind. -/
theorem find_eq_some_iff {cursor before rest : List α} : find p cursor = some (before, rest) ↔
    cursor = before ++ rest ∧ (∀ c ∈ before, p c = false) ∧ ∃ c ∈ rest.head?, p c = true := by
  constructor
  · intro h
    unfold find at h
    split at h
    · cases h
    · rename_i hne
      cases h
      obtain ⟨c, hc⟩ := Option.isSome_iff_exists.1 (List.isSome_head?.2 hne)
      refine ⟨List.takeWhile_append_dropWhile.symm, fun d hd => by simpa using List.mem_takeWhile_imp hd, c, hc, ?_⟩
      rw [← List.find?_eq_head?_dropWhile_not] at hc
      exact List.find?_some hc
  · rintro ⟨rfl, hbefore, c, hc, hp⟩
    obtain ⟨behind, rfl⟩ := List.head?_eq_some_iff.1 hc
    exact find_append_cons hbefore hp behind

/-- A text with characters of the kind around it. -/
theorem trim_append {before text behind : List α} (hbefore : ∀ c ∈ before, p c = true)
    (hbehind : ∀ c ∈ behind, p c = true) (hhead : ∀ c ∈ text.head?, p c = false)
    (hlast : ∀ c ∈ text.getLast?, p c = false) (hne : text ≠ []) : trim p (before ++ (text ++ behind)) = text := by
  have hhead' : ∀ c ∈ (text ++ behind).head?, p c = false := by
    rw [List.head?_append_of_ne_nil _ hne]
    exact hhead
  have hlast' : ∀ c ∈ text.reverse.head?, p c = false := by
    rw [List.head?_reverse]
    exact hlast
  have hbehind' : ∀ c ∈ behind.reverse, p c = true := fun c hc => hbehind c (List.mem_reverse.1 hc)
  rw [trim, dropWhile_append hbefore hhead', List.rdropWhile, List.reverse_append, dropWhile_append hbehind' hlast',
    List.reverse_reverse]

/-- How one pass of a loop ends: the loop fails, it is over, or it goes on at a cursor. -/
inductive Pass (α σ : Type*)
  | malformed
  | finished
  | next (cursor : List α) (state : σ)

/-- How a loop ends. -/
inductive Outcome (σ : Type*)
  | outOfFuel
  | malformed
  | done (state : σ)
  deriving DecidableEq

/-- The result of a loop that ends without failing. -/
def Outcome.result? : Outcome σ → Option σ
  | .done state => some state
  | _ => none

theorem Outcome.result?_eq_some_iff {outcome : Outcome σ} {state : σ} :
    outcome.result? = some state ↔ outcome = .done state := by
  cases outcome <;> simp [result?]

def scan (pass : List α → σ → Pass α σ) : Nat → List α → σ → Outcome σ
  | 0, _, _ => .outOfFuel
  | fuel + 1, cursor, state =>
    match pass cursor state with
    | .malformed => .malformed
    | .finished => .done state
    | .next cursor state => scan pass fuel cursor state

variable {pass : List α → σ → Pass α σ} {cursor cursor' : List α} {state state' : σ}

theorem scan_finished (h : pass cursor state = .finished) (fuel : Nat) :
    scan pass (fuel + 1) cursor state = .done state := by
  rw [scan, h]

theorem scan_next (h : pass cursor state = .next cursor' state') (fuel : Nat) :
    scan pass (fuel + 1) cursor state = scan pass fuel cursor' state' := by
  rw [scan, h]

/-- Every pass that does not end the loop moves the cursor on. -/
def Advances (pass : List α → σ → Pass α σ) : Prop :=
  ∀ {cursor state cursor' state'}, pass cursor state = .next cursor' state' → cursor'.length < cursor.length

theorem scan_ne_outOfFuel (h : Advances pass) {fuel : Nat} (hfuel : cursor.length < fuel) (state : σ) :
    scan pass fuel cursor state ≠ .outOfFuel := by
  induction fuel generalizing cursor state with
  | zero => omega
  | succ fuel ih =>
    rw [scan]
    split
    · exact fun h => nomatch h
    · exact fun h => nomatch h
    · rename_i hnext
      have hlt := h hnext
      exact ih (by omega) _

end Cursor
