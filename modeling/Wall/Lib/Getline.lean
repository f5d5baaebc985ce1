import Mathlib.Data.List.Basic

/-!
# Tokens of a stream

`std::getline` with a delimiter, called until it fails: a token ends at the delimiter, which is dropped, or at the end
of the stream, where an empty token is none.  So a text that ends with the delimiter has no last empty token.
-/

namespace Getline

variable {α : Type*} [DecidableEq α]

/-- Put a character in front of the first token. -/
def extend (c : α) : List (List α) → List (List α)
  | [] => [[c]]
  | token :: tokens => (c :: token) :: tokens

def tokens (delimiter : α) : List α → List (List α)
  | [] => []
  | c :: cs => if c = delimiter then [] :: tokens delimiter cs else extend c (tokens delimiter cs)

@[simp] theorem tokens_nil (delimiter : α) : tokens delimiter [] = [] := rfl

variable {delimiter : α}

/-- A token up to its delimiter. -/
theorem tokens_append_cons {token : List α} (h : delimiter ∉ token) (rest : List α) :
    tokens delimiter (token ++ delimiter :: rest) = token :: tokens delimiter rest := by
  induction token with
  | nil => exact if_pos rfl
  | cons c token ih =>
    rw [List.mem_cons, not_or] at h
    rw [List.cons_append, tokens, if_neg (Ne.symm h.1), ih h.2]
    rfl

/-- The last token, which the end of the stream ends. -/
theorem tokens_last {token : List α} (h : delimiter ∉ token) (hne : token ≠ []) : tokens delimiter token = [token] := by
  induction token with
  | nil => exact absurd rfl hne
  | cons c token ih =>
    rw [List.mem_cons, not_or] at h
    rw [tokens, if_neg (Ne.symm h.1)]
    by_cases htoken : token = []
    · subst htoken
      rfl
    · rw [ih h.2 htoken]
      rfl

/-- Tokens of which each is ended by the delimiter. -/
theorem tokens_flatMap {ts : List (List α)} (h : ∀ token ∈ ts, delimiter ∉ token) (rest : List α) :
    tokens delimiter ((ts.flatMap fun token => token ++ [delimiter]) ++ rest) = ts ++ tokens delimiter rest := by
  induction ts with
  | nil => rfl
  | cons token ts ih =>
    rw [List.flatMap_cons, List.append_assoc, List.append_assoc, List.singleton_append,
      tokens_append_cons (h token (List.mem_cons_self ..)), ih fun t ht => h t (List.mem_cons_of_mem _ ht)]
    rfl

/-- Tokens joined by the delimiter, the last of them not empty. -/
theorem tokens_intercalate {ts : List (List α)} (h : ∀ token ∈ ts, delimiter ∉ token)
    (hlast : ts.getLast? ≠ some []) : tokens delimiter ([delimiter].intercalate ts) = ts := by
  induction ts with
  | nil => rfl
  | cons token ts ih =>
    have htoken := h token (List.mem_cons_self ..)
    cases ts with
    | nil =>
      rw [List.intercalate_singleton]
      exact tokens_last htoken fun hnil => hlast (by rw [hnil]; rfl)
    | cons next ts =>
      rw [List.intercalate_cons_cons, List.append_assoc, List.singleton_append, tokens_append_cons htoken,
        ih (fun t ht => h t (List.mem_cons_of_mem _ ht)) (by rwa [List.getLast?_cons_cons] at hlast)]

omit [DecidableEq α] in
/-- Tokens joined by the delimiter with an empty one behind them are tokens that the delimiter ends. -/
theorem intercalate_append_nil (ts : List (List α)) :
    [delimiter].intercalate (ts ++ [[]]) = ts.flatMap fun token => token ++ [delimiter] := by
  induction ts with
  | nil => rfl
  | cons token ts ih =>
    rw [List.flatMap_cons, ← ih]
    cases ts with
    | nil => simp
    | cons next ts => rw [List.cons_append, List.cons_append, List.intercalate_cons_cons]

/-- Tokens joined by the delimiter, the last of them empty: it is lost. -/
theorem tokens_intercalate_empty {ts : List (List α)} (h : ∀ token ∈ ts, delimiter ∉ token) :
    tokens delimiter ([delimiter].intercalate (ts ++ [[]])) = ts := by
  have hflat := tokens_flatMap h []
  rw [List.append_nil, tokens_nil, List.append_nil] at hflat
  rw [intercalate_append_nil, hflat]

/-- The tokens of a text that is cut off somewhere: those before the one in which it is cut, and what is left of
that. -/
theorem tokens_of_prefix {ts : List (List α)} (h : ∀ token ∈ ts, delimiter ∉ token) (hne : ts ≠ []) {cs : List α}
    (hcs : cs <+: [delimiter].intercalate ts) :
    ∃ before token after cut, ts = before ++ token :: after ∧ cut <+: token ∧
      cs = [delimiter].intercalate (before ++ [cut]) ∧
      tokens delimiter cs = before ++ if cut = [] then [] else [cut] := by
  induction ts generalizing cs with
  | nil => exact absurd rfl hne
  | cons token ts ih =>
    have htoken := h token (List.mem_cons_self ..)
    -- the text is cut in the first token
    have hfirst : cs <+: token → ∃ before token' after cut, token :: ts = before ++ token' :: after ∧ cut <+: token' ∧
        cs = [delimiter].intercalate (before ++ [cut]) ∧
        tokens delimiter cs = before ++ if cut = [] then [] else [cut] := by
      intro hstart
      refine ⟨[], token, ts, cs, rfl, hstart, (List.intercalate_singleton ..).symm, ?_⟩
      by_cases hnil : cs = []
      · rw [if_pos hnil, hnil]
        rfl
      · rw [if_neg hnil, tokens_last (fun hmem => htoken (hstart.subset hmem)) hnil]
        rfl
    cases ts with
    | nil =>
      rw [List.intercalate_singleton] at hcs
      exact hfirst hcs
    | cons next ts =>
      rw [List.intercalate_cons_cons, List.append_assoc, List.singleton_append] at hcs
      obtain ⟨rest, hrest⟩ := hcs
      rcases List.append_eq_append_iff.1 hrest with ⟨left, hleft, -⟩ | ⟨right, hright, htail⟩
      · exact hfirst ⟨left, hleft.symm⟩
      · cases right with
        | nil => exact hfirst ⟨[], by rw [hright, List.append_nil, List.append_nil]⟩
        | cons c right =>
          rw [List.cons_append, List.cons.injEq] at htail
          obtain ⟨rfl, htail⟩ := htail
          obtain ⟨before, token', after, cut, hts, hcut, hjoin, htokens⟩ :=
            ih (fun t ht => h t (List.mem_cons_of_mem _ ht)) (List.cons_ne_nil _ _) ⟨rest, htail.symm⟩
          refine ⟨token :: before, token', after, cut, by rw [hts]; rfl, hcut, ?_, ?_⟩
          · rw [hright, hjoin]
            cases before <;> simp [List.intercalate_cons_cons]
          · rw [hright, tokens_append_cons htoken, htokens]
            rfl

/-- Every delimiter ends a token, and the end of the stream does if no delimiter stands before it. -/
theorem length_tokens (cs : List α) :
    (tokens delimiter cs).length = cs.count delimiter + if ∀ c ∈ cs.getLast?, c = delimiter then 0 else 1 := by
  induction cs with
  | nil => simp
  | cons c cs ih =>
    have hextend : ∀ ts : List (List α), (extend c ts).length = max 1 ts.length := by
      intro ts
      cases ts <;> simp [extend]
    rw [tokens, List.count_cons]
    cases cs with
    | nil => by_cases hc : c = delimiter <;> simp [hc, extend]
    | cons d cs =>
      rw [List.getLast?_cons_cons]
      by_cases hc : c = delimiter
      · rw [if_pos hc, List.length_cons, ih]
        simp only [hc, beq_self_eq_true, if_true]
        omega
      · have hne : 0 < (tokens delimiter (d :: cs)).length := by
          rw [tokens]
          split
          · exact Nat.succ_pos _
          · cases tokens delimiter cs <;> exact Nat.succ_pos _
        rw [if_neg hc, hextend, Nat.max_eq_right hne, ih]
        simp [hc]

/-- Joined texts have the delimiters in them and those between them. -/
theorem count_intercalate (ts : List (List α)) :
    ([delimiter].intercalate ts).count delimiter = ts.flatten.count delimiter + (ts.length - 1) := by
  induction ts with
  | nil => rfl
  | cons token ts ih =>
    cases ts with
    | nil => simp
    | cons next ts =>
      rw [List.intercalate_cons_cons, List.count_append, List.count_append, ih]
      simp
      omega

omit [DecidableEq α] in
theorem mem_intercalate_of_mem {ts : List (List α)} {token : List α} (h : token ∈ ts) {c : α} (hc : c ∈ token) :
    c ∈ [delimiter].intercalate ts := by
  induction ts with
  | nil => cases h
  | cons first ts ih =>
    cases ts with
    | nil =>
      rw [List.intercalate_singleton]
      exact List.mem_singleton.1 h ▸ hc
    | cons next ts =>
      rw [List.intercalate_cons_cons, List.mem_append, List.mem_append]
      rcases List.mem_cons.1 h with rfl | h
      · exact .inl (.inl hc)
      · exact .inr (ih h)

omit [DecidableEq α] in
private theorem getLast?_intercalate {ts : List (List α)} {token : List α} (h : ts.getLast? = some token)
    (hne : token ≠ []) : ([delimiter].intercalate ts).getLast? = token.getLast? := by
  induction ts with
  | nil => cases h
  | cons first ts ih =>
    cases ts with
    | nil =>
      rw [List.getLast?_singleton, Option.some.injEq] at h
      rw [List.intercalate_singleton, h]
    | cons next ts =>
      rw [List.getLast?_cons_cons] at h
      have hrest := ih h
      have hrestNe : [delimiter].intercalate (next :: ts) ≠ [] := by
        intro hnil
        rw [hnil] at hrest
        exact hne (List.getLast?_eq_none_iff.1 hrest.symm)
      rw [List.intercalate_cons_cons, List.getLast?_append_of_ne_nil _ hrestNe, hrest]

/-- Joined texts, the last of which is a token, come apart at the delimiters in them as well. -/
theorem length_tokens_intercalate {ts : List (List α)} {token : List α} (h : ts.getLast? = some token)
    (hne : token ≠ []) (htoken : delimiter ∉ token) :
    (tokens delimiter ([delimiter].intercalate ts)).length = ts.flatten.count delimiter + ts.length := by
  have hlast : ¬∀ c ∈ ([delimiter].intercalate ts).getLast?, c = delimiter := by
    rw [getLast?_intercalate h hne, List.getLast?_eq_some_getLast hne]
    intro hall
    exact htoken (hall _ rfl ▸ List.getLast_mem hne)
  have hts : ts ≠ [] := by
    rintro rfl
    cases h
  have hpos := List.length_pos_of_ne_nil hts
  rw [length_tokens, count_intercalate, if_neg hlast]
  omega

/-- A token has the characters of the text, without the delimiter. -/
theorem mem_of_mem_tokens {cs token : List α} (h : token ∈ tokens delimiter cs) {c : α} (hc : c ∈ token) :
    c ∈ cs ∧ c ≠ delimiter := by
  induction cs generalizing token with
  | nil => cases h
  | cons d cs ih =>
    rw [tokens] at h
    split at h
    · rcases List.mem_cons.1 h with rfl | h
      · cases hc
      · exact (ih h hc).imp_left (List.mem_cons_of_mem _)
    · rename_i hd
      cases htokens : tokens delimiter cs with
      | nil =>
        rw [htokens, extend, List.mem_singleton] at h
        subst h
        rw [List.mem_singleton.1 hc]
        exact ⟨List.mem_cons_self .., hd⟩
      | cons first rest =>
        rw [htokens, extend] at h
        rcases List.mem_cons.1 h with rfl | h
        · rcases List.mem_cons.1 hc with rfl | hc
          · exact ⟨List.mem_cons_self .., hd⟩
          · exact (ih (htokens ▸ List.mem_cons_self ..) hc).imp_left (List.mem_cons_of_mem _)
        · exact (ih (htokens ▸ List.mem_cons_of_mem _ h) hc).imp_left (List.mem_cons_of_mem _)

omit [DecidableEq α] in
/-- Two texts are cut alike at their last delimiter. -/
theorem eq_of_last_delimiter {l l' token token' : List α} (h : delimiter ∉ token) (h' : delimiter ∉ token')
    (heq : l ++ delimiter :: token = l' ++ delimiter :: token') : l = l' ∧ token = token' := by
  rcases List.append_eq_append_iff.1 heq with ⟨between, hl, htoken⟩ | ⟨between, hl, htoken⟩
  · cases between with
    | nil =>
      rw [List.nil_append, List.cons.injEq] at htoken
      exact ⟨by rw [hl, List.append_nil], htoken.2⟩
    | cons c between =>
      rw [List.cons_append, List.cons.injEq] at htoken
      exact absurd (htoken.2 ▸ List.mem_append_right _ (List.mem_cons_self ..)) h
  · cases between with
    | nil =>
      rw [List.nil_append, List.cons.injEq] at htoken
      exact ⟨by rw [hl, List.append_nil], htoken.2.symm⟩
    | cons c between =>
      rw [List.cons_append, List.cons.injEq] at htoken
      exact absurd (htoken.2 ▸ List.mem_append_right _ (List.mem_cons_self ..)) h'

end Getline
