import Wall.ExchangeMarketDataAdapter
import Wall.Lib.KeyedMap
import Wall.Lib.Pieces

/-!
# The fields of a market payload

What `parse_fields` reads, in terms of the text: the segments between semicolons, empty ones left out, each cut at its
first `'='`.  The loop is equal to a recursion on these segments (`scan_eq_collect`).  So it fails at a malformed
segment, and otherwise binds each key to the value of its first segment; and a text that is written from key and value
pairs, with any semicolons between and around them, is read as these pairs (`parseFields_text`).
-/

namespace Wall

open Cursor Pieces

namespace MockExchangeMarketDataAdapter

/-- The segments of a payload that are not empty. -/
def segments (payload : String) : List (List Char) := pieces ';' payload.toList

/-- There is no `'='`, or the first one is the first or the last character. -/
def Malformed (token : List Char) : Prop :=
  '=' ∉ token ∨ token.idxOf '=' = 0 ∨ token.idxOf '=' = token.length - 1

instance : DecidablePred Malformed := fun _ => inferInstanceAs (Decidable (_ ∨ _ ∨ _))

/-- The text before the first `'='`. -/
def keyOf (token : List Char) : String := String.ofList (token.take (token.idxOf '='))

/-- The text after the first `'='`. -/
def valueOf (token : List Char) : String := String.ofList (token.drop (token.idxOf '=' + 1))

/-- What segments are read as, one after the other. -/
def collect : List (List Char) → StringMap String → Outcome (StringMap String)
  | [], fields => .done fields
  | token :: tokens, fields =>
    if Malformed token then .malformed else collect tokens (fields.insertIfNew (keyOf token) (valueOf token))

/-! ### The loop -/

private theorem find_idxOf (c : Char) (text : List Char) : find (· = c) text =
    if text.idxOf c < text.length then some (text.take (text.idxOf c), text.drop (text.idxOf c)) else none :=
  find_eq _ text

/-- The token ends at the first semicolon, and the cursor goes on behind it. -/
private theorem segment_cases (cursor : List Char) : ';' ∉ (segment cursor).1 ∧
    (cursor = (segment cursor).1 ∧ (segment cursor).2 = [] ∨
      cursor = (segment cursor).1 ++ ';' :: (segment cursor).2) := by
  by_cases h : cursor.idxOf ';' < cursor.length
  · have hsegment : segment cursor = (cursor.take (cursor.idxOf ';'), (cursor.drop (cursor.idxOf ';')).tail) := by
      rw [segment, find_idxOf, if_pos h]
    have hcut : cursor.drop (cursor.idxOf ';') = ';' :: (cursor.drop (cursor.idxOf ';')).tail := by
      rw [List.tail_drop, ← List.cons_getElem_drop_succ (h := h), List.getElem_idxOf h]
    rw [hsegment]
    refine ⟨fun hmem => ?_, .inr ?_⟩
    · exact lt_irrefl _ ((List.mem_take_iff_idxOf_lt (List.mem_of_mem_take hmem)).1 hmem)
    · rw [← hcut, List.take_append_drop]
  · have hsegment : segment cursor = (cursor, []) := by rw [segment, find_idxOf, if_neg h]
    rw [hsegment]
    exact ⟨fun hmem => h (List.idxOf_lt_length_iff.2 hmem), .inl ⟨rfl, rfl⟩⟩

/-- The segments of a text are the token at its beginning, unless that is empty, and those behind it. -/
private theorem pieces_segment (cursor : List Char) :
    pieces ';' cursor = (if (segment cursor).1 = [] then [] else [(segment cursor).1]) ++
      pieces ';' (segment cursor).2 := by
  obtain ⟨htoken, ⟨hcursor, hrest⟩ | hcursor⟩ := segment_cases cursor
  · rw [hrest, pieces_nil, List.append_nil, ← pieces_of_not_mem htoken, ← hcursor]
  · rw [← pieces_of_not_mem htoken, ← pieces_append_cons, ← hcursor]

private theorem pass_empty {cursor : List Char} (hne : cursor ≠ []) (htoken : (segment cursor).1 = [])
    (fields : StringMap String) : pass cursor fields = .next (segment cursor).2 fields := by
  rw [pass, if_neg hne]
  exact if_pos htoken

/-- A pass over a token that is not empty. -/
private theorem pass_token {cursor : List Char} (hne : cursor ≠ []) (htoken : (segment cursor).1 ≠ [])
    (fields : StringMap String) : pass cursor fields =
      if Malformed (segment cursor).1 then .malformed
      else .next (segment cursor).2 (fields.insertIfNew (keyOf (segment cursor).1) (valueOf (segment cursor).1)) := by
  have hlength : 0 < (segment cursor).1.length := List.length_pos_iff.2 htoken
  rw [pass, if_neg hne]
  dsimp only
  rw [if_neg htoken, find_idxOf]
  by_cases hmem : (segment cursor).1.idxOf '=' < (segment cursor).1.length
  · rw [if_pos hmem]
    dsimp only
    have hkey : (segment cursor).1.take ((segment cursor).1.idxOf '=') = [] ↔ (segment cursor).1.idxOf '=' = 0 := by
      rw [List.take_eq_nil_iff, or_iff_left htoken]
    have hvalue : ((segment cursor).1.drop ((segment cursor).1.idxOf '=')).tail = [] ↔
        (segment cursor).1.idxOf '=' = (segment cursor).1.length - 1 := by
      rw [List.tail_drop, List.drop_eq_nil_iff]
      omega
    have hmalformed : Malformed (segment cursor).1 ↔ (segment cursor).1.idxOf '=' = 0 ∨
        (segment cursor).1.idxOf '=' = (segment cursor).1.length - 1 :=
      or_iff_right (not_not_intro (List.idxOf_lt_length_iff.1 hmem))
    simp only [hkey, hvalue, hmalformed]
    rw [List.tail_drop]
    rfl
  · rw [if_neg hmem]
    exact (if_pos (.inl fun h => hmem (List.idxOf_lt_length_iff.2 h))).symm

/-- The loop reads the segments of the text one after the other. -/
theorem scan_eq_collect {fuel : Nat} {cursor : List Char} (h : cursor.length < fuel) (fields : StringMap String) :
    scan pass fuel cursor fields = collect (pieces ';' cursor) fields := by
  induction fuel generalizing cursor fields with
  | zero => omega
  | succ fuel ih =>
    by_cases hne : cursor = []
    · subst hne
      rfl
    · have hlt := length_segment hne
      rw [pieces_segment]
      by_cases htoken : (segment cursor).1 = []
      · rw [scan_next (pass_empty hne htoken fields), if_pos htoken, List.nil_append]
        exact ih (by omega) fields
      · rw [if_neg htoken, List.singleton_append, collect]
        have hpass := pass_token hne htoken fields
        by_cases hmalformed : Malformed (segment cursor).1
        · rw [if_pos hmalformed] at hpass ⊢
          rw [scan, hpass]
        · rw [if_neg hmalformed] at hpass ⊢
          rw [scan_next hpass]
          exact ih (by omega) _

theorem parseFields_eq_collect {fuel : Nat} {payload : String} (h : payload.length < fuel) :
    parseFields fuel payload = collect (segments payload) ∅ :=
  scan_eq_collect (by rwa [String.length_toList]) ∅

/-! ### What is collected -/

theorem collect_malformed {tokens : List (List Char)} (h : ∃ token ∈ tokens, Malformed token)
    (fields : StringMap String) : collect tokens fields = .malformed := by
  induction tokens generalizing fields with
  | nil =>
    obtain ⟨token, htoken, -⟩ := h
    cases htoken
  | cons token tokens ih =>
    rw [collect]
    split
    · rfl
    · rename_i hwell
      obtain ⟨other, hother, hmalformed⟩ := h
      rcases List.mem_cons.1 hother with rfl | hother
      · exact absurd hmalformed hwell
      · exact ih ⟨other, hother, hmalformed⟩ _

theorem collect_done {tokens : List (List Char)} (h : ∀ token ∈ tokens, ¬Malformed token) (fields : StringMap String) :
    collect tokens fields =
      .done (tokens.foldl (fun fields token => fields.insertIfNew (keyOf token) (valueOf token)) fields) := by
  induction tokens generalizing fields with
  | nil => rfl
  | cons token tokens ih =>
    rw [collect, if_neg (h token (List.mem_cons_self ..))]
    exact ih (fun other hother => h other (List.mem_cons_of_mem _ hother)) _

private theorem collect_eq_malformed_iff {tokens : List (List Char)} {fields : StringMap String} :
    collect tokens fields = .malformed ↔ ∃ token ∈ tokens, Malformed token := by
  refine ⟨fun h => ?_, fun h => collect_malformed h fields⟩
  by_contra hwell
  simp only [not_exists, not_and] at hwell
  rw [collect_done hwell] at h
  cases h

/-- The first segment of a key gives its value. -/
theorem getElem?_of_collect_eq_done {tokens : List (List Char)} {fields : StringMap String}
    (h : collect tokens ∅ = .done fields) (key : String) :
    fields[key]? = (tokens.find? fun token => keyOf token = key).map valueOf := by
  have hwell : ∀ token ∈ tokens, ¬Malformed token := by
    intro token htoken hmalformed
    rw [collect_malformed ⟨token, htoken, hmalformed⟩] at h
    cases h
  rw [collect_done hwell, Outcome.done.injEq] at h
  rw [← h, KeyedMap.getElem?_foldl_insertIfNew, Std.ExtTreeMap.getElem?_empty, Option.none_or]

end MockExchangeMarketDataAdapter

open MockExchangeMarketDataAdapter

/-! ### Texts that are written from pairs -/

structure FieldPair where
  key : String
  value : String
  key_ne : key ≠ ""
  value_ne : value ≠ ""
  equals_notMem_key : '=' ∉ key.toList
  semicolon_notMem_key : ';' ∉ key.toList
  semicolon_notMem_value : ';' ∉ value.toList

namespace FieldPair

def written (pair : FieldPair) : List Char := pair.key.toList ++ '=' :: pair.value.toList

variable (pair : FieldPair)

private theorem idxOf_written : pair.written.idxOf '=' = pair.key.toList.length := by
  rw [written, List.idxOf_append_of_notMem pair.equals_notMem_key, List.idxOf_cons_self, Nat.add_zero]

private theorem keyOf_written : keyOf pair.written = pair.key := by
  rw [keyOf, idxOf_written, written, List.take_left, String.ofList_toList]

private theorem valueOf_written : valueOf pair.written = pair.value := by
  rw [valueOf, idxOf_written, written, ← List.drop_drop, List.drop_left, List.drop_one, List.tail_cons,
    String.ofList_toList]

private theorem not_malformed_written : ¬Malformed pair.written := by
  have hkey : pair.key.toList ≠ [] := fun h => pair.key_ne (String.toList_eq_nil_iff.1 h)
  have hvalue : pair.value.toList ≠ [] := fun h => pair.value_ne (String.toList_eq_nil_iff.1 h)
  have hkeyLength := List.length_pos_iff.2 hkey
  have hvalueLength := List.length_pos_iff.2 hvalue
  have hlength : pair.written.length = pair.key.toList.length + (pair.value.toList.length + 1) := by
    rw [written, List.length_append, List.length_cons]
  rintro (hmem | hfirst | hlast)
  · exact hmem (List.mem_append_right _ (List.mem_cons_self ..))
  · rw [idxOf_written] at hfirst
    omega
  · rw [idxOf_written, hlength] at hlast
    omega

private theorem semicolon_notMem_written : ';' ∉ pair.written := by
  intro hmem
  rcases List.mem_append.1 hmem with hmem | hmem
  · exact pair.semicolon_notMem_key hmem
  · rcases List.mem_cons.1 hmem with heq | hmem
    · exact absurd heq (by decide)
    · exact pair.semicolon_notMem_value hmem

end FieldPair

/-- Pairs with distinct keys, and how many semicolons stand in front of the first, behind each but the last beyond the
one that is needed, and behind the last. -/
structure FieldList where
  leading : Nat
  entries : List (FieldPair × Nat)
  nodup_keys : (entries.map fun entry => entry.1.key).Nodup

namespace FieldList

def text (list : FieldList) : String :=
  String.ofList (List.replicate list.leading ';' ++
    joined ';' (list.entries.map fun entry => (entry.1.written, entry.2)))

private theorem segments_text (list : FieldList) : segments list.text =
    list.entries.map fun entry => entry.1.written := by
  have hentry : ∀ entry ∈ list.entries.map fun entry => (entry.1.written, entry.2),
      entry.1 ≠ [] ∧ ';' ∉ entry.1 := by
    intro written hwritten
    obtain ⟨entry, -, rfl⟩ := List.mem_map.1 hwritten
    exact ⟨List.append_ne_nil_of_right_ne_nil _ (List.cons_ne_nil _ _), entry.1.semicolon_notMem_written⟩
  rw [segments, text, String.toList_ofList, pieces_replicate_append, pieces_joined hentry, List.map_map]
  rfl

end FieldList

namespace MockExchangeMarketDataAdapter

/-- A text that is written from pairs is read as these pairs. -/
theorem parseFields_text (list : FieldList) {fuel : Nat} (h : list.text.length < fuel) :
    ∃ fields, parseFields fuel list.text = .done fields ∧
      ∀ key value, fields[key]? = some value ↔
        ∃ entry ∈ list.entries, entry.1.key = key ∧ entry.1.value = value := by
  have hwell : ∀ token ∈ segments list.text, ¬Malformed token := by
    rw [list.segments_text]
    intro token htoken
    obtain ⟨entry, -, rfl⟩ := List.mem_map.1 htoken
    exact entry.1.not_malformed_written
  have hdone := collect_done hwell ∅
  refine ⟨_, (parseFields_eq_collect h).trans hdone, fun key value => ?_⟩
  rw [getElem?_of_collect_eq_done hdone, list.segments_text, List.find?_map, Option.map_map, Option.map_eq_some_iff]
  simp only [Function.comp_def, FieldPair.keyOf_written, FieldPair.valueOf_written,
    KeyedMap.find?_eq_some_iff_of_nodup list.nodup_keys, and_assoc]

/-- The loop ends on every text; it fails exactly at a malformed segment, and otherwise binds each key to the value of
its first segment and nothing else.  So it reads what is written from pairs with distinct keys back to these pairs. -/
theorem parseFields_grammar :
    (∀ (payload : String) (fuel : Nat), payload.length < fuel →
      parseFields fuel payload ≠ .outOfFuel ∧
      (parseFields fuel payload = .malformed ↔ ∃ token ∈ segments payload, Malformed token) ∧
      ∀ fields, parseFields fuel payload = .done fields →
        ∀ key, fields[key]? = ((segments payload).find? fun token => keyOf token = key).map valueOf) ∧
    ∀ (list : FieldList) (fuel : Nat), list.text.length < fuel →
      ∃ fields, parseFields fuel list.text = .done fields ∧
        ∀ key value, fields[key]? = some value ↔
          ∃ entry ∈ list.entries, entry.1.key = key ∧ entry.1.value = value := by
  refine ⟨fun payload fuel h => ⟨parseFields_ne_outOfFuel h, ?_, fun fields hfields => ?_⟩,
    fun list fuel h => parseFields_text list h⟩
  · rw [parseFields_eq_collect h]
    exact collect_eq_malformed_iff
  · rw [parseFields_eq_collect h] at hfields
    exact getElem?_of_collect_eq_done hfields

/-- A value with an `'='`, and more semicolons than are needed. -/
def sampleList : FieldList where
  leading := 2
  entries := [
    (⟨"type", "trade", by decide, by decide, by decide, by decide, by decide⟩, 1),
    (⟨"note", "a=b", by decide, by decide, by decide, by decide, by decide⟩, 1)]
  nodup_keys := by decide

theorem parseFields_grammar_sampleList :
    parseFields 7 "=trade" = .malformed ∧
      ∃ fields, parseFields 24 ";;type=trade;;note=a=b;" = .done fields ∧ fields["note"]? = some "a=b" := by
  obtain ⟨-, hmalformed, -⟩ := parseFields_grammar.1 "=trade" 7 (by decide)
  obtain ⟨fields, hdone, hfields⟩ := parseFields_grammar.2 sampleList 24 (by decide)
  have htext : sampleList.text = ";;type=trade;;note=a=b;" := by decide
  rw [htext] at hdone
  refine ⟨hmalformed.2 ⟨"=trade".toList, by decide, by decide⟩, fields, hdone, (hfields "note" "a=b").2 ?_⟩
  exact ⟨_, List.mem_cons_of_mem _ (List.mem_singleton.2 rfl), rfl, rfl⟩

end MockExchangeMarketDataAdapter

end Wall
