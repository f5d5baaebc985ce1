import Wall.TransactionPublisher
import Wall.Lib.KeyedMap

/-!
# The members on a JSON line

What `parse_flat_json_object` reads, in terms of the text.  A member is a key in quotes, a colon and a value in quotes
or bare; commas and white space may stand in front of it, and a bare value goes up to the next comma or brace.  The
loop takes off one member after the other (`pass_eq_next_iff`) until only the closing brace is left, so a line is read
exactly if it is written so, and then as its members, of which the first with a key counts
(`result?_parseFlatJsonObject_iff`).
-/

namespace Wall

open Cursor

namespace TransactionPublisher

/-- White space and commas, which are skipped in front of a member. -/
abbrev Gap := {text : List Char // ∀ c ∈ text, (Decimal.isSpace c || c = ',') = true}

abbrev Spaces := {text : List Char // ∀ c ∈ text, Decimal.isSpace c = true}

abbrev Unquoted := {text : List Char // '"' ∉ text}

/-- How a value stands on a line: in quotes, or bare. -/
inductive WrittenValue
  | quoted (text : Unquoted)
  | bare (text : List Char) (stop_notMem : ',' ∉ text ∧ '}' ∉ text)
      (head_ne : ∀ c ∈ text.head?, c ≠ '"' ∧ Decimal.isSpace c = false)

namespace WrittenValue

def written : WrittenValue → List Char
  | quoted text => '"' :: (text.1 ++ ['"'])
  | bare text .. => text

/-- The text that the value is read as. -/
def content : WrittenValue → String
  | quoted text => String.ofList text.1
  | bare text .. => String.ofList (trim isBlank text)

/-- A bare value ends in front of a comma or a brace. -/
def EndsAt (rest : List Char) : WrittenValue → Prop
  | quoted _ => True
  | bare .. => rest.head? = some ',' ∨ rest.head? = some '}'

/-- In front of what ends it, a value does not start with white space. -/
theorem head_written {value : WrittenValue} {rest : List Char} (h : value.EndsAt rest) :
    ∀ c ∈ (value.written ++ rest).head?, Decimal.isSpace c = false := by
  intro c hc
  cases value with
  | quoted text =>
    cases hc
    decide
  | bare text stop_notMem head_ne =>
    cases text with
    | nil =>
      have hc : rest.head? = some c := hc
      rcases h with h | h <;> cases hc.symm.trans h <;> decide
    | cons d text =>
      cases hc
      exact (head_ne _ rfl).2

end WrittenValue

/-- A member as it stands on a line, with what separates it from the one before and the white space around its colon. -/
structure WrittenMember where
  gap : Gap
  key : Unquoted
  beforeColon : Spaces
  behindColon : Spaces
  value : WrittenValue

namespace WrittenMember

def written (member : WrittenMember) : List Char :=
  member.gap.1 ++ '"' :: (member.key.1 ++ '"' :: (member.beforeColon.1 ++ ':' :: (member.behindColon.1 ++
    member.value.written)))

def keyText (member : WrittenMember) : String := String.ofList member.key.1

end WrittenMember

/-- The members that stand in a text, one behind the other, up to its closing brace. -/
inductive Members : List Char → List WrittenMember → Prop
  | brace (gap : Gap) : Members (gap.1 ++ ['}']) []
  | cons (member : WrittenMember) {rest : List Char} {members : List WrittenMember}
      (ends : member.value.EndsAt rest) (members_rest : Members rest members) :
      Members (member.written ++ rest) (member :: members)

/-- The members of the object on a line. -/
def Holds (line : String) (members : List WrittenMember) : Prop :=
  ∃ text, trim isBlank line.toList = '{' :: text ∧ Members text members

/-- The text of the first member with a key. -/
def memberText (members : List WrittenMember) (key : String) : Option String :=
  (members.find? fun member => member.keyText = key).map fun member => member.value.content

/-! ### One member -/

private theorem find_quote (text : Unquoted) (rest : List Char) :
    find (· = '"') (text.1 ++ '"' :: rest) = some (text.1, '"' :: rest) := by
  refine find_append_cons (fun c hc => decide_eq_false ?_) rfl rest
  rintro rfl
  exact text.2 hc

private theorem find_quote_cases {cursor before rest : List Char} (h : find (· = '"') cursor = some (before, rest)) :
    ∃ (text : Unquoted) (behind : List Char),
      cursor = text.1 ++ '"' :: behind ∧ before = text.1 ∧ rest = '"' :: behind := by
  obtain ⟨rfl, hbefore, c, hc, hquote⟩ := find_eq_some_iff.1 h
  obtain ⟨behind, rfl⟩ := List.head?_eq_some_iff.1 hc
  obtain rfl : c = '"' := of_decide_eq_true hquote
  exact ⟨⟨before, fun hmem => of_decide_eq_false (hbefore _ hmem) rfl⟩, behind, rfl, rfl, rfl⟩

private theorem parseKey_eq_some_iff {cursor rest : List Char} {key : String} : parseKey cursor = some (key, rest) ↔
    ∃ (text : Unquoted) (beforeColon behindColon : Spaces),
      cursor = '"' :: (text.1 ++ '"' :: (beforeColon.1 ++ ':' :: (behindColon.1 ++ rest))) ∧
      (∀ c ∈ rest.head?, Decimal.isSpace c = false) ∧ key = String.ofList text.1 := by
  constructor
  · intro h
    unfold parseKey at h
    split at h
    · rename_i cursor
      obtain ⟨found, hfind, hrest⟩ := Option.bind_eq_some_iff.1 h
      obtain ⟨text, behind, rfl, hbefore, hclosing⟩ := find_quote_cases hfind
      dsimp only at hrest
      rw [hclosing, List.tail_cons] at hrest
      split at hrest
      · rename_i value hcolon
        cases hrest
        obtain ⟨beforeColon, rfl, hspaces, -⟩ := dropWhile_eq_iff.1 hcolon
        obtain ⟨behindColon, hvalue, hspaces', hhead⟩ := dropWhile_eq_iff.1 (rfl : value.dropWhile _ = _)
        refine ⟨text, ⟨beforeColon, hspaces⟩, ⟨behindColon, hspaces'⟩, ?_, hhead, by rw [hbefore]⟩
        rw [← hvalue]
      · cases hrest
    · cases h
  · rintro ⟨text, beforeColon, behindColon, rfl, hhead, rfl⟩
    have hcolon : (beforeColon.1 ++ ':' :: (behindColon.1 ++ rest)).dropWhile Decimal.isSpace =
        ':' :: (behindColon.1 ++ rest) :=
      dropWhile_append beforeColon.2 (by simp [Decimal.isSpace])
    rw [parseKey, find_quote]
    simp only [bind, Option.bind_some, List.tail_cons, hcolon, pure, dropWhile_append behindColon.2 hhead]

/-- A value that does not start with white space is read as it stands. -/
private theorem parseValue_eq_some_iff {cursor rest : List Char} {text : String}
    (hhead : ∀ c ∈ cursor.head?, Decimal.isSpace c = false) : parseValue cursor = some (text, rest) ↔
      ∃ value : WrittenValue, cursor = value.written ++ rest ∧ value.EndsAt rest ∧ text = value.content := by
  constructor
  · intro h
    unfold parseValue at h
    split at h
    · cases h
    · rename_i cursor
      obtain ⟨⟨before, closing⟩, hfind, hrest⟩ := Option.bind_eq_some_iff.1 h
      obtain ⟨quoted, behind, rfl, rfl, rfl⟩ := find_quote_cases hfind
      cases hrest
      exact ⟨.quoted quoted, by simp [WrittenValue.written], trivial, rfl⟩
    · rename_i hquote
      obtain ⟨⟨bare, stop⟩, hfind, hrest⟩ := Option.bind_eq_some_iff.1 h
      obtain ⟨rfl, hbare, c, hc, hstop⟩ := find_eq_some_iff.1 hfind
      cases hrest
      have hstop : c = ',' ∨ c = '}' := by simpa using hstop
      refine ⟨.bare bare ⟨fun hmem => ?_, fun hmem => ?_⟩ fun d hd => ⟨?_, hhead d ?_⟩, rfl, ?_, rfl⟩
      · simpa using hbare _ hmem
      · simpa using hbare _ hmem
      · rintro rfl
        obtain ⟨behind, rfl⟩ := List.head?_eq_some_iff.1 hd
        exact hquote _ rfl
      · rw [List.head?_append, Option.mem_def.1 hd]
        rfl
      · rcases hstop with rfl | rfl
        · exact .inl hc
        · exact .inr hc
  · rintro ⟨value, rfl, hends, rfl⟩
    cases value with
    | quoted text =>
      simp [WrittenValue.written, parseValue, find_quote, WrittenValue.content]
    | bare text hstop hstart =>
      obtain ⟨c, behind, rfl, hc⟩ : ∃ c behind, rest = c :: behind ∧ (c = ',' ∨ c = '}') := by
        rcases hends with hends | hends
        · obtain ⟨behind, rfl⟩ := List.head?_eq_some_iff.1 hends
          exact ⟨_, behind, rfl, .inl rfl⟩
        · obtain ⟨behind, rfl⟩ := List.head?_eq_some_iff.1 hends
          exact ⟨_, behind, rfl, .inr rfl⟩
      have hfind : find (fun c => c = ',' || c = '}') (text ++ c :: behind) = some (text, c :: behind) := by
        refine find_append_cons (fun d hd => ?_) (by simpa using hc) behind
        have hcomma : d ≠ ',' := fun heq => hstop.1 (heq ▸ hd)
        have hbrace : d ≠ '}' := fun heq => hstop.2 (heq ▸ hd)
        simp [hcomma, hbrace]
      -- a bare value starts with no quote, so it is the last branch that reads it
      have hquote : ∀ cursor, text ++ c :: behind ≠ '"' :: cursor := by
        intro cursor heq
        cases text with
        | nil =>
          obtain rfl := (List.cons.inj heq).1
          simp at hc
        | cons d text => exact (hstart d rfl).1 (List.cons.inj heq).1
      have hne : text ++ c :: behind ≠ [] := List.append_ne_nil_of_right_ne_nil _ (List.cons_ne_nil _ _)
      unfold parseValue
      split
      · rename_i hnil
        exact absurd hnil hne
      · rename_i heq
        exact absurd heq (hquote _)
      · simp [WrittenValue.written, hfind, WrittenValue.content]

private theorem parseMember_eq_some_iff {cursor rest : List Char} {key text : String} :
    parseMember cursor = some (key, text, rest) ↔ ∃ (quoted : Unquoted) (beforeColon behindColon : Spaces)
      (value : WrittenValue), cursor = '"' :: (quoted.1 ++ '"' :: (beforeColon.1 ++ ':' :: (behindColon.1 ++
        (value.written ++ rest)))) ∧ value.EndsAt rest ∧ key = String.ofList quoted.1 ∧ text = value.content := by
  simp only [parseMember, bind, Option.bind_eq_some_iff, pure, Option.some.injEq, Prod.exists, Prod.mk.injEq]
  constructor
  · rintro ⟨_, _, hkey, _, _, hvalue, rfl, rfl, rfl⟩
    obtain ⟨quoted, beforeColon, behindColon, rfl, hhead, rfl⟩ := parseKey_eq_some_iff.1 hkey
    obtain ⟨value, rfl, hends, rfl⟩ := (parseValue_eq_some_iff hhead).1 hvalue
    exact ⟨quoted, beforeColon, behindColon, value, rfl, hends, rfl, rfl⟩
  · rintro ⟨quoted, beforeColon, behindColon, value, rfl, hends, rfl, rfl⟩
    have hhead := WrittenValue.head_written hends
    exact ⟨_, _, parseKey_eq_some_iff.2 ⟨quoted, beforeColon, behindColon, rfl, hhead, rfl⟩, _, _,
      (parseValue_eq_some_iff hhead).2 ⟨value, rfl, hends, rfl⟩, rfl, rfl, rfl⟩

/-! ### The loop -/

/-- A pass takes one member off. -/
theorem pass_eq_next_iff {cursor rest : List Char} {fields fields' : StringMap String} :
    pass cursor fields = .next rest fields' ↔ ∃ member : WrittenMember, cursor = member.written ++ rest ∧
      member.value.EndsAt rest ∧ fields' = fields.insertIfNew member.keyText member.value.content := by
  constructor
  · intro h
    obtain ⟨gap, hcursor, hgap, -⟩ := dropWhile_eq_iff.1
      (rfl : cursor.dropWhile (fun c => Decimal.isSpace c || c = ',') = _)
    unfold pass at h
    split at h
    · cases h
    · dsimp only at h
      split at h
      · cases h
      · split at h
        · cases h
        · rename_i hmember
          cases h
          obtain ⟨quoted, beforeColon, behindColon, value, hbehind, hends, rfl, rfl⟩ :=
            parseMember_eq_some_iff.1 hmember
          refine ⟨⟨⟨gap, hgap⟩, quoted, beforeColon, behindColon, value⟩, ?_, hends, rfl⟩
          rw [hbehind] at hcursor
          rw [hcursor]
          simp [WrittenMember.written]
  · rintro ⟨⟨gap, quoted, beforeColon, behindColon, value⟩, rfl, hends, rfl⟩
    have hmember := parseMember_eq_some_iff.2 ⟨quoted, beforeColon, behindColon, value, rfl, hends, rfl, rfl⟩
    have hskip : (gap.1 ++ '"' :: (quoted.1 ++ '"' :: (beforeColon.1 ++ ':' :: (behindColon.1 ++
        (value.written ++ rest))))).dropWhile (fun c => Decimal.isSpace c || c = ',') = _ :=
      dropWhile_append gap.2 (by simp [Decimal.isSpace])
    have htext : WrittenMember.written ⟨gap, quoted, beforeColon, behindColon, value⟩ ++ rest =
        gap.1 ++ '"' :: (quoted.1 ++ '"' :: (beforeColon.1 ++ ':' :: (behindColon.1 ++ (value.written ++ rest)))) := by
      simp [WrittenMember.written]
    rw [htext, pass, hskip, if_neg (by simp; omega), if_neg (by simp), hmember]
    rfl

/-- The loop is over in front of the closing brace. -/
private theorem pass_eq_finished_iff {cursor : List Char} {fields : StringMap String}
    (hlast : cursor.getLast? = some '}') : pass cursor fields = .finished ↔ ∃ gap : Gap, cursor = gap.1 ++ ['}'] := by
  constructor
  · intro h
    obtain ⟨gap, hcursor, hgap, -⟩ := dropWhile_eq_iff.1
      (rfl : cursor.dropWhile (fun c => Decimal.isSpace c || c = ',') = _)
    have hshort : (cursor.dropWhile fun c => Decimal.isSpace c || c = ',').length ≤ 1 := by
      unfold pass at h
      split at h
      · rename_i hshort
        exact (List.dropWhile_suffix _).length_le.trans (not_lt.1 hshort)
      · dsimp only at h
        split at h
        · assumption
        · split at h <;> cases h
    refine ⟨⟨gap, hgap⟩, ?_⟩
    generalize cursor.dropWhile (fun c => Decimal.isSpace c || c = ',') = rest at hcursor hshort
    cases rest with
    | nil =>
      rw [List.append_nil] at hcursor
      exact absurd (hgap '}' (hcursor ▸ List.mem_of_getLast? hlast)) (by decide)
    | cons c rest =>
      obtain rfl : rest = [] := List.eq_nil_of_length_eq_zero (by simpa using hshort)
      rw [hcursor, List.getLast?_concat] at hlast
      cases hlast
      exact hcursor
  · rintro ⟨gap, rfl⟩
    have hskip : (gap.1 ++ ['}']).dropWhile (fun c => Decimal.isSpace c || c = ',') = ['}'] :=
      dropWhile_append gap.2 (by simp [Decimal.isSpace])
    rw [pass, hskip]
    split
    · rfl
    · exact if_pos (le_refl 1)

/-- A member is not the end of a text that ends with a brace. -/
private theorem WrittenMember.ne_nil_of_getLast? {member : WrittenMember} {rest : List Char}
    (hends : member.value.EndsAt rest) (hlast : (member.written ++ rest).getLast? = some '}') : rest ≠ [] := by
  rintro rfl
  obtain ⟨gap, key, beforeColon, behindColon, value⟩ := member
  cases value with
  | quoted text =>
    have hquote : WrittenMember.written ⟨gap, key, beforeColon, behindColon, .quoted text⟩ ++ [] =
        (gap.1 ++ '"' :: (key.1 ++ '"' :: (beforeColon.1 ++ ':' :: (behindColon.1 ++ '"' :: text.1)))) ++ ['"'] := by
      simp [WrittenMember.written, WrittenValue.written]
    rw [hquote, List.getLast?_concat] at hlast
    cases hlast
  | bare text => rcases hends with h | h <;> cases h

/-- Members go up to a closing brace. -/
private theorem Members.getLast?_eq {text : List Char} {members : List WrittenMember} (h : Members text members) :
    text.getLast? = some '}' := by
  induction h with
  | brace gap => rw [List.getLast?_concat]
  | cons member hends hmembers ih => rw [List.getLast?_append, ih, Option.some_or]

/-- The map of the members. -/
def fieldsOf (members : List WrittenMember) (fields : StringMap String) : StringMap String :=
  members.foldl (fun fields member => fields.insertIfNew member.keyText member.value.content) fields

private theorem scan_of_members {text : List Char} {members : List WrittenMember} (h : Members text members)
    {fuel : Nat} (hfuel : text.length < fuel) (fields : StringMap String) :
    scan pass fuel text fields = .done (fieldsOf members fields) := by
  induction h generalizing fuel fields with
  | brace gap =>
    obtain ⟨fuel, rfl⟩ := Nat.exists_eq_succ_of_ne_zero (Nat.ne_zero_of_lt hfuel)
    exact scan_finished ((pass_eq_finished_iff (List.getLast?_concat ..)).2 ⟨gap, rfl⟩) fuel
  | cons member hends hmembers ih =>
    obtain ⟨fuel, rfl⟩ := Nat.exists_eq_succ_of_ne_zero (Nat.ne_zero_of_lt hfuel)
    have hpass : pass _ fields = .next _ _ := pass_eq_next_iff.2 ⟨member, rfl, hends, rfl⟩
    have hlt := advances_pass hpass
    rw [scan_next hpass]
    exact ih (by omega) _

private theorem members_of_scan {fuel : Nat} {text : List Char} {fields fields' : StringMap String}
    (hlast : text.getLast? = some '}') (h : scan pass fuel text fields = .done fields') :
    ∃ members, Members text members ∧ fields' = fieldsOf members fields := by
  induction fuel generalizing text fields with
  | zero => cases h
  | succ fuel ih =>
    rw [scan] at h
    split at h
    · cases h
    · rename_i hfinished
      cases h
      obtain ⟨gap, rfl⟩ := (pass_eq_finished_iff hlast).1 hfinished
      exact ⟨[], .brace gap, rfl⟩
    · rename_i hnext
      obtain ⟨member, rfl, hends, rfl⟩ := pass_eq_next_iff.1 hnext
      have hne := member.ne_nil_of_getLast? hends hlast
      rw [List.getLast?_append_of_ne_nil _ hne] at hlast
      obtain ⟨members, hmembers, rfl⟩ := ih hlast h
      exact ⟨member :: members, .cons member hends hmembers, rfl⟩

/-- A line is read exactly if it holds members, and as the map of these. -/
theorem result?_parseFlatJsonObject_iff {line : String} {fields : StringMap String} :
    (parseFlatJsonObject line.length line).result? = some fields ↔
      ∃ members, Holds line members ∧ fields = fieldsOf members ∅ := by
  rw [parseFlatJsonObject]
  constructor
  · intro h
    split at h
    · cases h
    · split at h
      · cases h
      · rename_i hbraces
        rw [not_or, not_not, not_not] at hbraces
        obtain ⟨text, htext⟩ := List.head?_eq_some_iff.1 hbraces.1
        rw [htext, List.tail_cons] at h
        have hlast : text.getLast? = some '}' := by
          have hlast := hbraces.2
          cases text with
          | nil =>
            rw [htext] at hlast
            cases hlast
          | cons c text => rwa [htext, List.getLast?_cons_cons] at hlast
        obtain ⟨members, hmembers, hfields⟩ := members_of_scan hlast (Outcome.result?_eq_some_iff.1 h)
        exact ⟨members, ⟨text, htext, hmembers⟩, hfields⟩
  · rintro ⟨members, ⟨text, htext, hmembers⟩, rfl⟩
    have hlast := hmembers.getLast?_eq
    have hne : text ≠ [] := by
      rintro rfl
      cases hlast
    have hlength := length_trim_le isBlank line.toList
    rw [htext, List.length_cons, String.length_toList] at hlength
    have hbraces : ¬(('{' :: text).head? ≠ some '{' ∨ ('{' :: text).getLast? ≠ some '}') := by
      rw [← List.singleton_append, List.getLast?_append_of_ne_nil _ hne, hlast]
      simp
    rw [htext, if_neg (List.cons_ne_nil _ _), if_neg hbraces, List.tail_cons, scan_of_members hmembers (by omega)]
    rfl

private theorem getElem?_fieldsOf (members : List WrittenMember) (key : String) :
    (fieldsOf members ∅)[key]? = memberText members key := by
  rw [fieldsOf, KeyedMap.getElem?_foldl_insertIfNew, Std.ExtTreeMap.getElem?_empty, Option.none_or, memberText]

/-- A line is read exactly if it holds members, and by their texts. -/
theorem forall_parseFlatJsonObject_iff {line : String} (P : (String → Option String) → Prop) :
    (∀ fields, (parseFlatJsonObject line.length line).result? = some fields → P (fields[·]?)) ↔
      ∀ members, Holds line members → P (memberText members) := by
  simp only [result?_parseFlatJsonObject_iff]
  constructor
  · intro h members hmembers
    have htexts : ((fieldsOf members ∅)[·]?) = memberText members := funext (getElem?_fieldsOf members)
    exact htexts ▸ h _ ⟨members, hmembers, rfl⟩
  · rintro h fields ⟨members, hmembers, rfl⟩
    have htexts : ((fieldsOf members ∅)[·]?) = memberText members := funext (getElem?_fieldsOf members)
    exact htexts ▸ h members hmembers

end TransactionPublisher

end Wall
