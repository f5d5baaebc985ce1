import Wall.TransactionPublisher
import Wall.Lib.KeyedMap
import Wall.Lib.Numeral

/-!
# Flat JSON objects

What a flat object is, how it is written down with white space around its tokens, and that `parse_flat_json_object`
reads back what was written: a pass at a member that still has commas and white space before it takes this member off
(`pass_written`), so the loop ends with the map of all members (`scan_written`).
-/

namespace Wall

open Cursor TransactionPublisher

namespace FlatJson

/-- Spaces, tabs and line breaks. -/
abbrev Blanks := {text : List Char // text.all isBlank = true}

/-- A text without double quotes and backslashes. -/
abbrev PlainText := {text : String // '"' ∉ text.toList ∧ '\\' ∉ text.toList}

def isNumberChar (c : Char) : Bool := c.isDigit || c ∈ ['-', '+', '.', 'e', 'E']

/-- A text of the characters of numbers; every number of JSON is one. -/
abbrev NumberLiteral := {text : String // text ≠ "" ∧ text.toList.all isNumberChar = true}

inductive Value
  | text (content : PlainText)
  | number (literal : NumberLiteral)
  | null

def Value.content : Value → String
  | text content => content
  | number literal => literal
  | null => "null"

def Value.written : Value → List Char
  | text content => '"' :: (content.1.toList ++ ['"'])
  | number literal => literal.1.toList
  | null => "null".toList

/-- A member of an object, with the white space around its tokens. -/
structure Member where
  key : PlainText
  value : Value
  beforeKey : Blanks
  afterKey : Blanks
  beforeValue : Blanks
  afterValue : Blanks

def Member.written (member : Member) : List Char :=
  member.beforeKey.1 ++ '"' :: (member.key.1.toList ++ '"' :: (member.afterKey.1 ++ ':' :: (member.beforeValue.1 ++
    (member.value.written ++ member.afterValue.1))))

/-- An object with distinct keys, with the white space around it and behind its opening brace. -/
structure FlatObject where
  members : List Member
  before : Blanks
  inside : Blanks
  behind : Blanks
  nodup_keys : (members.map fun member => member.key.1).Nodup

namespace FlatObject

def json (object : FlatObject) : List Char :=
  '{' :: (object.inside.1 ++ ([','].intercalate (object.members.map Member.written) ++ ['}']))

/-- The line that the object is written on. -/
def line (object : FlatObject) : String := String.ofList (object.before.1 ++ (object.json ++ object.behind.1))

def Binds (object : FlatObject) (key text : String) : Prop :=
  ∃ member ∈ object.members, member.key.1 = key ∧ member.value.content = text

end FlatObject

/-! ### Members -/

private theorem isBlank_of_mem (blanks : Blanks) {c : Char} (h : c ∈ blanks.1) : isBlank c = true :=
  List.all_eq_true.1 blanks.2 c h

private theorem isSpace_of_isBlank {c : Char} (h : isBlank c = true) : Decimal.isSpace c = true := by
  simp only [isBlank, Bool.or_eq_true, decide_eq_true_eq] at h
  rcases h with ((rfl | rfl) | rfl) | rfl <;> decide

private theorem dropWhile_isSpace (blanks : Blanks) {c : Char} (hc : Decimal.isSpace c = false) (rest : List Char) :
    (blanks.1 ++ c :: rest).dropWhile Decimal.isSpace = c :: rest :=
  dropWhile_append (fun d hd => isSpace_of_isBlank (isBlank_of_mem blanks hd)) (by simpa using hc)

theorem find_quote (text : PlainText) (rest : List Char) :
    find (· = '"') (text.1.toList ++ '"' :: rest) = some (text.1.toList, '"' :: rest) :=
  find_append_cons (fun c hc => decide_eq_false fun heq : c = '"' => text.2.1 (heq ▸ hc)) rfl rest

private theorem parseKey_written (key : PlainText) (afterKey beforeValue : Blanks) {c : Char}
    (hc : Decimal.isSpace c = false) (rest : List Char) :
    parseKey ('"' :: (key.1.toList ++ '"' :: (afterKey.1 ++ ':' :: (beforeValue.1 ++ c :: rest)))) =
      some (key.1, c :: rest) := by
  rw [parseKey, find_quote]
  simp only [bind, Option.bind_some, List.tail_cons]
  rw [dropWhile_isSpace afterKey (by decide)]
  simp only [dropWhile_isSpace beforeValue hc, String.ofList_toList, pure]

private theorem parseValue_cons {c : Char} (hc : c ≠ '"') (cursor : List Char) :
    parseValue (c :: cursor) = (find (fun c => c = ',' || c = '}') (c :: cursor)).map fun found =>
      (String.ofList (trim isBlank found.1), found.2) := by
  unfold parseValue
  split
  · rename_i heq
    cases heq
  · rename_i heq
    exact absurd (List.cons.inj heq).1 hc
  · cases find (fun c => c = ',' || c = '}') (c :: cursor) <;> rfl

/-- A value that is not a string is read up to the next comma or brace. -/
private theorem parseValue_literal {literal : List Char} (hne : literal ≠ [])
    (hliteral : ∀ c ∈ literal, isBlank c = false ∧ c ∉ ['"', ',', '}']) (blanks : Blanks) {c : Char}
    (hc : c = ',' ∨ c = '}') (rest : List Char) :
    parseValue (literal ++ (blanks.1 ++ c :: rest)) = some (String.ofList literal, c :: rest) := by
  have htrim : trim isBlank (literal ++ blanks.1) = literal :=
    trim_append (List.forall_mem_nil _) (fun _ => isBlank_of_mem blanks)
      (fun d hd => (hliteral d (List.mem_of_mem_head? hd)).1)
      (fun d hd => (hliteral d (List.mem_of_getLast? hd)).1) hne
  have hfind : find (fun c => c = ',' || c = '}') ((literal ++ blanks.1) ++ c :: rest) =
      some (literal ++ blanks.1, c :: rest) := by
    refine find_append_cons ?_ (by simpa using hc) rest
    intro d hd
    rcases List.mem_append.1 hd with hd | hd
    · have hstop := (hliteral d hd).2
      simp only [List.mem_cons, List.not_mem_nil, or_false, not_or] at hstop
      simp [hstop]
    · have hblank := isBlank_of_mem blanks hd
      simp only [isBlank, Bool.or_eq_true, decide_eq_true_eq] at hblank
      rcases hblank with ((rfl | rfl) | rfl) | rfl <;> decide
  obtain ⟨d, literal', rfl⟩ := List.exists_cons_of_ne_nil hne
  have hquote : d ≠ '"' := fun heq => (hliteral d (List.mem_cons_self ..)).2 (by simp [heq])
  rw [List.cons_append, parseValue_cons hquote, ← List.cons_append, ← List.append_assoc, hfind, Option.map_some, htrim]

/-- A number or `null` has no white space, quote, comma or brace. -/
private theorem literal_of_isNumberChar {literal : List Char} (h : ∀ c ∈ literal, isNumberChar c = true) :
    ∀ c ∈ literal, isBlank c = false ∧ c ∉ ['"', ',', '}'] := by
  intro c hc
  have hnumber := h c hc
  constructor
  · rw [Bool.eq_false_iff]
    intro hblank
    simp only [isBlank, Bool.or_eq_true, decide_eq_true_eq] at hblank
    rcases hblank with ((rfl | rfl) | rfl) | rfl <;> exact absurd hnumber (by decide)
  · intro hmem
    simp only [List.mem_cons, List.not_mem_nil, or_false] at hmem
    rcases hmem with rfl | rfl | rfl <;> exact absurd hnumber (by decide)

/-- A value is read, and with it at most the white space behind it. -/
private theorem parseValue_written (value : Value) (blanks : Blanks) {c : Char} (hc : c = ',' ∨ c = '}')
    (rest : List Char) : ∃ skipped : Blanks, parseValue (value.written ++ (blanks.1 ++ c :: rest)) =
      some (value.content, skipped.1 ++ c :: rest) := by
  cases value with
  | text content =>
    refine ⟨blanks, ?_⟩
    rw [Value.written, List.cons_append, List.append_assoc, List.singleton_append, parseValue, find_quote]
    simp [bind, Value.content]
  | number literal =>
    refine ⟨⟨[], by simp⟩, ?_⟩
    have hne : literal.1.toList ≠ [] := fun h => literal.2.1 (String.toList_eq_nil_iff.1 h)
    have hliteral := literal_of_isNumberChar (List.all_eq_true.1 literal.2.2)
    rw [Value.written, parseValue_literal hne hliteral blanks hc, String.ofList_toList]
    rfl
  | null =>
    refine ⟨⟨[], by simp⟩, ?_⟩
    have hnull : ∀ c ∈ "null".toList, isBlank c = false ∧ c ∉ ['"', ',', '}'] := by simp [isBlank]
    rw [Value.written, parseValue_literal (by simp) hnull blanks hc]
    rfl

theorem head_written (value : Value) : ∃ c rest, value.written = c :: rest ∧ Decimal.isSpace c = false := by
  cases value with
  | text content => exact ⟨'"', _, rfl, by decide⟩
  | number literal =>
    have hne : literal.1.toList ≠ [] := fun h => literal.2.1 (String.toList_eq_nil_iff.1 h)
    obtain ⟨c, rest, heq⟩ := List.exists_cons_of_ne_nil hne
    have hnumber : isNumberChar c = true := List.all_eq_true.1 literal.2.2 c (heq ▸ List.mem_cons_self ..)
    refine ⟨c, rest, heq, ?_⟩
    rcases Bool.or_eq_true_iff.1 hnumber with hdigit | hmem
    · exact Decimal.not_isSpace_of_digit hdigit
    · simp only [List.mem_cons, List.not_mem_nil, or_false, decide_eq_true_eq] at hmem
      rcases hmem with rfl | rfl | rfl | rfl | rfl <;> decide
  | null => exact ⟨'n', _, rfl, by decide⟩

/-- A pass at a member, of which the separators before it are skipped, reads the member. -/
theorem pass_written (member : Member) {skipped : List Char}
    (hskipped : ∀ c ∈ skipped, (Decimal.isSpace c || c = ',') = true) {c : Char} (hc : c = ',' ∨ c = '}')
    (rest : List Char) (fields : StringMap String) :
    ∃ blanks : Blanks, pass (skipped ++ (member.written ++ c :: rest)) fields =
      .next (blanks.1 ++ c :: rest) (fields.insertIfNew member.key.1 member.value.content) := by
  obtain ⟨blanks, hvalue⟩ := parseValue_written member.value member.afterValue hc rest
  obtain ⟨d, behind, hhead, hd⟩ := head_written member.value
  -- the cursor at the key
  let cursor := '"' :: (member.key.1.toList ++ '"' :: (member.afterKey.1 ++ ':' :: (member.beforeValue.1 ++
    (member.value.written ++ (member.afterValue.1 ++ c :: rest)))))
  have hmember : parseMember cursor = some (member.key.1, member.value.content, blanks.1 ++ c :: rest) := by
    have hkey : parseKey cursor =
        some (member.key.1, member.value.written ++ (member.afterValue.1 ++ c :: rest)) := by
      simp only [cursor, hhead, List.cons_append]
      exact parseKey_written member.key member.afterKey member.beforeValue hd _
    rw [parseMember, hkey]
    simp only [bind, Option.bind_some, hvalue, pure]
  have htext : skipped ++ (member.written ++ c :: rest) = (skipped ++ member.beforeKey.1) ++ cursor := by
    simp [Member.written, cursor]
  have hskip : ((skipped ++ member.beforeKey.1) ++ cursor).dropWhile (fun c => Decimal.isSpace c || c = ',') =
      cursor := by
    refine dropWhile_append ?_ (by simp [cursor, Decimal.isSpace])
    intro e he
    rcases List.mem_append.1 he with he | he
    · exact hskipped e he
    · simp [isSpace_of_isBlank (isBlank_of_mem member.beforeKey he)]
  have hlong : 1 < cursor.length := by simp [cursor]
  refine ⟨blanks, ?_⟩
  rw [TransactionPublisher.pass, htext, hskip, if_neg (by simp; omega), if_neg (by omega), hmember]

/-- At the closing brace, with separators before it, the loop is over. -/
private theorem pass_brace {skipped : List Char} (hskipped : ∀ c ∈ skipped, (Decimal.isSpace c || c = ',') = true)
    (fields : StringMap String) : pass (skipped ++ ['}']) fields = .finished := by
  have hskip : (skipped ++ ['}']).dropWhile (fun c => Decimal.isSpace c || c = ',') = ['}'] :=
    dropWhile_append hskipped (by simp [Decimal.isSpace])
  rw [TransactionPublisher.pass, hskip]
  split
  · rfl
  · exact if_pos (le_refl 1)

/-- From separators and members up to the closing brace the loop collects the members. -/
theorem scan_written (members : List Member) {skipped : List Char}
    (hskipped : ∀ c ∈ skipped, (Decimal.isSpace c || c = ',') = true) {fuel : Nat} (hfuel : members.length < fuel)
    (fields : StringMap String) :
    scan pass fuel (skipped ++ ([','].intercalate (members.map Member.written) ++ ['}'])) fields =
      .done (members.foldl (fun fields member => fields.insertIfNew member.key.1 member.value.content) fields) := by
  induction members generalizing skipped fuel fields with
  | nil =>
    obtain ⟨fuel, rfl⟩ := Nat.exists_eq_succ_of_ne_zero (Nat.pos_iff_ne_zero.1 hfuel)
    exact scan_finished (pass_brace hskipped fields) fuel
  | cons member members ih =>
    obtain ⟨fuel, rfl⟩ := Nat.exists_eq_succ_of_ne_zero (Nat.ne_zero_of_lt hfuel)
    rw [List.length_cons, Nat.succ_lt_succ_iff] at hfuel
    have hblanks : ∀ blanks : Blanks, ∀ c ∈ blanks.1, (Decimal.isSpace c || c = ',') = true := by
      intro blanks c hc
      rw [isSpace_of_isBlank (isBlank_of_mem blanks hc)]
      rfl
    cases members with
    | nil =>
      obtain ⟨blanks, hpass⟩ := pass_written member hskipped (.inr rfl) [] fields
      rw [List.map_singleton, List.intercalate_singleton, scan_next hpass]
      exact ih (hblanks blanks) hfuel _
    | cons next members =>
      obtain ⟨blanks, hpass⟩ := pass_written member hskipped (.inl rfl)
        ([','].intercalate ((next :: members).map Member.written) ++ ['}']) fields
      rw [List.map_cons, List.map_cons, List.intercalate_cons_cons, List.append_assoc, List.append_assoc,
        List.singleton_append, ← List.map_cons, scan_next hpass, List.foldl_cons, ← List.singleton_append,
        ← List.append_assoc]
      refine ih ?_ hfuel _
      intro c hc
      rcases List.mem_append.1 hc with hc | hc
      · exact hblanks blanks c hc
      · simp [List.mem_singleton.1 hc]

private theorem length_le_intercalate (members : List Member) :
    members.length ≤ ([','].intercalate (members.map Member.written)).length := by
  induction members with
  | nil => exact Nat.zero_le _
  | cons member members ih =>
    have hpos : 0 < member.written.length := by
      rw [Member.written, List.length_append, List.length_cons]
      omega
    cases members with
    | nil =>
      rw [List.map_singleton, List.intercalate_singleton]
      exact hpos
    | cons next members =>
      rw [List.map_cons, List.map_cons, List.intercalate_cons_cons, ← List.map_cons, List.length_append,
        List.length_append, List.length_singleton, List.length_cons]
      omega

/-! ### Objects -/

private theorem trim_line (object : FlatObject) : trim isBlank object.line.toList = object.json := by
  rw [FlatObject.line, String.toList_ofList]
  refine trim_append (fun _ => isBlank_of_mem object.before) (fun _ => isBlank_of_mem object.behind)
    (by simp [FlatObject.json, isBlank]) ?_ (List.cons_ne_nil _ _)
  rw [FlatObject.json, ← List.append_assoc, ← List.cons_append, List.getLast?_concat]
  simp [isBlank]

/-- The map of an object: the text of each member under its key. -/
def FlatObject.fields (object : FlatObject) : StringMap String :=
  object.members.foldl (fun fields member => fields.insertIfNew member.key.1 member.value.content) ∅

private theorem getElem?_fields (object : FlatObject) (key text : String) :
    object.fields[key]? = some text ↔ object.Binds key text := by
  rw [FlatObject.fields, KeyedMap.getElem?_foldl_insertIfNew, Std.ExtTreeMap.getElem?_empty, Option.none_or,
    Option.map_eq_some_iff]
  simp only [KeyedMap.find?_eq_some_iff_of_nodup object.nodup_keys]
  exact ⟨fun ⟨member, ⟨hmember, hkey⟩, htext⟩ => ⟨member, hmember, hkey, htext⟩,
    fun ⟨member, hmember, hkey, htext⟩ => ⟨member, ⟨hmember, hkey⟩, htext⟩⟩

/-- A line is read as the map of the object that is written on it. -/
private theorem parseFlatJsonObject_line (object : FlatObject) {fuel : Nat} (hfuel : object.line.length ≤ fuel) :
    parseFlatJsonObject fuel object.line = .done object.fields := by
  have hlength : object.members.length < fuel := by
    have hline : object.json.length ≤ object.line.toList.length := trim_line object ▸ length_trim_le isBlank _
    have hmembers := length_le_intercalate object.members
    rw [String.length_toList] at hline
    simp only [FlatObject.json, List.length_cons, List.length_append] at hline
    omega
  have hlast : object.json.getLast? = some '}' := by
    rw [FlatObject.json, ← List.append_assoc, ← List.cons_append, List.getLast?_concat]
  have hinside : ∀ c ∈ object.inside.1, (Decimal.isSpace c || c = ',') = true := by
    intro c hc
    rw [isSpace_of_isBlank (isBlank_of_mem object.inside hc)]
    rfl
  have hne : object.json ≠ [] := List.cons_ne_nil _ _
  have hbraces : ¬(object.json.head? ≠ some '{' ∨ object.json.getLast? ≠ some '}') := by
    rw [hlast]
    simp [FlatObject.json]
  rw [parseFlatJsonObject, trim_line, if_neg hne, if_neg hbraces]
  exact scan_written object.members hinside hlength ∅

/-- What the price of an object is read as: nothing if it is missing, empty or null. -/
def FlatObject.PriceIs (stod : String → Option ℚ) (object : FlatObject) : Option ℚ → Prop
  | none => ∀ text, object.Binds "price" text → text = "" ∨ text = "null"
  | some price => ∃ text, object.Binds "price" text ∧ text ≠ "" ∧ text ≠ "null" ∧ stod text = some price

private theorem parsePrice_fields {stod : String → Option ℚ} {object : FlatObject} {price : Option ℚ}
    (h : object.PriceIs stod price) : parsePrice stod object.fields = some price := by
  cases price with
  | none =>
    cases htext : object.fields["price"]? with
    | none => rw [parsePrice, htext]
    | some text =>
      have hmissing := h text ((getElem?_fields object _ _).1 htext)
      simp only [parsePrice, htext, if_pos hmissing]
  | some price =>
    obtain ⟨text, hbinds, hempty, hnull, hstod⟩ := h
    have htext := (getElem?_fields object _ _).2 hbinds
    simp [parsePrice, htext, hempty, hnull, hstod]

/-- The loop of `parse_flat_json_object` ends on every line.  The line of a flat object is read as the map of its
members, and as a command if the object has the six keys of one, a quantity that is a number, and a price that is a
number, empty, null or missing. -/
theorem flat_objects_parsed (stod : String → Option ℚ) :
    (∀ line fuel, line.length ≤ fuel → parseFlatJsonObject fuel line ≠ .outOfFuel) ∧
      ∀ object : FlatObject,
        (∀ fuel, object.line.length ≤ fuel → ∃ fields, parseFlatJsonObject fuel object.line = .done fields ∧
          ∀ key text, fields[key]? = some text ↔ object.Binds key text) ∧
        ∀ transactionId userId accountId commandType instrumentSymbol quantityText quantity price,
          object.Binds "transaction_id" transactionId → object.Binds "user_id" userId →
          object.Binds "account_id" accountId → object.Binds "command_type" commandType →
          object.Binds "instrument_symbol" instrumentSymbol → object.Binds "quantity" quantityText →
          stod quantityText = some quantity → object.PriceIs stod price →
          parseJsonTransactionCommandLine stod object.line = some {
            transactionId := transactionId
            userId := userId
            accountId := accountId
            commandType := commandType
            instrumentSymbol := instrumentSymbol
            quantity := quantity
            price := price } := by
  refine ⟨fun line fuel => parseFlatJsonObject_ne_outOfFuel, fun object => ⟨fun fuel hfuel => ?_, ?_⟩⟩
  · exact ⟨object.fields, parseFlatJsonObject_line object hfuel, getElem?_fields object⟩
  · intro transactionId userId accountId commandType instrumentSymbol quantityText quantity price hid huser haccount
      htype hsymbol hquantity hstod hprice
    rw [← getElem?_fields] at hid huser haccount htype hsymbol hquantity
    rw [parseJsonTransactionCommandLine, parseFlatJsonObject_line object (le_refl _)]
    simp [Outcome.result?, commandOf, hid, huser, haccount, htype, hsymbol, hquantity, hstod,
      parsePrice_fields hprice]

def noBlanks : Blanks := ⟨[], by decide⟩

def exampleMember (key : PlainText) (value : Value) : Member where
  key := key
  value := value
  beforeKey := ⟨['\n', '\t'], by decide⟩
  afterKey := noBlanks
  beforeValue := ⟨[' '], by decide⟩
  afterValue := ⟨[' '], by decide⟩

def exampleObject : FlatObject where
  members := [
    exampleMember ⟨"quantity", by decide⟩ (.number ⟨"125e-2", by decide⟩),
    exampleMember ⟨"price", by decide⟩ .null,
    exampleMember ⟨"transaction_id", by decide⟩ (.text ⟨"tx-2001", by decide⟩),
    exampleMember ⟨"user_id", by decide⟩ (.text ⟨"user {9}, : 9", by decide⟩),
    exampleMember ⟨"account_id", by decide⟩ (.text ⟨"account-9", by decide⟩),
    exampleMember ⟨"command_type", by decide⟩ (.text ⟨"place_order", by decide⟩),
    exampleMember ⟨"instrument_symbol", by decide⟩ (.text ⟨"ETHUSDT", by decide⟩)]
  before := noBlanks
  inside := noBlanks
  behind := ⟨['\r'], by decide⟩
  nodup_keys := by decide

theorem flat_objects_parsed_exampleObject :
    parseJsonTransactionCommandLine Numeral.value exampleObject.line = some {
      transactionId := "tx-2001"
      userId := "user {9}, : 9"
      accountId := "account-9"
      commandType := "place_order"
      instrumentSymbol := "ETHUSDT"
      quantity := 5 / 4
      price := none } := by
  refine ((flat_objects_parsed Numeral.value).2 exampleObject).2 _ _ _ _ _ "125e-2" (5 / 4) none ?_ ?_ ?_ ?_ ?_ ?_
    (by decide +kernel) ?_
  · exact ⟨exampleObject.members[2], by simp [exampleObject], rfl, rfl⟩
  · exact ⟨exampleObject.members[3], by simp [exampleObject], rfl, rfl⟩
  · exact ⟨exampleObject.members[4], by simp [exampleObject], rfl, rfl⟩
  · exact ⟨exampleObject.members[5], by simp [exampleObject], rfl, rfl⟩
  · exact ⟨exampleObject.members[6], by simp [exampleObject], rfl, rfl⟩
  · exact ⟨exampleObject.members[0], by simp [exampleObject], rfl, rfl⟩
  · rintro text ⟨member, hmember, hkey, rfl⟩
    simp only [exampleObject, List.mem_cons, List.not_mem_nil, or_false] at hmember
    rcases hmember with rfl | rfl | rfl | rfl | rfl | rfl | rfl
    all_goals first | exact .inr rfl | exact absurd hkey (by decide)

end FlatJson

end Wall
