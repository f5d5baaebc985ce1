import Wall.Types
import Wall.Lib.Cursor
import Wall.Lib.Decimal

/-!
# Reading JSON lines

`parse_json_transaction_command_line` of `app/transaction_publisher_application.cpp`.  The cursor of
`parse_flat_json_object` is given by the characters of `json` from it on: `cursor + 1 < json.size()` says that there
are at least two, and `std::string::npos` is `none`.  The loop runs on fuel, of which it needs no more than the line
has characters (`parseFlatJsonObject_ne_outOfFuel`).  `stod` stands for `std::stod`, none where it throws.
-/

namespace Wall

namespace TransactionPublisher

open Cursor

/-- The characters `" \t\r\n"` that `trim` takes off. -/
def isBlank (c : Char) : Bool := c = ' ' || c = '\t' || c = '\r' || c = '\n'

/-- The key that starts at the cursor, and the cursor at the value behind the colon. -/
def parseKey : List Char → Option (String × List Char)
  | '"' :: cursor => do
    let (key, cursor) ← find (· = '"') cursor
    match cursor.tail.dropWhile Decimal.isSpace with
    | ':' :: cursor => return (String.ofList key, cursor.dropWhile Decimal.isSpace)
    | _ => none
  | _ => none

/-- The text of the value that starts at the cursor, and the cursor behind it. -/
def parseValue : List Char → Option (String × List Char)
  | [] => none
  | '"' :: cursor => do
    let (value, cursor) ← find (· = '"') cursor
    return (String.ofList value, cursor.tail)
  | cursor => do
    let (value, cursor) ← find (fun c => c = ',' || c = '}') cursor
    return (String.ofList (trim isBlank value), cursor)

/-- The key and the value of the member at the cursor, and the cursor behind it. -/
def parseMember (cursor : List Char) : Option (String × String × List Char) := do
  let (key, cursor) ← parseKey cursor
  let (value, cursor) ← parseValue cursor
  return (key, value, cursor)

/-- One pass of the loop: the first value of a key is kept. -/
def pass (cursor : List Char) (fields : StringMap String) : Pass Char (StringMap String) :=
  if ¬1 < cursor.length then .finished
  else
    let cursor := cursor.dropWhile fun c => Decimal.isSpace c || c = ','
    if cursor.length ≤ 1 then .finished
    else
      match parseMember cursor with
      | none => .malformed
      | some (key, value, cursor) => .next cursor (fields.insertIfNew key value)

def parseFlatJsonObject (fuel : Nat) (line : String) : Outcome (StringMap String) :=
  let json := trim isBlank line.toList
  if json = [] then .malformed
  else if json.head? ≠ some '{' ∨ json.getLast? ≠ some '}' then .malformed
  else scan pass fuel json.tail ∅

/-- The price of a line, which may be missing, empty or null. -/
def parsePrice (stod : String → Option ℚ) (fields : StringMap String) : Option (Option ℚ) :=
  match fields["price"]? with
  | none => some none
  | some priceText => if priceText = "" ∨ priceText = "null" then some none else (stod priceText).map some

def commandOf (stod : String → Option ℚ) (fields : StringMap String) : Option TransactionCommand := do
  let transactionId ← fields["transaction_id"]?
  let userId ← fields["user_id"]?
  let accountId ← fields["account_id"]?
  let commandType ← fields["command_type"]?
  let instrumentSymbol ← fields["instrument_symbol"]?
  let quantityText ← fields["quantity"]?
  let quantity ← stod quantityText
  let price ← parsePrice stod fields
  return {
    transactionId := transactionId
    userId := userId
    accountId := accountId
    commandType := commandType
    instrumentSymbol := instrumentSymbol
    quantity := quantity
    price := price }

def parseJsonTransactionCommandLine (stod : String → Option ℚ) (line : String) : Option TransactionCommand := do
  let fields ← (parseFlatJsonObject line.length line).result?
  commandOf stod fields

/-! ### Every pass moves the cursor on -/

private theorem length_of_parseKey {cursor cursor' : List Char} {key : String}
    (h : parseKey cursor = some (key, cursor')) : cursor'.length < cursor.length := by
  unfold parseKey at h
  split at h
  · rename_i cursor
    obtain ⟨⟨before, rest⟩, hfind, h⟩ := Option.bind_eq_some_iff.1 h
    have hlength := (length_of_find hfind).2
    dsimp only at h
    split at h
    · rename_i behind hcolon
      cases h
      have hspace := (List.dropWhile_suffix (l := rest.tail) Decimal.isSpace).length_le
      have hspace' := (List.dropWhile_suffix (l := behind) Decimal.isSpace).length_le
      have htail := List.length_tail (l := rest)
      rw [hcolon, List.length_cons] at hspace
      rw [List.length_cons]
      omega
    · cases h
  · cases h

private theorem length_of_parseValue {cursor cursor' : List Char} {value : String}
    (h : parseValue cursor = some (value, cursor')) : cursor'.length ≤ cursor.length := by
  unfold parseValue at h
  split at h
  · cases h
  · obtain ⟨⟨before, rest⟩, hfind, h⟩ := Option.bind_eq_some_iff.1 h
    have hlength := (length_of_find hfind).2
    have htail := List.length_tail (l := rest)
    cases h
    rw [List.length_cons]
    omega
  · obtain ⟨⟨before, rest⟩, hfind, h⟩ := Option.bind_eq_some_iff.1 h
    have hlength := (length_of_find hfind).2
    cases h
    exact hlength

private theorem length_of_parseMember {cursor cursor' : List Char} {key value : String}
    (h : parseMember cursor = some (key, value, cursor')) : cursor'.length < cursor.length := by
  simp only [parseMember, bind, Option.bind_eq_some_iff, pure, Option.some.injEq] at h
  obtain ⟨⟨key', behind⟩, hkey, ⟨value', rest⟩, hvalue, h⟩ := h
  cases h
  exact lt_of_le_of_lt (length_of_parseValue hvalue) (length_of_parseKey hkey)

theorem advances_pass : Advances pass := by
  intro cursor fields cursor' fields' h
  unfold pass at h
  split at h
  · cases h
  · dsimp only at h
    split at h
    · cases h
    · split at h
      · cases h
      · rename_i hmember
        cases h
        exact (length_of_parseMember hmember).trans_le (List.dropWhile_suffix _).length_le

theorem length_trim_le (p : Char → Bool) (text : List Char) : (trim p text).length ≤ text.length :=
  ((List.rdropWhile_prefix p _).length_le).trans (List.dropWhile_suffix p).length_le

/-- The loop ends within as many passes as the line has characters. -/
theorem parseFlatJsonObject_ne_outOfFuel {fuel : Nat} {line : String} (h : line.length ≤ fuel) :
    parseFlatJsonObject fuel line ≠ .outOfFuel := by
  unfold parseFlatJsonObject
  dsimp only
  split
  · exact fun h => nomatch h
  · rename_i hne
    split
    · exact fun h => nomatch h
    · have htrim := length_trim_le isBlank line.toList
      have hpos := List.length_pos_of_ne_nil hne
      have htail := List.length_tail (l := trim isBlank line.toList)
      rw [← String.length_toList] at h
      exact scan_ne_outOfFuel advances_pass (by omega) ∅

end TransactionPublisher

end Wall
