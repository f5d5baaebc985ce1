import Wall.ReplayService
import Wall.Lib.Cursor

/-!
# The market data adapter

`MockExchangeMarketDataAdapter` of `exchange/exchange_market_data_adapter.cpp`: a payload of `key=value` segments
between semicolons is made into a market event or an error.  The cursor of `parse_fields`, its `segment_start`, is given
by the characters of the payload from it on, and `std::string::npos` is `none`.  `stod` stands for `std::stod`, none
where it throws.
-/

namespace Wall

open Cursor

inductive ExchangeAdapterErrorCode
  | malformedPayload
  | missingRequiredField
  | invalidNumericField
  | unsupportedMessageType
  | symbolMismatch
  | rejectedByExchange
  | transportFailure
  | unknown
  deriving DecidableEq, Inhabited, Repr

structure ExchangeAdapterError where
  code : ExchangeAdapterErrorCode := .unknown
  message : String := ""
  retryable : Bool := false
  deriving DecidableEq, Inhabited, Repr

structure MockExchangeMarketDataAdapter where
  instrument : Instrument
  stod : String → Option ℚ

namespace MockExchangeMarketDataAdapter

/-- The token at the cursor, and the cursor behind its semicolon. -/
def segment (cursor : List Char) : List Char × List Char :=
  match find (· = ';') cursor with
  | none => (cursor, [])
  | some (token, rest) => (token, rest.tail)

/-- One pass of the loop: the first value of a key is kept. -/
def pass (cursor : List Char) (fields : StringMap String) : Pass Char (StringMap String) :=
  if cursor = [] then .finished
  else
    let (token, next) := segment cursor
    if token = [] then .next next fields
    else
      match find (· = '=') token with
      | none => .malformed
      | some (key, rest) =>
        if key = [] ∨ rest.tail = [] then .malformed
        else .next next (fields.insertIfNew (String.ofList key) (String.ofList rest.tail))

def parseFields (fuel : Nat) (rawPayload : String) : Outcome (StringMap String) := scan pass fuel rawPayload.toList ∅

/-- A required integer field, none where it is missing or `std::stoll` throws. -/
def parseInt64 (fields : StringMap String) (key : String) : Option Int := do
  let text ← fields[key]?
  stoll text

/-- An optional number, none where `parse_error` is set. -/
def parseOptionalDouble (adapter : MockExchangeMarketDataAdapter) (fields : StringMap String) (key : String) :
    Option (Option ℚ) :=
  match fields[key]? with
  | none => some none
  | some text => (adapter.stod text).map some

/-- The message types that are supported. -/
def eventType (type : String) : Option MarketEventType :=
  if type = "trade" then some .trade
  else if type = "ticker" then some .ticker
  else if type = "book_snapshot" then some .bookSnapshot
  else none

/-- The value, or an error that is not retryable. -/
def require {α : Type} (value : Option α) (code : ExchangeAdapterErrorCode) (message : String) :
    Except ExchangeAdapterError α :=
  match value with
  | some value => .ok value
  | none => .error { code := code, message := message }

def normalize (adapter : MockExchangeMarketDataAdapter) (rawPayload : String)
    (receiveTimestamp processTimestamp : Int) : Except ExchangeAdapterError MarketEvent := do
  let fields ← require (parseFields (rawPayload.length + 1) rawPayload).result?
    .malformedPayload "malformed market payload"
  let type ← require fields["type"]? .missingRequiredField "missing required market payload field"
  let eventId ← require fields["event_id"]? .missingRequiredField "missing required market payload field"
  let symbol ← require fields["symbol"]? .missingRequiredField "missing required market payload field"
  let _ ← require (if symbol = adapter.instrument.symbol then some () else none)
    .symbolMismatch "symbol does not match configured instrument"
  let eventType ← require (eventType type) .unsupportedMessageType "unsupported market message type"
  let exchangeTimestamp ← require (parseInt64 fields "exchange_ts")
    .missingRequiredField "missing required exchange_ts field"
  let invalid := "invalid numeric market payload field"
  let price ← require (adapter.parseOptionalDouble fields "price") .invalidNumericField invalid
  let quantity ← require (adapter.parseOptionalDouble fields "quantity") .invalidNumericField invalid
  let bid ← require (adapter.parseOptionalDouble fields "bid") .invalidNumericField invalid
  let ask ← require (adapter.parseOptionalDouble fields "ask") .invalidNumericField invalid
  let _ ← require (if eventType = .trade ∧ (price = none ∨ quantity = none) then none else some ())
    .missingRequiredField "trade payload requires price and quantity"
  return {
    eventId := eventId
    type := eventType
    instrument := adapter.instrument
    price := price.getD 0
    quantity := quantity.getD 0
    bidPrice := bid
    askPrice := ask
    exchangeTimestamp := exchangeTimestamp
    receiveTimestamp := receiveTimestamp
    processTimestamp := processTimestamp }

/-! ### Every pass moves the cursor on -/

theorem length_segment {cursor : List Char} (hne : cursor ≠ []) : (segment cursor).2.length < cursor.length := by
  unfold segment
  split
  · exact List.length_pos_of_ne_nil hne
  · rename_i token rest hfind
    obtain ⟨hrest, hlength⟩ := length_of_find hfind
    have hpos := List.length_pos_of_ne_nil hrest
    have htail := List.length_tail (l := rest)
    dsimp only
    omega

theorem advances_pass : Advances pass := by
  intro cursor fields cursor' fields' h
  unfold pass at h
  split at h
  · cases h
  · rename_i hne
    dsimp only at h
    split at h
    · cases h
      exact length_segment hne
    · split at h
      · cases h
      · split at h
        · cases h
        · cases h
          exact length_segment hne

/-- The loop ends within one pass more than the payload has characters. -/
theorem parseFields_ne_outOfFuel {fuel : Nat} {rawPayload : String} (h : rawPayload.length < fuel) :
    parseFields fuel rawPayload ≠ .outOfFuel :=
  scan_ne_outOfFuel advances_pass (String.length_toList ▸ h) ∅

/-! ### What is accepted -/

@[simp] theorem require_eq_ok {α : Type} {value : Option α} {code : ExchangeAdapterErrorCode} {message : String}
    {x : α} : require value code message = .ok x ↔ value = some x := by
  cases value <;> simp [require]

theorem bind_eq_ok {α β ε : Type} {x : Except ε α} {f : α → Except ε β} {b : β} :
    x >>= f = .ok b ↔ ∃ a, x = .ok a ∧ f a = .ok b := by
  cases x <;> simp [bind, Except.bind]

theorem isSome_parseInt64 {fields : StringMap String} {key : String} :
    (parseInt64 fields key).isSome = true ↔ ∃ text, fields[key]? = some text ∧ (stoll text).isSome = true := by
  unfold parseInt64
  cases fields[key]? <;> simp

variable {adapter : MockExchangeMarketDataAdapter} {fields : StringMap String} {key : String}

/-- A number is wanting only where it does not parse. -/
theorem isSome_parseOptionalDouble : (adapter.parseOptionalDouble fields key).isSome = true ↔
    ∀ text, fields[key]? = some text → (adapter.stod text).isSome = true := by
  unfold parseOptionalDouble
  cases fields[key]? <;> simp

theorem eq_none_iff_of_parseOptionalDouble {value : Option ℚ}
    (h : adapter.parseOptionalDouble fields key = some value) : value = none ↔ fields[key]? = none := by
  unfold parseOptionalDouble at h
  cases htext : fields[key]? with
  | none =>
    rw [htext] at h
    cases h
    simp
  | some text =>
    rw [htext] at h
    obtain ⟨x, -, rfl⟩ := Option.map_eq_some_iff.1 h
    simp

theorem isSome_eventType {type : String} :
    (eventType type).isSome = true ↔ type ∈ ["trade", "ticker", "book_snapshot"] := by
  unfold eventType
  repeat' split
  all_goals simp_all

theorem eventType_eq_trade {type : String} : eventType type = some .trade ↔ type = "trade" := by
  unfold eventType
  repeat' split
  all_goals simp_all

end MockExchangeMarketDataAdapter

end Wall
