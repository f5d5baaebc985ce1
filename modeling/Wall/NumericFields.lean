import Wall.ConfigLoader
import Wall.KafkaTransactionConsumer
import Wall.JsonLines
import Wall.MarketFields
import Wall.Lib.Numeral

/-!
# The numbers of messages

`std::stod` and `std::stoll` read the longest numeral that a text starts with and leave the rest.  `parse_number` of the
config loader refuses a text of which something is left.  The parsers of Kafka payloads, of JSON lines and of market
payloads do not look at the rest: they accept a complete message as soon as each of its numbers starts with a numeral.
So the numbers of the messages that a parser accepts are numerals unless the segments of a payload, or the members on a
line, make a complete message that is `Truncated` (`numbers_whole_iff`).
-/

namespace Wall

/-- A field that is read as a number, by `std::stod` or by `std::stoll`. -/
inductive NumericField
  | double (text : String)
  | long (text : String)
  deriving DecidableEq

namespace NumericField

/-- `std::stod` for the numerals of doubles, none where it throws. -/
def stod (doubles : NumeralGrammar Char ℚ) (text : String) : Option ℚ := doubles.read text.toList

/-- The text starts with a numeral that is in range. -/
def IsRead (doubles : NumeralGrammar Char ℚ) : NumericField → Prop
  | double text => (stod doubles text).isSome = true
  | long text => (stoll text).isSome = true

def IsNumeral (doubles : NumeralGrammar Char ℚ) : NumericField → Prop
  | double text => doubles.isNumeral text.toList = true
  | long text => Decimal.isInteger text.toList = true

/-- The characters behind the longest numeral that the text starts with. -/
def unread (doubles : NumeralGrammar Char ℚ) : NumericField → List Char
  | double text => doubles.unread text.toList
  | long text => Decimal.integers.unread text.toList

instance (doubles : NumeralGrammar Char ℚ) : DecidablePred (IsNumeral doubles)
  | double _ => inferInstanceAs (Decidable (_ = true))
  | long _ => inferInstanceAs (Decidable (_ = true))

theorem isNumeral_iff_unread {doubles : NumeralGrammar Char ℚ} {number : NumericField} (h : number.IsRead doubles) :
    number.IsNumeral doubles ↔ number.unread doubles = [] := by
  cases number with
  | double text => exact NumeralGrammar.isNumeral_iff_unread h
  | long text =>
    have hread : (Decimal.integers.read text.toList).isSome = true := by
      rw [← Decimal.integer_eq_read]
      obtain ⟨n, hn⟩ := Option.isSome_iff_exists.1 h
      exact Option.isSome_iff_exists.2 ⟨n, (Option.filter_eq_some_iff.1 hn).1⟩
    exact NumeralGrammar.isNumeral_iff_unread hread

/-- All numbers are read, but not all of them to the end. -/
def Truncated (doubles : NumeralGrammar Char ℚ) (numbers : List NumericField) : Prop :=
  (∀ number ∈ numbers, number.IsRead doubles) ∧ ∃ number ∈ numbers, number.unread doubles ≠ []

end NumericField

open NumericField

/-! ### The numbers of a command -/

/-- The keys that a command needs. -/
def commandKeys : List String :=
  ["transaction_id", "user_id", "account_id", "command_type", "instrument_symbol", "quantity"]

def HasCommandKeys (textOf : String → Option String) : Prop := ∀ key ∈ commandKeys, ∃ text, textOf key = some text

/-- The quantity, and the price unless it is one of the texts that are not read. -/
def commandNumbers (ignored : List String) (textOf : String → Option String) : List NumericField :=
  ((textOf "quantity").toList ++ ((textOf "price").filter (· ∉ ignored)).toList).map double

private theorem isRead_commandNumbers {doubles : NumeralGrammar Char ℚ} {ignored : List String}
    {textOf : String → Option String} :
    (∀ number ∈ commandNumbers ignored textOf, number.IsRead doubles) ↔
      (∀ text, textOf "quantity" = some text → (stod doubles text).isSome = true) ∧
        ∀ text, textOf "price" = some text → text ∉ ignored → (stod doubles text).isSome = true := by
  simp only [commandNumbers, List.forall_mem_map, List.forall_mem_append, Option.mem_toList,
    Option.filter_eq_some_iff, decide_eq_true_eq, and_imp, IsRead]

/-- A command is made of the fields exactly if they have the keys and the numbers are read. -/
private theorem exists_command_iff {doubles : NumeralGrammar Char ℚ} {ignored : List String} {fields : StringMap String}
    {price : Option (Option ℚ)} (hprice : price.isSome = true ↔
      ∀ text, fields["price"]? = some text → text ∉ ignored → (stod doubles text).isSome = true)
    (make : String → String → String → String → String → ℚ → Option ℚ → TransactionCommand) :
    (∃ command, (do
      let transactionId ← fields["transaction_id"]?
      let userId ← fields["user_id"]?
      let accountId ← fields["account_id"]?
      let commandType ← fields["command_type"]?
      let instrumentSymbol ← fields["instrument_symbol"]?
      let quantityText ← fields["quantity"]?
      let quantity ← stod doubles quantityText
      let price ← price
      return make transactionId userId accountId commandType instrumentSymbol quantity price) = some command) ↔
      HasCommandKeys (fields[·]?) ∧ ∀ number ∈ commandNumbers ignored (fields[·]?), number.IsRead doubles := by
  rw [isRead_commandNumbers, ← hprice]
  simp only [HasCommandKeys, commandKeys, List.forall_mem_cons, bind, Option.bind_eq_some_iff, pure]
  constructor
  · rintro ⟨_, _, hid, _, huser, _, haccount, _, htype, _, hsymbol, _, hquantity, _, hread, _, hreadPrice, -⟩
    refine ⟨⟨⟨_, hid⟩, ⟨_, huser⟩, ⟨_, haccount⟩, ⟨_, htype⟩, ⟨_, hsymbol⟩, ⟨_, hquantity⟩, by simp⟩, ?_,
      Option.isSome_iff_exists.2 ⟨_, hreadPrice⟩⟩
    intro text htext
    cases hquantity.symm.trans htext
    exact Option.isSome_iff_exists.2 ⟨_, hread⟩
  · rintro ⟨⟨⟨_, hid⟩, ⟨_, huser⟩, ⟨_, haccount⟩, ⟨_, htype⟩, ⟨_, hsymbol⟩, ⟨_, hquantity⟩, -⟩, hread, hreadPrice⟩
    obtain ⟨_, hread⟩ := Option.isSome_iff_exists.1 (hread _ hquantity)
    obtain ⟨_, hreadPrice⟩ := Option.isSome_iff_exists.1 hreadPrice
    exact ⟨_, _, hid, _, huser, _, haccount, _, htype, _, hsymbol, _, hquantity, _, hread, _, hreadPrice, rfl⟩

/-! ### The segments of a Kafka payload -/

open MockExchangeMarketDataAdapter (keyOf valueOf)

/-- The segments of a payload that have an `'='`. -/
def payloadSegments (payload : String) : List (List Char) :=
  (Getline.tokens ';' payload.toList).filter ('=' ∈ ·)

/-- The text behind the first `'='` of the last segment with a key in front of it. -/
def payloadText (payload key : String) : Option String :=
  ((payloadSegments payload).reverse.find? fun segment => keyOf segment = key).map valueOf

/-- A segment is cut at its first `'='`. -/
private theorem insert_segment (fields : StringMap String) (segment : List Char) :
    (match segment.dropWhile (· ≠ '=') with
      | [] => fields
      | _ :: value => fields.insert (String.ofList (segment.takeWhile (· ≠ '='))) (String.ofList value)) =
    if '=' ∈ segment then fields.insert (keyOf segment) (valueOf segment) else fields := by
  have hindex : (segment.findIdx fun c => !decide (c ≠ '=')) = segment.idxOf '=' := by
    simp only [List.idxOf, ne_eq, decide_not, Bool.not_not]
    rfl
  rw [List.dropWhile_eq_drop_findIdx_not, List.takeWhile_eq_take_findIdx_not, hindex]
  by_cases h : '=' ∈ segment
  · have hlt := List.idxOf_lt_length_of_mem h
    rw [if_pos h, ← List.cons_getElem_drop_succ (h := hlt)]
    rfl
  · rw [if_neg h, List.drop_of_length_le (not_lt.1 fun hlt => h (List.idxOf_lt_length_iff.1 hlt))]

private theorem getElem?_parseKeyValuePayload (payload : String) :
    ((parseKeyValuePayload payload)[·]?) = payloadText payload := by
  have hfold : parseKeyValuePayload payload = (payloadSegments payload).foldl
      (fun fields segment => fields.insert (keyOf segment) (valueOf segment)) ∅ := by
    rw [parseKeyValuePayload, payloadSegments, List.foldl_filter]
    congr 1
    funext fields segment
    simp only [decide_eq_true_eq]
    exact insert_segment fields segment
  funext key
  rw [hfold, KeyedMap.getElem?_foldl_insert, Std.ExtTreeMap.getElem?_empty, Option.or_none, payloadText]

/-! ### The messages that are accepted -/

/-- The consumer of Kafka messages that reads the numerals. -/
def consumerOf (doubles : NumeralGrammar Char ℚ) (topic : String) : KafkaTransactionConsumer where
  transactionTopic := topic
  stod := stod doubles

private theorem parseRawMessage_iff {doubles : NumeralGrammar Char ℚ} {topic : String} {message : RawKafkaMessage} :
    (∃ command, (consumerOf doubles topic).parseRawMessage message = some command) ↔
      HasCommandKeys (payloadText message.payload) ∧
        ∀ number ∈ commandNumbers [""] (payloadText message.payload), number.IsRead doubles := by
  have hprice : ((consumerOf doubles topic).parsePrice (parseKeyValuePayload message.payload)).isSome = true ↔
      ∀ text, (parseKeyValuePayload message.payload)["price"]? = some text → text ∉ [""] →
        (stod doubles text).isSome = true := by
    unfold KafkaTransactionConsumer.parsePrice
    cases (parseKeyValuePayload message.payload)["price"]? with
    | none => simp
    | some text => by_cases hempty : text = "" <;> simp [hempty, consumerOf]
  rw [← getElem?_parseKeyValuePayload]
  exact exists_command_iff hprice fun transactionId userId accountId commandType instrumentSymbol quantity price =>
    { transactionId := transactionId
      userId := userId
      accountId := accountId
      commandType := commandType
      instrumentSymbol := instrumentSymbol
      quantity := quantity
      price := price
      kafkaTopic := message.topic
      kafkaPartition := message.partition
      kafkaOffset := message.offset }

private theorem commandOf_iff {doubles : NumeralGrammar Char ℚ} {fields : StringMap String} :
    (∃ command, TransactionPublisher.commandOf (stod doubles) fields = some command) ↔
      HasCommandKeys (fields[·]?) ∧ ∀ number ∈ commandNumbers ["", "null"] (fields[·]?), number.IsRead doubles := by
  have hprice : (TransactionPublisher.parsePrice (stod doubles) fields).isSome = true ↔
      ∀ text, fields["price"]? = some text → text ∉ ["", "null"] → (stod doubles text).isSome = true := by
    unfold TransactionPublisher.parsePrice
    cases fields["price"]? with
    | none => simp
    | some text =>
      by_cases hempty : text = ""
      · simp [hempty]
      · by_cases hnull : text = "null" <;> simp [hempty, hnull]
  exact exists_command_iff hprice fun transactionId userId accountId commandType instrumentSymbol quantity price =>
    { transactionId := transactionId
      userId := userId
      accountId := accountId
      commandType := commandType
      instrumentSymbol := instrumentSymbol
      quantity := quantity
      price := price }

/-! ### The numbers of a market payload -/

namespace MockExchangeMarketDataAdapter

/-- The keys of the optional numbers. -/
def doubleKeys : List String := ["price", "quantity", "bid", "ask"]

def marketNumbers (textOf : String → Option String) : List NumericField :=
  (doubleKeys.filterMap textOf).map double ++ (textOf "exchange_ts").toList.map long

/-- The text behind the first `'='` of the first segment with a key in front of it. -/
def marketText (payload key : String) : Option String :=
  ((segments payload).find? fun segment => keyOf segment = key).map valueOf

/-- The texts of a supported message for the instrument, with a timestamp, and with price and quantity if it is a
trade. -/
structure IsMessage (instrument : Instrument) (textOf : String → Option String) : Prop where
  eventId : ∃ text, textOf "event_id" = some text
  symbol : textOf "symbol" = some instrument.symbol
  exchangeTimestamp : ∃ text, textOf "exchange_ts" = some text
  type : ∃ type, textOf "type" = some type ∧ type ∈ ["trade", "ticker", "book_snapshot"] ∧
    (type = "trade" → (∃ text, textOf "price" = some text) ∧ ∃ text, textOf "quantity" = some text)

private theorem isRead_marketNumbers {doubles : NumeralGrammar Char ℚ} {textOf : String → Option String} :
    (∀ number ∈ marketNumbers textOf, number.IsRead doubles) ↔
      (∀ key ∈ doubleKeys, ∀ text, textOf key = some text → (NumericField.stod doubles text).isSome = true) ∧
        ∀ text, textOf "exchange_ts" = some text → (stoll text).isSome = true := by
  simp only [marketNumbers, List.forall_mem_append, List.forall_mem_map, Option.mem_toList, IsRead,
    List.mem_filterMap, forall_exists_index, and_imp]
  exact and_congr_left fun _ => ⟨fun h key hkey text htext => h text key hkey htext,
    fun h text key hkey htext => h key hkey text htext⟩

/-- The adapter for an instrument that reads the numerals. -/
def adapterOf (doubles : NumeralGrammar Char ℚ) (instrument : Instrument) : MockExchangeMarketDataAdapter where
  instrument := instrument
  stod := NumericField.stod doubles

variable {doubles : NumeralGrammar Char ℚ} {instrument : Instrument} {rawPayload : String}
  {receiveTimestamp processTimestamp : Int}

/-- What is accepted is a message whose numbers are read. -/
private theorem isMessage_of_normalize {event : MarketEvent} (h : (adapterOf doubles instrument).normalize rawPayload
      receiveTimestamp processTimestamp = .ok event) :
    ∃ fields, (parseFields (rawPayload.length + 1) rawPayload).result? = some fields ∧
      IsMessage instrument (fields[·]?) ∧ ∀ number ∈ marketNumbers (fields[·]?), number.IsRead doubles := by
  simp only [normalize, bind_eq_ok, require_eq_ok] at h
  obtain ⟨fields, hfields, type, htype, eventId, heventId, symbol, hsymbol, _, hmatches, eventType, hsupported, _,
    htimestamp, price, hprice, quantity, hquantity, _, hbid, _, hask, _, htrade, -⟩ := h
  obtain ⟨timestamp, hpresent, hlong⟩ := isSome_parseInt64.1 (Option.isSome_iff_exists.2 ⟨_, htimestamp⟩)
  refine ⟨fields, hfields, ⟨⟨eventId, heventId⟩, ?_, ⟨timestamp, hpresent⟩, type, htype, ?_, ?_⟩,
    isRead_marketNumbers.2 ⟨?_, ?_⟩⟩
  · have heq : symbol = (adapterOf doubles instrument).instrument.symbol := by simpa using hmatches
    rw [hsymbol, heq]
    rfl
  · exact isSome_eventType.1 (Option.isSome_iff_exists.2 ⟨_, hsupported⟩)
  · rintro rfl
    have heq := (eventType_eq_trade.2 rfl).symm.trans hsupported
    cases heq
    have hboth : ¬(price = none ∨ quantity = none) := by simpa using htrade
    rw [eq_none_iff_of_parseOptionalDouble hprice, eq_none_iff_of_parseOptionalDouble hquantity, not_or] at hboth
    exact ⟨Option.ne_none_iff_exists'.1 hboth.1, Option.ne_none_iff_exists'.1 hboth.2⟩
  · simp only [doubleKeys, List.forall_mem_cons]
    exact ⟨isSome_parseOptionalDouble.1 (Option.isSome_iff_exists.2 ⟨_, hprice⟩),
      isSome_parseOptionalDouble.1 (Option.isSome_iff_exists.2 ⟨_, hquantity⟩),
      isSome_parseOptionalDouble.1 (Option.isSome_iff_exists.2 ⟨_, hbid⟩),
      isSome_parseOptionalDouble.1 (Option.isSome_iff_exists.2 ⟨_, hask⟩), List.forall_mem_nil _⟩
  · intro text htext
    cases hpresent.symm.trans htext
    exact hlong

/-- A message whose numbers are read is accepted. -/
private theorem exists_normalize_of_isMessage {fields : StringMap String}
    (hfields : (parseFields (rawPayload.length + 1) rawPayload).result? = some fields)
    (hmessage : IsMessage instrument (fields[·]?))
    (hnumbers : ∀ number ∈ marketNumbers (fields[·]?), number.IsRead doubles) :
    ∃ event, (adapterOf doubles instrument).normalize rawPayload receiveTimestamp processTimestamp = .ok event := by
  obtain ⟨hdoubles, hlongs⟩ := isRead_marketNumbers.1 hnumbers
  obtain ⟨eventId, heventId⟩ := hmessage.eventId
  obtain ⟨timestamp, hpresent⟩ := hmessage.exchangeTimestamp
  obtain ⟨type, htype, hsupported, htrade⟩ := hmessage.type
  obtain ⟨eventType, heventType⟩ := Option.isSome_iff_exists.1 (isSome_eventType.2 hsupported)
  obtain ⟨_, htimestamp⟩ :=
    Option.isSome_iff_exists.1 (isSome_parseInt64.2 ⟨timestamp, hpresent, hlongs timestamp hpresent⟩)
  have hparsed : ∀ key ∈ doubleKeys, ∃ value,
      (adapterOf doubles instrument).parseOptionalDouble fields key = some value :=
    fun key hkey => Option.isSome_iff_exists.1 (isSome_parseOptionalDouble.2 (hdoubles key hkey))
  simp only [doubleKeys, List.forall_mem_cons] at hparsed
  obtain ⟨⟨price, hprice⟩, ⟨quantity, hquantity⟩, ⟨bid, hbid⟩, ⟨ask, hask⟩, -⟩ := hparsed
  have hcomplete : ¬(eventType = .trade ∧ (price = none ∨ quantity = none)) := by
    rintro ⟨rfl, hnone⟩
    obtain ⟨⟨_, hpriceText⟩, _, hquantityText⟩ := htrade (eventType_eq_trade.1 heventType)
    rw [eq_none_iff_of_parseOptionalDouble hprice, eq_none_iff_of_parseOptionalDouble hquantity] at hnone
    simp [hpriceText, hquantityText] at hnone
  simp only [normalize, bind_eq_ok, require_eq_ok]
  exact ⟨_, fields, hfields, type, htype, eventId, heventId, _, hmessage.symbol, (), if_pos rfl, eventType,
    heventType, _, htimestamp, price, hprice, quantity, hquantity, bid, hbid, ask, hask, (), if_neg hcomplete, rfl⟩

/-- A payload is read exactly if none of its segments is malformed, and then by their texts. -/
private theorem forall_parseFields_iff (P : (String → Option String) → Prop) :
    (∀ fields, (parseFields (rawPayload.length + 1) rawPayload).result? = some fields → P (fields[·]?)) ↔
      ((∀ segment ∈ segments rawPayload, ¬Malformed segment) → P (marketText rawPayload)) := by
  rw [parseFields_eq_collect (Nat.lt_succ_self _)]
  constructor
  · intro h hwell
    have hdone := collect_done hwell ∅
    have htexts : _ = marketText rawPayload := funext (getElem?_of_collect_eq_done hdone)
    exact htexts ▸ h _ (Cursor.Outcome.result?_eq_some_iff.2 hdone)
  · intro h fields hfields
    have hdone := Cursor.Outcome.result?_eq_some_iff.1 hfields
    have htexts : (fields[·]?) = marketText rawPayload := funext (getElem?_of_collect_eq_done hdone)
    rw [htexts]
    refine h fun segment hsegment hmalformed => ?_
    rw [collect_malformed ⟨segment, hsegment, hmalformed⟩] at hdone
    cases hdone

private theorem normalize_iff :
    (∃ event, (adapterOf doubles instrument).normalize rawPayload receiveTimestamp processTimestamp = .ok event) ↔
      ∃ fields, (parseFields (rawPayload.length + 1) rawPayload).result? = some fields ∧
        IsMessage instrument (fields[·]?) ∧ ∀ number ∈ marketNumbers (fields[·]?), number.IsRead doubles :=
  ⟨fun ⟨_, h⟩ => isMessage_of_normalize h,
    fun ⟨_, hfields, hmessage, hnumbers⟩ => exists_normalize_of_isMessage hfields hmessage hnumbers⟩

end MockExchangeMarketDataAdapter

/-! ### Numbers read in full -/

open MockExchangeMarketDataAdapter (adapterOf parseFields segments Malformed marketNumbers marketText IsMessage
  normalize_iff forall_parseFields_iff)

open TransactionPublisher (parseFlatJsonObject parseJsonTransactionCommandLine Holds memberText
  forall_parseFlatJsonObject_iff)

/-- A parser accepts what has the texts of a message and numbers that are read.  Then it reads all numbers in full
exactly if no message is truncated. -/
private theorem whole_iff {doubles : NumeralGrammar Char ℚ} {accepted : Prop} {parsed : Option (StringMap String)}
    {complete : (String → Option String) → Prop} {numbers : (String → Option String) → List NumericField}
    (haccepted : accepted ↔ ∃ fields, parsed = some fields ∧ complete (fields[·]?) ∧
      ∀ number ∈ numbers (fields[·]?), number.IsRead doubles) :
    (accepted → ∀ fields, parsed = some fields → ∀ number ∈ numbers (fields[·]?), number.IsNumeral doubles) ↔
      ∀ fields, parsed = some fields → ¬(complete (fields[·]?) ∧ Truncated doubles (numbers (fields[·]?))) := by
  rw [haccepted]
  constructor
  · rintro h fields hfields ⟨hcomplete, hread, number, hnumber, hunread⟩
    have hnumeral := h ⟨fields, hfields, hcomplete, hread⟩ fields hfields number hnumber
    exact hunread ((isNumeral_iff_unread (hread number hnumber)).1 hnumeral)
  · rintro h ⟨fields, hfields, hcomplete, hread⟩ fields' hfields' number hnumber
    cases hfields.symm.trans hfields'
    by_contra hnumeral
    rw [isNumeral_iff_unread (hread number hnumber)] at hnumeral
    exact h fields hfields ⟨hcomplete, hread, number, hnumber, hnumeral⟩

/-- For each of the three parsers: the numbers of a message that it accepts are numerals as a whole exactly if the
segments of the text do not make a message that has all its keys and numbers that are read, but not all of them to the
end.  Of the segments with one key the last counts in a Kafka payload and the first elsewhere. -/
theorem numbers_whole_iff (doubles : NumeralGrammar Char ℚ) :
    (∀ topic message,
      ((∃ command, (consumerOf doubles topic).parseRawMessage message = some command) →
        ∀ number ∈ commandNumbers [""] ((parseKeyValuePayload message.payload)[·]?), number.IsNumeral doubles) ↔
      ¬(HasCommandKeys (payloadText message.payload) ∧
        Truncated doubles (commandNumbers [""] (payloadText message.payload)))) ∧
    (∀ line,
      ((∃ command, parseJsonTransactionCommandLine (stod doubles) line = some command) →
        ∀ fields, (parseFlatJsonObject line.length line).result? = some fields →
          ∀ number ∈ commandNumbers ["", "null"] (fields[·]?), number.IsNumeral doubles) ↔
      ∀ members, Holds line members →
        ¬(HasCommandKeys (memberText members) ∧
          Truncated doubles (commandNumbers ["", "null"] (memberText members)))) ∧
    ∀ instrument rawPayload receiveTimestamp processTimestamp,
      ((∃ event, (adapterOf doubles instrument).normalize rawPayload receiveTimestamp processTimestamp = .ok event) →
        ∀ fields, (parseFields (rawPayload.length + 1) rawPayload).result? = some fields →
          ∀ number ∈ marketNumbers (fields[·]?), number.IsNumeral doubles) ↔
      ((∀ segment ∈ segments rawPayload, ¬Malformed segment) →
        ¬(IsMessage instrument (marketText rawPayload) ∧
          Truncated doubles (marketNumbers (marketText rawPayload)))) := by
  refine ⟨fun topic message => ?_, fun line => ?_, fun instrument rawPayload _ _ => ?_⟩
  · have hparsed : (∃ command, (consumerOf doubles topic).parseRawMessage message = some command) ↔
        ∃ fields, some (parseKeyValuePayload message.payload) = some fields ∧ HasCommandKeys (fields[·]?) ∧
          ∀ number ∈ commandNumbers [""] (fields[·]?), number.IsRead doubles := by
      rw [parseRawMessage_iff, ← getElem?_parseKeyValuePayload]
      simp
    rw [← getElem?_parseKeyValuePayload]
    simpa using whole_iff hparsed
  · have hparsed : (∃ command, parseJsonTransactionCommandLine (stod doubles) line = some command) ↔
        ∃ fields, (parseFlatJsonObject line.length line).result? = some fields ∧ HasCommandKeys (fields[·]?) ∧
          ∀ number ∈ commandNumbers ["", "null"] (fields[·]?), number.IsRead doubles := by
      simp only [parseJsonTransactionCommandLine, bind, Option.bind_eq_some_iff, ← commandOf_iff]
      exact ⟨fun ⟨command, fields, hfields, hcommand⟩ => ⟨fields, hfields, command, hcommand⟩,
        fun ⟨fields, hfields, command, hcommand⟩ => ⟨command, fields, hfields, hcommand⟩⟩
    rw [whole_iff hparsed]
    exact forall_parseFlatJsonObject_iff fun textOf =>
      ¬(HasCommandKeys textOf ∧ Truncated doubles (commandNumbers ["", "null"] textOf))
  · rw [whole_iff normalize_iff]
    exact forall_parseFields_iff fun textOf =>
      ¬(IsMessage instrument textOf ∧ Truncated doubles (marketNumbers textOf))

/-! ### Thousands separators -/

def exampleThousands : RawKafkaMessage where
  topic := "transactions"
  payload := "transaction_id=tx-1;user_id=user-1;account_id=account-1;command_type=place_order;" ++
    "instrument_symbol=BTCUSDT;quantity=1,000"

def exampleLine : String :=
  "\x7b\"transaction_id\":\"tx-1\",\"user_id\":\"user-1\",\"account_id\":\"account-1\"," ++
    "\"command_type\":\"place_order\",\"instrument_symbol\":\"BTCUSDT\",\"quantity\":\"1,000\"\x7d"

def examplePayload : String := "type=trade;event_id=e-1;symbol=BTCUSDT;exchange_ts=7ms;price=42,000;quantity=1"

/-- A quantity of `1,000` is read as 1, a price of `42,000` as 42 and a timestamp of `7ms` as 7. -/
theorem not_numbers_whole :
    ((consumerOf Numeral.decimals "transactions").parseRawMessage exampleThousands).map
        TransactionCommand.quantity = some 1 ∧
      commandNumbers [""] ((parseKeyValuePayload exampleThousands.payload)[·]?) = [double "1,000"] ∧
      (parseJsonTransactionCommandLine (stod Numeral.decimals) exampleLine).map
        TransactionCommand.quantity = some 1 ∧
      (parseFlatJsonObject exampleLine.length exampleLine).result?.map
        (fun fields => commandNumbers ["", "null"] (fields[·]?)) =
        some [double "1,000"] ∧
      ((adapterOf Numeral.decimals { symbol := "BTCUSDT" }).normalize examplePayload 0 0).toOption.map
        (fun event => (event.price, event.exchangeTimestamp)) = some (42, 7) ∧
      (parseFields (examplePayload.length + 1) examplePayload).result?.map
        (fun fields => marketNumbers (fields[·]?)) =
        some [double "42,000", double "1", long "7ms"] ∧
      ∀ number ∈ [double "1,000", double "42,000", long "7ms"], ¬number.IsNumeral Numeral.decimals := by
  decide +kernel

end Wall
