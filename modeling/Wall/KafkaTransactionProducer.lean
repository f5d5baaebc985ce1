import Wall.KafkaTransactionConsumer
import Wall.NumberFormats

/-!
# The Kafka producer

`serialize_transaction_command_payload` of `infrastructure/kafka_transaction_producer.cpp` writes what
`parse_raw_message` of the consumer reads.  The writer puts the fields in a fixed order, the reader looks them up in a
map, and the two agree on every command whose texts stay within their fields (`payload_round_trip`), up to the rounding
of its numbers: six significant digits (`published_numbers_iff`).
-/

namespace Wall

open KeyedMap Rounding

/-- The payload of a command; `streamed` stands for `stream << value`. -/
def serializeTransactionCommandPayload (streamed : ℚ → String) (command : TransactionCommand) : String :=
  "transaction_id=" ++ command.transactionId
    ++ ";user_id=" ++ command.userId
    ++ ";account_id=" ++ command.accountId
    ++ ";command_type=" ++ command.commandType
    ++ ";instrument_symbol=" ++ command.instrumentSymbol
    ++ ";quantity=" ++ streamed command.quantity
    ++ match command.price with
      | some price => ";price=" ++ streamed price
      | none => ""

/-! ### Payloads as lists of fields -/

/-- The text of one field. -/
def fieldText (field : String × String) : List Char := field.1.toList ++ '=' :: field.2.toList

/-- A payload of fields is read as these fields, the last value of a key winning. -/
private theorem parseKeyValuePayload_fields {fields : List (String × String)} {payload : String}
    (hkeys : ∀ field ∈ fields, '=' ∉ field.1.toList ∧ ';' ∉ field.1.toList)
    (hvalues : ∀ field ∈ fields, ';' ∉ field.2.toList)
    (hpayload : payload.toList = [';'].intercalate (fields.map fieldText)) :
    parseKeyValuePayload payload = fields.foldl (fun map field => map.insert field.1 field.2) ∅ := by
  have htokens : Getline.tokens ';' payload.toList = fields.map fieldText := by
    rw [hpayload]
    refine Getline.tokens_intercalate ?_ ?_
    · intro token htoken
      obtain ⟨field, hfield, rfl⟩ := List.mem_map.1 htoken
      simp [fieldText, (hkeys field hfield).2, hvalues field hfield]
    · rw [List.getLast?_map]
      cases fields.getLast? <;> simp [fieldText]
  rw [parseKeyValuePayload, htokens, List.foldl_map]
  clear hvalues hpayload htokens
  generalize (∅ : StringMap String) = map
  induction fields generalizing map with
  | nil => rfl
  | cons field fields ih =>
    have hkey : ∀ c ∈ field.1.toList, decide (c ≠ '=') = true := by
      intro c hc
      refine decide_eq_true ?_
      rintro rfl
      exact (hkeys field (List.mem_cons_self ..)).1 hc
    rw [List.foldl_cons, List.foldl_cons, ih fun f hf => hkeys f (List.mem_cons_of_mem _ hf)]
    congr 1
    rw [fieldText, List.dropWhile_append_of_pos hkey, List.takeWhile_append_of_pos hkey]
    simp

/-- The fields of a command, in the order that they are written in. -/
def payloadFields (streamed : ℚ → String) (command : TransactionCommand) : List (String × String) :=
  [("transaction_id", command.transactionId), ("user_id", command.userId), ("account_id", command.accountId),
    ("command_type", command.commandType), ("instrument_symbol", command.instrumentSymbol),
    ("quantity", streamed command.quantity)] ++
  command.price.toList.map fun price => ("price", streamed price)

private theorem toList_payload (streamed : ℚ → String) (command : TransactionCommand) :
    (serializeTransactionCommandPayload streamed command).toList =
      [';'].intercalate ((payloadFields streamed command).map fieldText) := by
  unfold serializeTransactionCommandPayload payloadFields
  cases command.price <;>
    simp [fieldText, List.intercalate_cons_cons, String.toList_append]

/-! ### Reading a payload back -/

/-- The texts of a way to print doubles: not empty, without the character that separates fields, and read back as the
rounded double. -/
structure PayloadNumerals (print : ℚ → String) (stod : String → Option ℚ) (rnd : ℚ → ℚ) : Prop where
  ne_empty : ∀ x, print x ≠ ""
  clean : ∀ x, ';' ∉ (print x).toList
  reads : ∀ x, stod (print x) = some (rnd x)

/-- The text fields that a payload holds. -/
def TransactionCommand.payloadTexts (command : TransactionCommand) : List String :=
  [command.transactionId, command.userId, command.accountId, command.commandType, command.instrumentSymbol]

/-- What the consumer makes of a command's payload in a message at a position. -/
def TransactionCommand.received (rnd : ℚ → ℚ) (command : TransactionCommand) (topic : String)
    (partition offset : Int) : TransactionCommand :=
  { command with
    quantity := rnd command.quantity
    price := command.price.map rnd
    kafkaTopic := topic
    kafkaPartition := partition
    kafkaOffset := offset }

/-- The message that carries a command. -/
def payloadMessage (streamed : ℚ → String) (command : TransactionCommand) (topic : String) (partition offset : Int) :
    RawKafkaMessage where
  topic := topic
  partition := partition
  offset := offset
  payload := serializeTransactionCommandPayload streamed command

section RoundTrip

variable {streamed : ℚ → String} {rnd : ℚ → ℚ} {consumer : KafkaTransactionConsumer}
  (h : PayloadNumerals streamed consumer.stod rnd) {command : TransactionCommand}
  (htexts : ∀ text ∈ command.payloadTexts, ';' ∉ text.toList)

include h htexts

private theorem parseKeyValuePayload_payload :
    parseKeyValuePayload (serializeTransactionCommandPayload streamed command) =
      (payloadFields streamed command).foldl (fun map field => map.insert field.1 field.2) ∅ := by
  simp only [TransactionCommand.payloadTexts, List.forall_mem_cons] at htexts
  obtain ⟨h1, h2, h3, h4, h5, -⟩ := htexts
  refine parseKeyValuePayload_fields ?_ ?_ (toList_payload streamed command)
  · rw [payloadFields, List.forall_mem_append]
    constructor
    · simp only [List.forall_mem_cons]
      exact ⟨by decide, by decide, by decide, by decide, by decide, by decide, by simp⟩
    · intro field hfield
      obtain ⟨price, -, rfl⟩ := List.mem_map.1 hfield
      exact (by decide : '=' ∉ "price".toList ∧ ';' ∉ "price".toList)
  · rw [payloadFields, List.forall_mem_append]
    constructor
    · simp only [List.forall_mem_cons]
      exact ⟨h1, h2, h3, h4, h5, h.clean _, by simp⟩
    · intro field hfield
      obtain ⟨price, -, rfl⟩ := List.mem_map.1 hfield
      exact h.clean price

omit h htexts in
private theorem nodup_payloadFields : ((payloadFields streamed command).map Prod.fst).Nodup := by
  unfold payloadFields
  cases command.price <;> simp

theorem parseRawMessage_payload (topic : String) (partition offset : Int) :
    consumer.parseRawMessage (payloadMessage streamed command topic partition offset) =
      some (command.received rnd topic partition offset) := by
  have hfields := parseKeyValuePayload_payload h htexts
  have hget : ∀ field ∈ payloadFields streamed command,
      (parseKeyValuePayload (serializeTransactionCommandPayload streamed command))[field.1]? = some field.2 := by
    intro field hfield
    rw [hfields]
    exact getElem?_foldl_insert_of_mem nodup_payloadFields hfield _
  have hprice : consumer.parsePrice
      (parseKeyValuePayload (serializeTransactionCommandPayload streamed command)) = some (command.price.map rnd) := by
    unfold KafkaTransactionConsumer.parsePrice
    cases hp : command.price with
    | none =>
      have hnone : (parseKeyValuePayload (serializeTransactionCommandPayload streamed command))["price"]? = none := by
        rw [hfields, getElem?_foldl_insert_of_ne (by simp [payloadFields, hp])]
        rfl
      rw [hnone]
      rfl
    | some price =>
      rw [hget ("price", streamed price) (by simp [payloadFields, hp])]
      simp [h.ne_empty, h.reads]
  simp only [payloadFields, List.forall_mem_append, List.forall_mem_cons] at hget
  obtain ⟨⟨h1, h2, h3, h4, h5, h6, -⟩, -⟩ := hget
  unfold KafkaTransactionConsumer.parseRawMessage payloadMessage
  simp only [h1, h2, h3, h4, h5, h6, hprice, h.reads, bind, Option.bind_some]
  rfl

/-- The consumer accepts the producer's payload of a command whose texts have no `';'`, and reads the command from it:
its texts as they are, its numbers rounded, the price absent exactly when it was, at the position of the message. -/
theorem payload_round_trip (topic : String) (partition offset : Int) :
    ∃ received, consumer.parseRawMessage (payloadMessage streamed command topic partition offset) = some received ∧
      received.transactionId = command.transactionId ∧ received.userId = command.userId ∧
      received.accountId = command.accountId ∧ received.commandType = command.commandType ∧
      received.instrumentSymbol = command.instrumentSymbol ∧ received.quantity = rnd command.quantity ∧
      received.price = command.price.map rnd ∧ received.kafkaTopic = topic ∧ received.kafkaPartition = partition ∧
      received.kafkaOffset = offset :=
  ⟨_, parseRawMessage_payload h htexts topic partition offset, rfl, rfl, rfl, rfl, rfl, rfl, rfl, rfl, rfl, rfl⟩

/-- The consumer reads a command's numbers as they were exactly if they have at most six significant digits. -/
theorem published_numbers_iff (hrnd : IsNearest streamedNumbers rnd) (topic : String) (partition offset : Int) :
    (∃ received ∈ consumer.parseRawMessage (payloadMessage streamed command topic partition offset),
        received.quantity = command.quantity ∧ received.price = command.price) ↔
      command.quantity ∈ streamedNumbers ∧ ∀ price ∈ command.price, price ∈ streamedNumbers := by
  have hprice : command.price.map rnd = command.price ↔ ∀ price ∈ command.price, price ∈ streamedNumbers := by
    cases command.price with
    | none => simp
    | some price => simp [hrnd.fixed_iff]
  rw [parseRawMessage_payload h htexts, ← hprice, ← hrnd.fixed_iff]
  simp [TransactionCommand.received]

end RoundTrip

/-! ### The formats of the program -/

/-- A consumer that reads numerals. -/
def exampleConsumer : KafkaTransactionConsumer where
  transactionTopic := "transactions"
  stod := Numeral.value

theorem payloadNumerals_significant (n : Nat) :
    PayloadNumerals (Numeral.significant n) exampleConsumer.stod (roundSignificant 10 n) := by
  refine ⟨fun x => Numeral.text_ne_empty _ _, fun x hc => ?_, Numeral.value_significant n⟩
  rcases Numeral.mem_text hc with h | h | h <;> exact absurd h (by decide)

/-- An order with texts that hold what a payload is made of. -/
def exampleOrder (quantity : ℚ) : TransactionCommand where
  transactionId := "t=1"
  userId := "user 1"
  commandType := "submit_order"
  instrumentSymbol := "BTC=USDT"
  quantity := quantity
  price := some 42000

theorem payload_round_trip_exampleOrder :
    ∃ received, exampleConsumer.parseRawMessage
        (payloadMessage (Numeral.significant 6) (exampleOrder (1 / 2)) "transactions" 3 7) = some received ∧
      received.transactionId = "t=1" ∧ received.userId = "user 1" ∧ received.accountId = "" ∧
      received.commandType = "submit_order" ∧ received.instrumentSymbol = "BTC=USDT" ∧
      received.quantity = roundSignificant 10 6 (1 / 2) ∧
      received.price = (some 42000).map (roundSignificant 10 6) ∧ received.kafkaTopic = "transactions" ∧
      received.kafkaPartition = 3 ∧ received.kafkaOffset = 7 :=
  payload_round_trip (payloadNumerals_significant 6) (by decide) "transactions" 3 7

theorem published_numbers_iff_exampleOrder :
    ∃ received ∈ exampleConsumer.parseRawMessage
        (payloadMessage (Numeral.significant 6) (exampleOrder (1 / 2)) "transactions" 3 7),
      received.quantity = 1 / 2 ∧ received.price = some 42000 :=
  (published_numbers_iff (payloadNumerals_significant 6) (by decide) nearest_streamed "transactions" 3 7).2
    (by decide +kernel)

/-- A quantity of seven digits loses the last one on its way. -/
theorem published_quantity_rounded :
    (exampleOrder (1234567 / 10000000)).quantity ∈ doubleDecimals ∧
      (∀ text ∈ (exampleOrder (1234567 / 10000000)).payloadTexts, ';' ∉ text.toList) ∧
      (exampleConsumer.parseRawMessage (payloadMessage (Numeral.significant 6) (exampleOrder (1234567 / 10000000))
        "transactions" 3 7)).map TransactionCommand.quantity = some (123457 / 1000000) := by
  decide +kernel

end Wall
