import Wall.Storage
import Wall.Lib.Getline

/-!
# The Kafka consumer

`KafkaTransactionConsumer` of `infrastructure/kafka_transaction_consumer.cpp`: raw messages are read from a client,
those of other topics and those that do not parse are committed and skipped.  What a call does to the client, the
repository, the cache and the dispatcher is given as the list of its effects in order (`IngestEffect`), so that a
call that stops half way has done the first effects of its list.

`stod` stands for `std::stod`: the number that a text starts with, or none where it throws.  An infinity or a NaN is
stood for by a rational that compares with zero in the same way.
-/

namespace Wall

structure RawKafkaMessage where
  topic : String := ""
  partition : Int := 0
  offset : Int := 0
  payload : String := ""
  deriving DecidableEq, Inhabited, Repr

/-- What a commit names. -/
structure KafkaPosition where
  topic : String
  partition : Int
  offset : Int
  deriving DecidableEq, Repr

def RawKafkaMessage.position (message : RawKafkaMessage) : KafkaPosition where
  topic := message.topic
  partition := message.partition
  offset := message.offset

/-- One step of `process_next` that reaches another component. -/
inductive IngestEffect
  | delivered (message : RawKafkaMessage)
  | committed (position : KafkaPosition)
  | savedReceived (command : TransactionCommand)
  | savedProcessed (transactionId status : String)
  | cached (transactionId status : String)
  | published (command : TransactionCommand)
  deriving DecidableEq, Repr

/-- The fields of a payload: tokens separated by `';'`, each split at its first `'='`; the last value of a key wins. -/
def parseKeyValuePayload (payload : String) : StringMap String :=
  (Getline.tokens ';' payload.toList).foldl (fun fields token =>
    match token.dropWhile (· ≠ '=') with
    -- an empty token has no separator either
    | [] => fields
    | _ :: value => fields.insert (String.ofList (token.takeWhile (· ≠ '='))) (String.ofList value)) ∅

structure KafkaTransactionConsumer where
  transactionTopic : String
  stod : String → Option ℚ

namespace KafkaTransactionConsumer

/-- The price of a payload, which may be missing or empty. -/
def parsePrice (consumer : KafkaTransactionConsumer) (fields : StringMap String) : Option (Option ℚ) :=
  match fields["price"]? with
  | none => some none
  | some priceText => if priceText = "" then some none else (consumer.stod priceText).map some

def parseRawMessage (consumer : KafkaTransactionConsumer) (message : RawKafkaMessage) : Option TransactionCommand := do
  let fields := parseKeyValuePayload message.payload
  let transactionId ← fields["transaction_id"]?
  let userId ← fields["user_id"]?
  let accountId ← fields["account_id"]?
  let commandType ← fields["command_type"]?
  let instrumentSymbol ← fields["instrument_symbol"]?
  let quantityText ← fields["quantity"]?
  let quantity ← consumer.stod quantityText
  let price ← consumer.parsePrice fields
  return {
    transactionId := transactionId
    userId := userId
    accountId := accountId
    commandType := commandType
    instrumentSymbol := instrumentSymbol
    quantity := quantity
    price := price
    kafkaTopic := message.topic
    kafkaPartition := message.partition
    kafkaOffset := message.offset }

/-- The command that `poll` makes of a message, if it does not skip it. -/
def accepted (consumer : KafkaTransactionConsumer) (message : RawKafkaMessage) : Option TransactionCommand :=
  if message.topic ≠ consumer.transactionTopic then none else consumer.parseRawMessage message

/-- Read messages until one is accepted: the effects, the command, and the messages left. -/
def poll (consumer : KafkaTransactionConsumer) :
    List RawKafkaMessage → List IngestEffect × Option TransactionCommand × List RawKafkaMessage
  | [] => ([], none, [])
  | message :: messages =>
    if message.topic ≠ consumer.transactionTopic then
      let (effects, command, rest) := consumer.poll messages
      (.delivered message :: .committed message.position :: effects, command, rest)
    else
      match consumer.parseRawMessage message with
      | some command => ([.delivered message], some command, messages)
      | none =>
        let (effects, command, rest) := consumer.poll messages
        (.delivered message :: .committed message.position :: effects, command, rest)

/-- `commit`: the position that the command came from. -/
def commit (command : TransactionCommand) : IngestEffect :=
  .committed { topic := command.kafkaTopic, partition := command.kafkaPartition, offset := command.kafkaOffset }

theorem poll_cons (consumer : KafkaTransactionConsumer) (message : RawKafkaMessage) (messages : List RawKafkaMessage) :
    consumer.poll (message :: messages) =
      match consumer.accepted message with
      | some command => ([.delivered message], some command, messages)
      | none => (.delivered message :: .committed message.position :: (consumer.poll messages).1,
          (consumer.poll messages).2) := by
  rw [poll, accepted]
  split
  · rfl
  · cases consumer.parseRawMessage message <;> rfl

/-- A command carries the position of its message. -/
theorem commit_of_accepted {consumer : KafkaTransactionConsumer} {message : RawKafkaMessage}
    {command : TransactionCommand} (h : consumer.accepted message = some command) :
    message.topic = consumer.transactionTopic ∧ command.kafkaTopic = message.topic ∧
      command.kafkaPartition = message.partition ∧ command.kafkaOffset = message.offset := by
  unfold accepted at h
  split at h
  · cases h
  · rename_i htopic
    simp only [parseRawMessage, bind, Option.bind_eq_some_iff, pure, Option.some.injEq] at h
    obtain ⟨_, -, _, -, _, -, _, -, _, -, _, -, _, -, _, -, rfl⟩ := h
    exact ⟨not_not.1 htopic, rfl, rfl, rfl⟩

/-- Of its message's position a command holds nothing but a copy. -/
theorem accepted_at (consumer : KafkaTransactionConsumer) (message : RawKafkaMessage) (partition offset : Int) :
    consumer.accepted { message with partition := partition, offset := offset } =
      (consumer.accepted message).map fun command =>
        { command with kafkaPartition := partition, kafkaOffset := offset } := by
  unfold accepted
  dsimp only
  split
  · rfl
  · simp only [parseRawMessage, bind, pure, Option.map_bind, Function.comp_def, Option.map_some]

end KafkaTransactionConsumer

end Wall
