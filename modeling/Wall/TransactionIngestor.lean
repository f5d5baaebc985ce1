import Wall.KafkaTransactionConsumer

/-!
# The transaction ingestor

`ingestion/transaction_ingestor.cpp`.  `processNext` gives the effects of one call that completes, `drain` those of
calls until one returns false.  A call that throws at a handler of the dispatcher or in `save_processed` has the
effects before the step that throws (`CallOutcome.effects`).
-/

namespace Wall

namespace TransactionIngestor

def isValid (command : TransactionCommand) : Bool :=
  if command.transactionId = "" ∨ command.kafkaTopic = "" ∨ command.kafkaOffset < 0 then false
  else if command.accountId = "" ∨ command.commandType = "" ∨ command.instrumentSymbol = "" then false
  else decide (command.quantity > 0)

/-- The status that a command ends with. -/
def finalStatus (command : TransactionCommand) : String := if isValid command then "processed" else "rejected"

/-- `process_next` after the poll: receipt, publication of a valid command, final status, commit. -/
def handle (command : TransactionCommand) : List IngestEffect :=
  [.savedReceived command, .cached command.transactionId "received"] ++
    (if isValid command then [.published command] else []) ++
    [.savedProcessed command.transactionId (finalStatus command),
      .cached command.transactionId (finalStatus command), KafkaTransactionConsumer.commit command]

/-- One call that completes: its effects, what it returns, and the messages left in the stream. -/
structure Call where
  effects : List IngestEffect
  handled : Bool
  rest : List RawKafkaMessage

def processNext (consumer : KafkaTransactionConsumer) (stream : List RawKafkaMessage) : Call :=
  match consumer.poll stream with
  | (effects, none, rest) => { effects := effects, handled := false, rest := rest }
  | (effects, some command, rest) => { effects := effects ++ handle command, handled := true, rest := rest }

/-- Call `process_next` until it returns false; `none` if that takes more calls than the fuel allows. -/
def drain (consumer : KafkaTransactionConsumer) : Nat → List RawKafkaMessage → Option (List IngestEffect)
  | 0, _ => none
  | fuel + 1, stream =>
    let call := processNext consumer stream
    if call.handled then (drain consumer fuel call.rest).map (call.effects ++ ·) else some call.effects

/-! ### The components behind the effects -/

/-- What the effects act on: the client's commit log, the durable records, the cache, and what the dispatcher has
received. -/
structure World where
  deliveries : List RawKafkaMessage := []
  commitLog : List KafkaPosition := []
  repository : PostgresTransactionRepository := {}
  cache : InMemoryTransactionCache := {}
  received : List TransactionCommand := []

def World.perform (world : World) : IngestEffect → World
  | .delivered message => { world with deliveries := world.deliveries ++ [message] }
  | .committed position => { world with commitLog := world.commitLog ++ [position] }
  | .savedReceived command => { world with repository := world.repository.saveReceived command }
  | .savedProcessed transactionId status =>
    { world with repository := world.repository.saveProcessed transactionId status }
  | .cached transactionId status => { world with cache := world.cache.setStatus transactionId status }
  | .published command => { world with received := world.received ++ [command] }

def World.performAll (world : World) (effects : List IngestEffect) : World := effects.foldl World.perform world

@[simp] theorem World.performAll_nil (world : World) : world.performAll [] = world := rfl

@[simp] theorem World.performAll_cons (world : World) (effect : IngestEffect) (effects : List IngestEffect) :
    world.performAll (effect :: effects) = (world.perform effect).performAll effects := rfl

/-! ### Calls that throw -/

/-- How a call ends: it completes, or the publication or the write of the final status throws. -/
inductive CallOutcome
  | completes
  | handlerThrows
  | saveProcessedThrows
  deriving DecidableEq, Repr

/-- The step at which the call throws. -/
def CallOutcome.throwsAt : CallOutcome → IngestEffect → Bool
  | .completes, _ => false
  | .handlerThrows, .published _ => true
  | .saveProcessedThrows, .savedProcessed .. => true
  | _, _ => false

/-- The effects that a call with this outcome has had when it ends. -/
def CallOutcome.effects (outcome : CallOutcome) (effects : List IngestEffect) : List IngestEffect :=
  effects.takeWhile fun effect => !outcome.throwsAt effect

/-- Calls with the given outcomes, one after the other; the position of the consumer moves on in any case. -/
def runCalls (consumer : KafkaTransactionConsumer) : List CallOutcome → List RawKafkaMessage → List IngestEffect
  | [], _ => []
  | outcome :: outcomes, stream =>
    let call := processNext consumer stream
    outcome.effects call.effects ++ runCalls consumer outcomes call.rest

end TransactionIngestor

end Wall
