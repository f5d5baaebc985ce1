import Wall.Types
import Wall.Lib.Decimal
import Wall.Lib.Getline

/-!
# The event log

`storage/replay_service.cpp`: one event a line, its fields separated by tabs.  `streamed` stands for `stream << value`
and `toString` for `std::to_string` of a double, `stod` for `std::stod`; what throws in `deserialize_event` gives none.
-/

namespace Wall

/-- `std::stoi`: none where it throws. -/
def stoi (text : String) : Option Int :=
  (Decimal.integer text).filter fun n => decide (-2 ^ 31 ≤ n ∧ n < 2 ^ 31)

/-- `std::stoll`: none where it throws. -/
def stoll (text : String) : Option Int :=
  (Decimal.integer text).filter fun n => decide (-2 ^ 63 ≤ n ∧ n < 2 ^ 63)

def MarketEventType.code : MarketEventType → Int
  | .bookSnapshot => 0
  | .trade => 1
  | .ticker => 2
  | .timer => 3

/-- The value with this code; for the codes that name no enumerator stands `timer`. -/
def MarketEventType.ofCode (code : Int) : MarketEventType :=
  if code = 0 then .bookSnapshot else if code = 1 then .trade else if code = 2 then .ticker else .timer

theorem MarketEventType.ofCode_code (type : MarketEventType) : ofCode type.code = type := by cases type <;> rfl

structure ReplayStats where
  totalRecords : Nat := 0
  replayedRecords : Nat := 0
  skippedRecords : Nat := 0
  deriving DecidableEq, Repr

structure ReplayService where
  streamed : ℚ → String
  toString : ℚ → String
  stod : String → Option ℚ

namespace ReplayService

def splitTsv (line : String) : List String := (Getline.tokens '\t' line.toList).map String.ofList

def encodeOptionalDouble (service : ReplayService) : Option ℚ → String
  | some value => service.toString value
  | none => ""

def decodeOptionalDouble (service : ReplayService) (value : String) : Option (Option ℚ) :=
  if value = "" then some none else (service.stod value).map some

def encodeBookLevels (service : ReplayService) (levels : List BookLevel) : String :=
  ",".intercalate (levels.map fun level => service.streamed level.price ++ ":" ++ service.streamed level.quantity)

/-- One `price:quantity` pair. -/
def decodeBookLevel (service : ReplayService) (level : List Char) : Option BookLevel :=
  match level.dropWhile (· ≠ ':') with
  | [] => none
  | _ :: quantity => do
    let price ← service.stod (String.ofList (level.takeWhile (· ≠ ':')))
    let quantity ← service.stod (String.ofList quantity)
    return { price := price, quantity := quantity }

def decodeBookLevels (service : ReplayService) (value : String) : Option (List BookLevel) :=
  if value = "" then some [] else (Getline.tokens ',' value.toList).mapM service.decodeBookLevel

/-- The fields that an event is written as. -/
def fieldsOf (service : ReplayService) : EngineEvent → List String
  | .market event => [
      "market",
      event.eventId,
      Int.repr event.type.code,
      event.instrument.instrumentId,
      event.instrument.exchange,
      event.instrument.symbol,
      event.instrument.baseAsset,
      event.instrument.quoteAsset,
      service.streamed event.instrument.tickSize,
      service.streamed event.instrument.lotSize,
      service.streamed event.price,
      service.streamed event.quantity,
      service.encodeOptionalDouble event.bidPrice,
      service.encodeOptionalDouble event.askPrice,
      service.encodeBookLevels event.bidLevels,
      service.encodeBookLevels event.askLevels,
      Int.repr event.exchangeTimestamp,
      Int.repr event.receiveTimestamp,
      Int.repr event.processTimestamp]
  | .transaction command => [
      "transaction",
      command.transactionId,
      command.userId,
      command.accountId,
      command.commandType,
      command.instrumentSymbol,
      service.streamed command.quantity,
      service.encodeOptionalDouble command.price,
      command.kafkaTopic,
      Int.repr command.kafkaPartition,
      Int.repr command.kafkaOffset]
  | .timer event => ["timer", event.timerId, Int.repr event.timestamp]

def serializeEvent (service : ReplayService) (event : EngineEvent) : String :=
  "\t".intercalate (service.fieldsOf event)

def deserializeMarket (service : ReplayService) (fields : List String) : Option MarketEvent := do
  let field i := fields.getD i ""
  -- 17 fields are a line without book levels
  let full := fields.length = 19
  let bidLevels ← if full then service.decodeBookLevels (field 14) else some []
  let askLevels ← if full then service.decodeBookLevels (field 15) else some []
  let type ← stoi (field 2)
  let tickSize ← service.stod (field 8)
  let lotSize ← service.stod (field 9)
  let price ← service.stod (field 10)
  let quantity ← service.stod (field 11)
  let bidPrice ← service.decodeOptionalDouble (field 12)
  let askPrice ← service.decodeOptionalDouble (field 13)
  let exchangeTimestamp ← stoll (field (if full then 16 else 14))
  let receiveTimestamp ← stoll (field (if full then 17 else 15))
  let processTimestamp ← stoll (field (if full then 18 else 16))
  return {
    eventId := field 1
    type := .ofCode type
    instrument := {
      instrumentId := field 3
      exchange := field 4
      symbol := field 5
      baseAsset := field 6
      quoteAsset := field 7
      tickSize := tickSize
      lotSize := lotSize }
    price := price
    quantity := quantity
    bidPrice := bidPrice
    askPrice := askPrice
    bidLevels := bidLevels
    askLevels := askLevels
    exchangeTimestamp := exchangeTimestamp
    receiveTimestamp := receiveTimestamp
    processTimestamp := processTimestamp }

def deserializeTransaction (service : ReplayService) (fields : List String) : Option TransactionCommand := do
  let field i := fields.getD i ""
  let quantity ← service.stod (field 6)
  let price ← service.decodeOptionalDouble (field 7)
  let kafkaPartition ← stoi (field 9)
  let kafkaOffset ← stoll (field 10)
  return {
    transactionId := field 1
    userId := field 2
    accountId := field 3
    commandType := field 4
    instrumentSymbol := field 5
    quantity := quantity
    price := price
    kafkaTopic := field 8
    kafkaPartition := kafkaPartition
    kafkaOffset := kafkaOffset }

def deserializeTimer (fields : List String) : Option TimerEvent := do
  let timestamp ← stoll (fields.getD 2 "")
  return { timerId := fields.getD 1 "", timestamp := timestamp }

def deserializeEvent (service : ReplayService) (line : String) : Option EngineEvent :=
  let fields := splitTsv line
  match fields with
  | [] => none
  | kind :: _ =>
    if kind = "market" then
      if fields.length ≠ 17 ∧ fields.length ≠ 19 then none
      else (service.deserializeMarket fields).map .market
    else if kind = "transaction" then
      if fields.length ≠ 11 then none else (service.deserializeTransaction fields).map .transaction
    else if kind = "timer" then
      if fields.length ≠ 3 then none else (deserializeTimer fields).map .timer
    else none

/-- Append an event to the text of the log. -/
def appendEvent (service : ReplayService) (log : String) (event : EngineEvent) : String :=
  log ++ service.serializeEvent event ++ "\n"

/-- The events that the handler has been called with, and the counters, after one more line. -/
def replayLine (service : ReplayService) (replayed : List EngineEvent × ReplayStats) (line : String) :
    List EngineEvent × ReplayStats :=
  let stats := { replayed.2 with totalRecords := replayed.2.totalRecords + 1 }
  match service.deserializeEvent line with
  | some event => (replayed.1 ++ [event], { stats with replayedRecords := stats.replayedRecords + 1 })
  | none => (replayed.1, { stats with skippedRecords := stats.skippedRecords + 1 })

/-- Replay the text of the log, if there is one. -/
def replay (service : ReplayService) : Option String → List EngineEvent × ReplayStats
  | none => ([], {})
  | some log => ((Getline.tokens '\n' log.toList).map String.ofList).foldl service.replayLine ([], {})

end ReplayService

end Wall
