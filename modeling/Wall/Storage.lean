import Wall.Types
import Wall.Lib.FirstMatch

/-!
# The repositories

The in-memory repositories of `storage/storage_interfaces.cpp` that the simulation runtime writes to (orders, fills,
positions, balances and market snapshots), the in-memory transaction repository, the transaction cache, and the
file-backed transaction repository of `infrastructure/postgres_repositories.cpp`, whose map is what its file holds
after every completed call.
-/

namespace Wall

open FirstMatch

structure MarketSnapshot where
  instrumentId : String := ""
  bestBid : Option ℚ := none
  bestAsk : Option ℚ := none
  lastTradePrice : Option ℚ := none
  lastTradeQuantity : Option ℚ := none
  lastProcessTimestamp : Int := 0
  deriving DecidableEq, Inhabited, Repr

structure InMemoryOrderRepository where
  orders : StringMap OrderRecord := ∅

namespace InMemoryOrderRepository

def saveOrder (repository : InMemoryOrderRepository) (request : OrderRequest) (orderId clientOrderId : String) :
    InMemoryOrderRepository where
  orders := repository.orders.insert orderId
    { orderId := orderId
      clientOrderId := clientOrderId
      strategyId := request.strategyId
      instrumentId := request.instrument.instrumentId
      side := request.side
      orderType := request.type
      status := .created
      quantity := request.quantity
      price := request.price
      filledQuantity := 0 }

/-- Update a stored record; an unknown order gets a record with nothing but the update in it. -/
def saveOrderUpdate (repository : InMemoryOrderRepository) (update : OrderUpdate) : InMemoryOrderRepository where
  orders :=
    match repository.orders[update.orderId]? with
    | some order => repository.orders.insert update.orderId
        { order with
          clientOrderId := update.clientOrderId
          status := update.status
          filledQuantity := update.filledQuantity }
    | none => repository.orders.insert update.orderId
        { orderId := update.orderId
          clientOrderId := update.clientOrderId
          status := update.status
          filledQuantity := update.filledQuantity }

def getOrder (repository : InMemoryOrderRepository) (orderId : String) : Option OrderRecord :=
  repository.orders[orderId]?

/-- The statuses that `all_open_orders` selects. -/
def selectsStatus : OrderStatus → Bool
  | .created | .pendingSubmit | .acknowledged | .partiallyFilled | .pendingCancel => true
  | _ => false

/-- The open orders, by id; `all_open_orders` returns them in the order that it iterates the hash map in. -/
def allOpenOrders (repository : InMemoryOrderRepository) : List OrderRecord :=
  (repository.orders.toList.map Prod.snd).filter fun order => selectsStatus order.status

end InMemoryOrderRepository

structure InMemoryFillRepository where
  fills : List FillEvent := []

def InMemoryFillRepository.appendFill (repository : InMemoryFillRepository) (fill : FillEvent) :
    InMemoryFillRepository where
  fills := repository.fills ++ [fill]

structure InMemoryPositionRepository where
  positions : StringMap Position := ∅

def InMemoryPositionRepository.allPositions (repository : InMemoryPositionRepository) : List Position :=
  repository.positions.toList.map Prod.snd

def InMemoryPositionRepository.savePosition (repository : InMemoryPositionRepository) (position : Position) :
    InMemoryPositionRepository where
  positions := repository.positions.insert position.instrument.instrumentId position

structure InMemoryBalanceRepository where
  balances : StringMap BalanceSnapshot := ∅

def InMemoryBalanceRepository.allBalances (repository : InMemoryBalanceRepository) : List BalanceSnapshot :=
  repository.balances.toList.map Prod.snd

def InMemoryBalanceRepository.saveBalance (repository : InMemoryBalanceRepository) (balance : BalanceSnapshot) :
    InMemoryBalanceRepository where
  balances := repository.balances.insert balance.asset balance

structure InMemoryMarketStateCache where
  snapshots : StringMap MarketSnapshot := ∅

def InMemoryMarketStateCache.upsertSnapshot (cache : InMemoryMarketStateCache) (snapshot : MarketSnapshot) :
    InMemoryMarketStateCache where
  snapshots := cache.snapshots.insert snapshot.instrumentId snapshot

def InMemoryMarketStateCache.getSnapshot (cache : InMemoryMarketStateCache) (instrumentId : String) :
    Option MarketSnapshot :=
  cache.snapshots[instrumentId]?

/-! ### Transactions -/

structure TransactionRecord where
  transactionId : String := ""
  status : String := ""
  kafkaTopic : String := ""
  kafkaPartition : Int := 0
  kafkaOffset : Int := 0
  deriving DecidableEq, Inhabited, Repr

structure KafkaCheckpoint where
  topic : String := ""
  partition : Int := 0
  offset : Int := 0
  deriving DecidableEq, Inhabited, Repr

/-- The in-memory repository keeps its records and checkpoints in lists. -/
structure InMemoryTransactionRepository where
  records : List TransactionRecord := []
  checkpoints : List KafkaCheckpoint := []
  deriving DecidableEq, Repr

namespace InMemoryTransactionRepository

def saveReceived (repository : InMemoryTransactionRepository) (command : TransactionCommand) :
    InMemoryTransactionRepository :=
  { repository with
    records := repository.records ++
      [{ transactionId := command.transactionId
         status := "received"
         kafkaTopic := command.kafkaTopic
         kafkaPartition := command.kafkaPartition
         kafkaOffset := command.kafkaOffset }] }

/-- Update the first record with the id; an unknown transaction gets a record with nothing but the status in it. -/
def saveProcessed (repository : InMemoryTransactionRepository) (transactionId status : String) :
    InMemoryTransactionRepository :=
  { repository with
    records :=
      match repository.records.find? fun record => decide (record.transactionId = transactionId) with
      | some record =>
        replaceFirst (fun record => decide (record.transactionId = transactionId)) { record with status := status }
          repository.records
      | none => repository.records ++ [{ transactionId := transactionId, status := status }] }

def allRecords (repository : InMemoryTransactionRepository) : List TransactionRecord := repository.records

def saveCheckpoint (repository : InMemoryTransactionRepository) (checkpoint : KafkaCheckpoint) :
    InMemoryTransactionRepository :=
  { repository with
    checkpoints :=
      match repository.checkpoints.find? fun existing =>
          decide (existing.topic = checkpoint.topic ∧ existing.partition = checkpoint.partition) with
      | some existing =>
        replaceFirst
          (fun existing => decide (existing.topic = checkpoint.topic ∧ existing.partition = checkpoint.partition))
          { existing with offset := checkpoint.offset } repository.checkpoints
      | none => repository.checkpoints ++ [checkpoint] }

def allCheckpoints (repository : InMemoryTransactionRepository) : List KafkaCheckpoint := repository.checkpoints

end InMemoryTransactionRepository

structure PostgresTransactionRepository where
  records : StringMap TransactionRecord := ∅
  checkpoints : StringMap KafkaCheckpoint := ∅

namespace PostgresTransactionRepository

def saveReceived (repository : PostgresTransactionRepository) (command : TransactionCommand) :
    PostgresTransactionRepository :=
  { repository with
    records := repository.records.insert command.transactionId
      { transactionId := command.transactionId
        status := "received"
        kafkaTopic := command.kafkaTopic
        kafkaPartition := command.kafkaPartition
        kafkaOffset := command.kafkaOffset } }

def saveProcessed (repository : PostgresTransactionRepository) (transactionId status : String) :
    PostgresTransactionRepository :=
  { repository with
    records :=
      match repository.records[transactionId]? with
      | some record => repository.records.insert transactionId { record with status := status }
      | none => repository.records.insert transactionId { transactionId := transactionId, status := status } }

def saveCheckpoint (repository : PostgresTransactionRepository) (checkpoint : KafkaCheckpoint) :
    PostgresTransactionRepository :=
  { repository with
    checkpoints :=
      repository.checkpoints.insert (checkpoint.topic ++ "#" ++ toString checkpoint.partition) checkpoint }

def allRecords (repository : PostgresTransactionRepository) : List TransactionRecord :=
  repository.records.toList.map Prod.snd

def allCheckpoints (repository : PostgresTransactionRepository) : List KafkaCheckpoint :=
  repository.checkpoints.toList.map Prod.snd

end PostgresTransactionRepository

structure InMemoryTransactionCache where
  statuses : StringMap String := ∅

def InMemoryTransactionCache.setStatus (cache : InMemoryTransactionCache) (transactionId status : String) :
    InMemoryTransactionCache where
  statuses := cache.statuses.insert transactionId status

end Wall
