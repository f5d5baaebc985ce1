import Wall.SimulationRuntime

/-!
# Recovery after a restart

`app/recovery_service.cpp` and the `restore_` functions of the simulation runtime.  `recover` reads the durable
repositories and warms the caches, `restoreRuntime` puts the snapshot into a runtime, and `resumeKafka` gives the
seeks.  The repositories iterate hash maps, or rows in no particular order, so what a call returned is a permutation
of the records that it selects (`Iteration`).
-/

namespace Wall

/-! ### Restoring into the components -/

def PortfolioService.restorePosition (portfolio : PortfolioService) (position : Position) : PortfolioService :=
  { portfolio with positions := portfolio.positions.insert position.instrument.instrumentId position }

def PortfolioService.restoreBalance (portfolio : PortfolioService) (balance : BalanceSnapshot) : PortfolioService :=
  { portfolio with balances := portfolio.balances.insert balance.asset balance }

def MarketStateStore.restoreSnapshot (store : MarketStateStore) (instrumentId : String) (snapshot : MarketState) :
    MarketStateStore where
  states := store.states.insert instrumentId snapshot

namespace SimulationRuntime

variable {σ : Type*}

def restoreOpenOrder (runtime : SimulationRuntime σ) (order : OrderRecord) : SimulationRuntime σ :=
  let request : OrderRequest :=
    { requestId := order.orderId
      strategyId := order.strategyId
      instrument := { instrumentId := order.instrumentId }
      side := order.side
      type := order.orderType
      quantity := order.quantity
      price := order.price }
  { runtime with
    executionEngine :=
      runtime.executionEngine.restoreOpenOrder order.orderId order.clientOrderId request order.filledQuantity }

def restorePosition (runtime : SimulationRuntime σ) (position : Position) : SimulationRuntime σ :=
  { runtime with portfolioService := runtime.portfolioService.restorePosition position }

def restoreBalance (runtime : SimulationRuntime σ) (balance : BalanceSnapshot) : SimulationRuntime σ :=
  { runtime with portfolioService := runtime.portfolioService.restoreBalance balance }

def restoreMarketSnapshot (runtime : SimulationRuntime σ) (snapshot : MarketSnapshot) : SimulationRuntime σ :=
  let runtime := { runtime with
    marketStateStore := runtime.marketStateStore.restoreSnapshot snapshot.instrumentId
      { bestBid := snapshot.bestBid
        bestAsk := snapshot.bestAsk
        lastTradePrice := snapshot.lastTradePrice
        lastTradeQuantity := snapshot.lastTradeQuantity
        lastProcessTimestamp := snapshot.lastProcessTimestamp } }
  match snapshot.lastTradePrice with
  | some price =>
    { runtime with portfolioService := runtime.portfolioService.setMarkPrice snapshot.instrumentId price }
  | none => runtime

end SimulationRuntime

/-! ### The recovery service -/

structure RecoverySnapshot where
  openOrders : List OrderRecord := []
  positions : List Position := []
  balances : List BalanceSnapshot := []
  kafkaCheckpoints : List KafkaCheckpoint := []

/-- What the service reads and the caches that it warms. -/
structure RecoveryService where
  transactionRepository : PostgresTransactionRepository := {}
  orderRepository : InMemoryOrderRepository := {}
  positionRepository : InMemoryPositionRepository := {}
  balanceRepository : InMemoryBalanceRepository := {}
  marketCache : InMemoryMarketStateCache := {}
  transactionCache : InMemoryTransactionCache := {}

namespace RecoveryService

/-- What the repositories return to one recovery, each in the order that it happens to iterate its records in. -/
structure Iteration (service : RecoveryService) where
  openOrders : List OrderRecord
  openOrders_perm : openOrders.Perm service.orderRepository.allOpenOrders
  positions : List Position
  positions_perm : positions.Perm service.positionRepository.allPositions
  balances : List BalanceSnapshot
  balances_perm : balances.Perm service.balanceRepository.allBalances
  records : List TransactionRecord
  records_perm : records.Perm service.transactionRepository.allRecords
  checkpoints : List KafkaCheckpoint
  checkpoints_perm : checkpoints.Perm service.transactionRepository.allCheckpoints

/-- The iteration by key. -/
def byKey (service : RecoveryService) : service.Iteration where
  openOrders := service.orderRepository.allOpenOrders
  openOrders_perm := .refl _
  positions := service.positionRepository.allPositions
  positions_perm := .refl _
  balances := service.balanceRepository.allBalances
  balances_perm := .refl _
  records := service.transactionRepository.allRecords
  records_perm := .refl _
  checkpoints := service.transactionRepository.allCheckpoints
  checkpoints_perm := .refl _

def checkpointKey (topic : String) (partition : Int) : String := topic ++ "#" ++ toString partition

def checkpointOf (record : TransactionRecord) : KafkaCheckpoint where
  topic := record.kafkaTopic
  partition := record.kafkaPartition
  offset := record.kafkaOffset

/-- One record of the loop that derives the checkpoints: the largest processed offset of each partition. -/
def noteProcessed (checkpoints : StringMap KafkaCheckpoint) (record : TransactionRecord) :
    StringMap KafkaCheckpoint :=
  if record.status ≠ "processed" then checkpoints
  else
    let key := checkpointKey record.kafkaTopic record.kafkaPartition
    match checkpoints[key]? with
    | none => checkpoints.insert key (checkpointOf record)
    | some checkpoint =>
      if record.kafkaOffset > checkpoint.offset then checkpoints.insert key (checkpointOf record) else checkpoints

/-- The checkpoints of a recovery: the explicit ones if there are any, else those that the records give. -/
def recoverCheckpoints (explicit : List KafkaCheckpoint) (records : List TransactionRecord) : List KafkaCheckpoint :=
  if explicit ≠ [] then explicit else (records.foldl noteProcessed ∅).toList.map Prod.snd

/-- A market snapshot made of a position: its entry price stands for the last price. -/
def coldSnapshot (position : Position) : MarketSnapshot where
  instrumentId := position.instrument.instrumentId
  lastTradePrice := if position.averageEntryPrice > 0 then some position.averageEntryPrice else none

/-- The market snapshots that a recovery puts into the cache. -/
def warmSnapshots (exchangeSnapshots : List MarketSnapshot) (positions : List Position) : List MarketSnapshot :=
  if exchangeSnapshots ≠ [] then exchangeSnapshots else positions.map coldSnapshot

/-- The snapshot, and the service with its caches warmed. -/
def recover (service : RecoveryService) (iteration : service.Iteration) (exchangeSnapshots : List MarketSnapshot) :
    RecoverySnapshot × RecoveryService :=
  ({ openOrders := iteration.openOrders
     positions := iteration.positions
     balances := iteration.balances
     kafkaCheckpoints := recoverCheckpoints iteration.checkpoints iteration.records },
    { service with
      marketCache := (warmSnapshots exchangeSnapshots iteration.positions).foldl
        InMemoryMarketStateCache.upsertSnapshot service.marketCache
      transactionCache := iteration.records.foldl
        (fun cache record => cache.setStatus record.transactionId record.status) service.transactionCache })

def restoreRuntime {σ : Type*} (service : RecoveryService) (snapshot : RecoverySnapshot)
    (runtime : SimulationRuntime σ) : SimulationRuntime σ :=
  let runtime := snapshot.positions.foldl SimulationRuntime.restorePosition runtime
  let runtime := snapshot.balances.foldl SimulationRuntime.restoreBalance runtime
  let runtime := snapshot.openOrders.foldl SimulationRuntime.restoreOpenOrder runtime
  snapshot.positions.foldl (fun runtime position =>
    match service.marketCache.getSnapshot position.instrument.instrumentId with
    | some marketSnapshot => runtime.restoreMarketSnapshot marketSnapshot
    | none => runtime) runtime

/-- A call of the client's `seek`. -/
structure Seek where
  topic : String
  partition : Int
  nextOffset : Int
  deriving DecidableEq, Repr

/-- The seeks of `resume_kafka`, in order. -/
def resumeKafka (snapshot : RecoverySnapshot) : List Seek :=
  snapshot.kafkaCheckpoints.map fun checkpoint =>
    { topic := checkpoint.topic, partition := checkpoint.partition, nextOffset := checkpoint.offset + 1 }

end RecoveryService

end Wall
