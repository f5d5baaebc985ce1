import Wall.Lib.SqlTable
import Wall.LibpqSession
import Wall.OrderIntents
import Wall.StateFiles
import Wall.TransactionRepositories

/-!
# The database

The `Libpq` repositories of `infrastructure/postgres_repositories.cpp` (the fills apart, which are never overwritten):
a table with a primary key each, written by `INSERT … ON CONFLICT … DO UPDATE SET …`.  Texts are cut at their first NUL
when they are passed on, and numbers are read as `LibpqNumbers` says.

Over any calls the tables hold what the in-memory and file-backed repositories hold after the same calls with their
texts cut (`Stores`), so a recovery from the database gets what one from the others gets at some order of iteration
(`recovery_from_database`).  Intents and reports are overwritten where the other repositories append, and a report
without a reason is read back with an empty one.
-/

namespace Wall

open CString KeyedMap KeyedList SqlTable

/-! ### The columns that are set -/

def receivedAssignment : Assignment TransactionRecord.transactionId where
  set excluded old := { old with
    status := excluded.status
    kafkaTopic := excluded.kafkaTopic
    kafkaPartition := excluded.kafkaPartition
    kafkaOffset := excluded.kafkaOffset }
  keeps _ _ := rfl

def processedAssignment : Assignment TransactionRecord.transactionId where
  set excluded old := { old with status := excluded.status }
  keeps _ _ := rfl

/-- The primary key of `kafka_checkpoints`. -/
def KafkaCheckpoint.partitionKey (checkpoint : KafkaCheckpoint) : String × Int :=
  (checkpoint.topic, checkpoint.partition)

def checkpointAssignment : Assignment KafkaCheckpoint.partitionKey where
  set excluded old := { old with offset := excluded.offset }
  keeps _ _ := rfl

def orderAssignment : Assignment OrderRecord.orderId where
  set excluded old := { old with
    clientOrderId := excluded.clientOrderId
    strategyId := excluded.strategyId
    instrumentId := excluded.instrumentId
    side := excluded.side
    orderType := excluded.orderType
    status := excluded.status
    quantity := excluded.quantity
    price := excluded.price
    filledQuantity := excluded.filledQuantity }
  keeps _ _ := rfl

def updateAssignment : Assignment OrderRecord.orderId where
  set excluded old := { old with
    clientOrderId := excluded.clientOrderId
    status := excluded.status
    filledQuantity := excluded.filledQuantity }
  keeps _ _ := rfl

def intentAssignment : Assignment OrderIntentRecord.requestId where
  set excluded old := { old with
    strategyId := excluded.strategyId
    instrumentId := excluded.instrumentId
    side := excluded.side
    orderType := excluded.orderType
    quantity := excluded.quantity
    price := excluded.price }
  keeps _ _ := rfl

def reportAssignment : Assignment ExecutionReportRecord.reportId where
  set excluded old := { old with
    orderId := excluded.orderId
    clientOrderId := excluded.clientOrderId
    instrumentId := excluded.instrumentId
    side := excluded.side
    status := excluded.status
    cumulativeFilledQuantity := excluded.cumulativeFilledQuantity
    lastFillPrice := excluded.lastFillPrice
    lastFillFee := excluded.lastFillFee
    reason := excluded.reason
    exchangeTimestamp := excluded.exchangeTimestamp }
  keeps _ _ := rfl

/-- The primary key of `position_records`. -/
def Position.instrumentKey (position : Position) : String := position.instrument.instrumentId

def positionAssignment : Assignment Position.instrumentKey where
  set excluded old :=
    { positionId := excluded.positionId
      instrument := { excluded.instrument with instrumentId := old.instrument.instrumentId }
      netQuantity := excluded.netQuantity
      averageEntryPrice := excluded.averageEntryPrice
      realizedPnl := excluded.realizedPnl
      unrealizedPnl := excluded.unrealizedPnl }
  keeps _ _ := rfl

def balanceAssignment : Assignment BalanceSnapshot.asset where
  set excluded old := { old with
    totalBalance := excluded.totalBalance
    availableBalance := excluded.availableBalance }
  keeps _ _ := rfl

/-! ### The tables -/

/-- The tables, whose rows hold the numbers as the calls have them; `numbers` is how these are read.  A zero of the
statements is the number that `std::to_string` prints of zero, and integers are printed and read as they are. -/
structure LibpqDatabase where
  numbers : LibpqNumbers
  transactionRecords : Table TransactionRecord.transactionId := {}
  kafkaCheckpoints : Table KafkaCheckpoint.partitionKey := {}
  orderRecords : Table OrderRecord.orderId := {}
  orderIntentRecords : Table OrderIntentRecord.requestId := {}
  executionReportRecords : Table ExecutionReportRecord.reportId := {}
  positionRecords : Table Position.instrumentKey := {}
  balanceRecords : Table BalanceSnapshot.asset := {}

/-- The texts of an instrument have passed `exec_params`. -/
def Instrument.cut (instrument : Instrument) : Instrument :=
  { instrument with
    instrumentId := cString instrument.instrumentId
    exchange := cString instrument.exchange
    symbol := cString instrument.symbol
    baseAsset := cString instrument.baseAsset
    quoteAsset := cString instrument.quoteAsset }

namespace LibpqDatabase

/-! ### Writing -/

def saveReceived (database : LibpqDatabase) (command : TransactionCommand) : LibpqDatabase :=
  { database with
    transactionRecords := database.transactionRecords.insertOrUpdate receivedAssignment
      { transactionId := cString command.transactionId
        status := "received"
        kafkaTopic := cString command.kafkaTopic
        kafkaPartition := command.kafkaPartition
        kafkaOffset := command.kafkaOffset } }

def saveProcessed (database : LibpqDatabase) (transactionId status : String) : LibpqDatabase :=
  { database with
    transactionRecords := database.transactionRecords.insertOrUpdate processedAssignment
      { transactionId := cString transactionId
        status := cString status
        kafkaTopic := ""
        kafkaPartition := 0
        kafkaOffset := 0 } }

def saveCheckpoint (database : LibpqDatabase) (checkpoint : KafkaCheckpoint) : LibpqDatabase :=
  { database with
    kafkaCheckpoints := database.kafkaCheckpoints.insertOrUpdate checkpointAssignment
      { checkpoint with topic := cString checkpoint.topic } }

def saveOrder (database : LibpqDatabase) (request : OrderRequest) (orderId clientOrderId : String) : LibpqDatabase :=
  { database with
    orderRecords := database.orderRecords.insertOrUpdate orderAssignment
      { orderId := cString orderId
        clientOrderId := cString clientOrderId
        strategyId := cString request.strategyId
        instrumentId := cString request.instrument.instrumentId
        side := request.side
        orderType := request.type
        status := .created
        quantity := request.quantity
        price := request.price
        filledQuantity := 0 } }

def saveOrderUpdate (database : LibpqDatabase) (update : OrderUpdate) : LibpqDatabase :=
  { database with
    orderRecords := database.orderRecords.insertOrUpdate updateAssignment
      { orderId := cString update.orderId
        clientOrderId := cString update.clientOrderId
        strategyId := ""
        instrumentId := ""
        side := .ofCode 0
        orderType := .ofCode 1
        status := update.status
        quantity := 0
        price := none
        filledQuantity := update.filledQuantity } }

def intentRow (intent : OrderIntentRecord) : OrderIntentRecord :=
  { intent with
    requestId := cString intent.requestId
    strategyId := cString intent.strategyId
    instrumentId := cString intent.instrumentId }

def appendIntent (database : LibpqDatabase) (intent : OrderIntentRecord) : LibpqDatabase :=
  { database with
    orderIntentRecords := database.orderIntentRecords.insertOrUpdate intentAssignment (intentRow intent) }

/-- A report without a reason is written with an empty one. -/
def reportRow (report : ExecutionReportRecord) : ExecutionReportRecord :=
  { report with
    reportId := cString report.reportId
    orderId := cString report.orderId
    clientOrderId := cString report.clientOrderId
    instrumentId := cString report.instrumentId
    reason := some (cString (report.reason.getD "")) }

def appendReport (database : LibpqDatabase) (report : ExecutionReportRecord) : LibpqDatabase :=
  { database with
    executionReportRecords := database.executionReportRecords.insertOrUpdate reportAssignment (reportRow report) }

def savePosition (database : LibpqDatabase) (position : Position) : LibpqDatabase :=
  { database with
    positionRecords := database.positionRecords.insertOrUpdate positionAssignment
      { position with
        positionId := cString position.positionId
        instrument := position.instrument.cut } }

def saveBalance (database : LibpqDatabase) (balance : BalanceSnapshot) : LibpqDatabase :=
  { database with
    balanceRecords := database.balanceRecords.insertOrUpdate balanceAssignment
      { balance with asset := cString balance.asset } }

/-! ### Reading

None where `std::stod` throws. -/

variable (numbers : LibpqNumbers)

def readOrder (row : OrderRecord) : Option OrderRecord := do
  let quantity ← numbers.read row.quantity
  let price ← numbers.readOptional row.price
  let filledQuantity ← numbers.read row.filledQuantity
  return { row with quantity := quantity, price := price, filledQuantity := filledQuantity }

def readIntent (row : OrderIntentRecord) : Option OrderIntentRecord := do
  let quantity ← numbers.read row.quantity
  let price ← numbers.readOptional row.price
  return { row with quantity := quantity, price := price }

def readReport (row : ExecutionReportRecord) : Option ExecutionReportRecord := do
  let cumulativeFilledQuantity ← numbers.read row.cumulativeFilledQuantity
  let lastFillPrice ← numbers.readOptional row.lastFillPrice
  let lastFillFee ← numbers.read row.lastFillFee
  return { row with
    cumulativeFilledQuantity := cumulativeFilledQuantity
    lastFillPrice := lastFillPrice
    lastFillFee := lastFillFee }

def readPosition (row : Position) : Option Position := do
  let tickSize ← numbers.read row.instrument.tickSize
  let lotSize ← numbers.read row.instrument.lotSize
  let netQuantity ← numbers.read row.netQuantity
  let averageEntryPrice ← numbers.read row.averageEntryPrice
  let realizedPnl ← numbers.read row.realizedPnl
  let unrealizedPnl ← numbers.read row.unrealizedPnl
  return { row with
    instrument := { row.instrument with tickSize := tickSize, lotSize := lotSize }
    netQuantity := netQuantity
    averageEntryPrice := averageEntryPrice
    realizedPnl := realizedPnl
    unrealizedPnl := unrealizedPnl }

def readBalance (row : BalanceSnapshot) : Option BalanceSnapshot := do
  let totalBalance ← numbers.read row.totalBalance
  let availableBalance ← numbers.read row.availableBalance
  return { row with totalBalance := totalBalance, availableBalance := availableBalance }

variable (database : LibpqDatabase)

def getRecord (transactionId : String) : Option TransactionRecord :=
  database.transactionRecords.select (cString transactionId)

/-- The rows of a `SELECT` without `ORDER BY` are returned in no particular order; this is the order of insertion. -/
def allRecords : List TransactionRecord := database.transactionRecords.rows

def allCheckpoints : List KafkaCheckpoint := database.kafkaCheckpoints.rows

def getOrder (orderId : String) : Option (Option OrderRecord) :=
  (database.orderRecords.select (cString orderId)).mapM (readOrder database.numbers)

/-- `status IN (0, 1, 2, 3, 5)`. -/
def allOpenOrders : Option (List OrderRecord) :=
  (database.orderRecords.rows.filter fun record => decide (record.status.code ∈ [0, 1, 2, 3, 5])).mapM
    (readOrder database.numbers)

def allIntents : Option (List OrderIntentRecord) := database.orderIntentRecords.rows.mapM (readIntent database.numbers)

def allReports : Option (List ExecutionReportRecord) :=
  database.executionReportRecords.rows.mapM (readReport database.numbers)

def getPosition (instrumentId : String) : Option (Option Position) :=
  (database.positionRecords.select (cString instrumentId)).mapM (readPosition database.numbers)

def allPositions : Option (List Position) := database.positionRecords.rows.mapM (readPosition database.numbers)

def getBalance (asset : String) : Option (Option BalanceSnapshot) :=
  (database.balanceRecords.select (cString asset)).mapM (readBalance database.numbers)

def allBalances : Option (List BalanceSnapshot) := database.balanceRecords.rows.mapM (readBalance database.numbers)

end LibpqDatabase

/-! ### What is read -/

/-- A record with its numbers changed. -/
def OrderRecord.convert (f : ℚ → ℚ) (record : OrderRecord) : OrderRecord :=
  { record with
    quantity := f record.quantity
    price := record.price.map f
    filledQuantity := f record.filledQuantity }

def OrderIntentRecord.convert (f : ℚ → ℚ) (intent : OrderIntentRecord) : OrderIntentRecord :=
  { intent with
    quantity := f intent.quantity
    price := intent.price.map f }

def ExecutionReportRecord.convert (f : ℚ → ℚ) (report : ExecutionReportRecord) : ExecutionReportRecord :=
  { report with
    cumulativeFilledQuantity := f report.cumulativeFilledQuantity
    lastFillPrice := report.lastFillPrice.map f
    lastFillFee := f report.lastFillFee }

def Position.convert (f : ℚ → ℚ) (position : Position) : Position :=
  { position with
    instrument := { position.instrument with
      tickSize := f position.instrument.tickSize
      lotSize := f position.instrument.lotSize }
    netQuantity := f position.netQuantity
    averageEntryPrice := f position.averageEntryPrice
    realizedPnl := f position.realizedPnl
    unrealizedPnl := f position.unrealizedPnl }

def BalanceSnapshot.convert (f : ℚ → ℚ) (balance : BalanceSnapshot) : BalanceSnapshot :=
  { balance with
    totalBalance := f balance.totalBalance
    availableBalance := f balance.availableBalance }

namespace LibpqNumbers.Documented

variable {numbers : LibpqNumbers} {print rnd : ℚ → ℚ} (h : numbers.Documented print rnd)
include h

private theorem readOrder_eq : LibpqDatabase.readOrder numbers = fun row => pure
    (row.convert fun x => rnd (print x)) := by
  funext row
  simp only [LibpqDatabase.readOrder, h.read_eq, h.readOptional_eq]
  rfl

private theorem readIntent_eq : LibpqDatabase.readIntent numbers = fun row => pure
    (row.convert fun x => rnd (print x)) := by
  funext row
  simp only [LibpqDatabase.readIntent, h.read_eq, h.readOptional_eq]
  rfl

private theorem readReport_eq : LibpqDatabase.readReport numbers = fun row => pure
    (row.convert fun x => rnd (print x)) := by
  funext row
  simp only [LibpqDatabase.readReport, h.read_eq, h.readOptional_eq]
  rfl

private theorem readPosition_eq :
    LibpqDatabase.readPosition numbers = fun row => pure (row.convert fun x => rnd (print x)) := by
  funext row
  simp only [LibpqDatabase.readPosition, h.read_eq]
  rfl

private theorem readBalance_eq : LibpqDatabase.readBalance numbers = fun row => pure
    (row.convert fun x => rnd (print x)) := by
  funext row
  simp only [LibpqDatabase.readBalance, h.read_eq]
  rfl

end LibpqNumbers.Documented

/-! ### The same calls on both -/

/-- A writing call on a repository that is read by a recovery. -/
inductive StorageCall
  | transaction (call : TransactionCall)
  | saveOrder (request : OrderRequest) (orderId clientOrderId : String)
  | saveOrderUpdate (update : OrderUpdate)
  | savePosition (position : Position)
  | saveBalance (balance : BalanceSnapshot)

def LibpqDatabase.call (database : LibpqDatabase) : StorageCall → LibpqDatabase
  | .transaction (.saveReceived command) => database.saveReceived command
  | .transaction (.saveProcessed transactionId status) => database.saveProcessed transactionId status
  | .transaction (.saveCheckpoint checkpoint) => database.saveCheckpoint checkpoint
  | .saveOrder request orderId clientOrderId => database.saveOrder request orderId clientOrderId
  | .saveOrderUpdate update => database.saveOrderUpdate update
  | .savePosition position => database.savePosition position
  | .saveBalance balance => database.saveBalance balance

/-- The call with the texts that it stores cut at their first NUL. -/
def StorageCall.cut : StorageCall → StorageCall
  | .transaction (.saveReceived command) =>
    .transaction (.saveReceived { command with
      transactionId := cString command.transactionId
      kafkaTopic := cString command.kafkaTopic })
  | .transaction (.saveProcessed transactionId status) =>
    .transaction (.saveProcessed (cString transactionId) (cString status))
  | .transaction (.saveCheckpoint checkpoint) =>
    .transaction (.saveCheckpoint { checkpoint with topic := cString checkpoint.topic })
  | .saveOrder request orderId clientOrderId =>
    .saveOrder { request with
      strategyId := cString request.strategyId
      instrument := request.instrument.cut } (cString orderId) (cString clientOrderId)
  | .saveOrderUpdate update =>
    .saveOrderUpdate { update with
      orderId := cString update.orderId
      clientOrderId := cString update.clientOrderId }
  | .savePosition position =>
    .savePosition { position with
      positionId := cString position.positionId
      instrument := position.instrument.cut }
  | .saveBalance balance => .saveBalance { balance with asset := cString balance.asset }

/-- The call on the repositories that keep maps. -/
def RecoveryService.call (service : RecoveryService) : StorageCall → RecoveryService
  | .transaction call => { service with transactionRepository := service.transactionRepository.call call }
  | .saveOrder request orderId clientOrderId =>
    { service with orderRepository := service.orderRepository.saveOrder request orderId clientOrderId }
  | .saveOrderUpdate update => { service with orderRepository := service.orderRepository.saveOrderUpdate update }
  | .savePosition position => { service with positionRepository := service.positionRepository.savePosition position }
  | .saveBalance balance => { service with balanceRepository := service.balanceRepository.saveBalance balance }

/-- The tables hold what the maps hold. -/
structure Stores (database : LibpqDatabase) (service : RecoveryService) : Prop where
  records : database.transactionRecords.Holds service.transactionRepository.records
  checkpoints : Lists KafkaCheckpoint.key database.kafkaCheckpoints.rows service.transactionRepository.checkpoints
  orders : database.orderRecords.Holds service.orderRepository.orders
  positions : database.positionRecords.Holds service.positionRepository.positions
  balances : database.balanceRecords.Holds service.balanceRepository.balances

namespace Stores

variable {database : LibpqDatabase} {service : RecoveryService}

/-- Overwriting a row by one that is the inserted row again. -/
private theorem getD_map_eq {ρ : Type*} {old : Option ρ} {set : ρ → ρ} {row : ρ} (h : ∀ r ∈ old, set r = row) :
    (old.map set).getD row = row := by
  cases old with
  | none => rfl
  | some r => exact h r rfl

theorem saveReceived (h : Stores database service) (command : TransactionCommand) :
    Stores (database.saveReceived command)
      (service.call (StorageCall.transaction (.saveReceived command)).cut) := by
  have hrecords := h.records.insertOrUpdate receivedAssignment
    { transactionId := cString command.transactionId
      status := "received"
      kafkaTopic := cString command.kafkaTopic
      kafkaPartition := command.kafkaPartition
      kafkaOffset := command.kafkaOffset }
  rw [getD_map_eq] at hrecords
  · exact ⟨hrecords, h.checkpoints, h.orders, h.positions, h.balances⟩
  · intro old hold
    obtain ⟨-, hid⟩ := (h.records.get _ old).1 hold
    cases old
    cases hid
    rfl

theorem saveProcessed (h : Stores database service) (transactionId status : String) :
    Stores (database.saveProcessed transactionId status)
      (service.call (StorageCall.transaction (.saveProcessed transactionId status)).cut) := by
  refine ⟨?_, h.checkpoints, h.orders, h.positions, h.balances⟩
  have hrecords := h.records.insertOrUpdate processedAssignment
    { transactionId := cString transactionId, status := cString status }
  show (database.transactionRecords.insertOrUpdate processedAssignment _).Holds
    (service.transactionRepository.saveProcessed (cString transactionId) (cString status)).records
  unfold PostgresTransactionRepository.saveProcessed
  dsimp only at hrecords ⊢
  cases hold : service.transactionRepository.records[cString transactionId]? with
  | none =>
    rw [hold] at hrecords
    exact hrecords
  | some old =>
    rw [hold] at hrecords
    exact hrecords

theorem saveCheckpoint (h : Stores database service) (checkpoint : KafkaCheckpoint) :
    Stores (database.saveCheckpoint checkpoint)
      (service.call (StorageCall.transaction (.saveCheckpoint checkpoint)).cut) := by
  let row : KafkaCheckpoint := { checkpoint with topic := cString checkpoint.topic }
  have hcheckpoints := h.checkpoints.upsert (checkpointAssignment.set row) row
    (p := fun old => decide (old.partitionKey = row.partitionKey)) (k := row.key)
    (fun old => by
      rw [decide_eq_true_iff, KafkaCheckpoint.key_eq_iff, KafkaCheckpoint.partitionKey, KafkaCheckpoint.partitionKey,
        Prod.mk.injEq])
    (fun _ hold => hold) rfl
  rw [getD_map_eq] at hcheckpoints
  · exact ⟨h.records, hcheckpoints, h.orders, h.positions, h.balances⟩
  · intro old hold
    obtain ⟨htopic, hpartition⟩ := KafkaCheckpoint.key_eq_iff.1 ((h.checkpoints.get _ old).1 hold).2
    cases old
    cases htopic
    cases hpartition
    rfl

theorem saveOrder (h : Stores database service) (request : OrderRequest) (orderId clientOrderId : String) :
    Stores (database.saveOrder request orderId clientOrderId)
      (service.call (StorageCall.saveOrder request orderId clientOrderId).cut) := by
  have horders := h.orders.insertOrUpdate orderAssignment
    { orderId := cString orderId
      clientOrderId := cString clientOrderId
      strategyId := cString request.strategyId
      instrumentId := cString request.instrument.instrumentId
      side := request.side
      orderType := request.type
      status := .created
      quantity := request.quantity
      price := request.price
      filledQuantity := 0 }
  rw [getD_map_eq] at horders
  · exact ⟨h.records, h.checkpoints, horders, h.positions, h.balances⟩
  · intro old hold
    obtain ⟨-, hid⟩ := (h.orders.get _ old).1 hold
    cases old
    cases hid
    rfl

theorem saveOrderUpdate (h : Stores database service) (update : OrderUpdate) :
    Stores (database.saveOrderUpdate update) (service.call (StorageCall.saveOrderUpdate update).cut) := by
  refine ⟨h.records, h.checkpoints, ?_, h.positions, h.balances⟩
  have horders := h.orders.insertOrUpdate updateAssignment
    { orderId := cString update.orderId
      clientOrderId := cString update.clientOrderId
      status := update.status
      filledQuantity := update.filledQuantity }
  show (database.orderRecords.insertOrUpdate updateAssignment _).Holds
    (service.orderRepository.saveOrderUpdate { update with
      orderId := cString update.orderId
      clientOrderId := cString update.clientOrderId }).orders
  unfold InMemoryOrderRepository.saveOrderUpdate
  dsimp only at horders ⊢
  cases hold : service.orderRepository.orders[cString update.orderId]? with
  | none =>
    rw [hold] at horders
    exact horders
  | some old =>
    rw [hold] at horders
    exact horders

theorem savePosition (h : Stores database service) (position : Position) :
    Stores (database.savePosition position) (service.call (StorageCall.savePosition position).cut) := by
  have hpositions := h.positions.insertOrUpdate positionAssignment { position with
    positionId := cString position.positionId
    instrument := position.instrument.cut }
  rw [getD_map_eq] at hpositions
  · exact ⟨h.records, h.checkpoints, h.orders, hpositions, h.balances⟩
  · intro old hold
    obtain ⟨-, hid⟩ := (h.positions.get _ old).1 hold
    have hkept : old.instrument.instrumentId = position.instrument.cut.instrumentId := hid
    unfold positionAssignment
    dsimp only
    rw [hkept]

theorem saveBalance (h : Stores database service) (balance : BalanceSnapshot) :
    Stores (database.saveBalance balance) (service.call (StorageCall.saveBalance balance).cut) := by
  have hbalances := h.balances.insertOrUpdate balanceAssignment { balance with asset := cString balance.asset }
  rw [getD_map_eq] at hbalances
  · exact ⟨h.records, h.checkpoints, h.orders, h.positions, hbalances⟩
  · intro old hold
    obtain ⟨-, hid⟩ := (h.balances.get _ old).1 hold
    cases old
    cases hid
    rfl

theorem call (h : Stores database service) (call : StorageCall) :
    Stores (database.call call) (service.call call.cut) := by
  cases call with
  | transaction call =>
    cases call with
    | saveReceived command => exact h.saveReceived command
    | saveProcessed transactionId status => exact h.saveProcessed transactionId status
    | saveCheckpoint checkpoint => exact h.saveCheckpoint checkpoint
  | saveOrder request orderId clientOrderId => exact h.saveOrder request orderId clientOrderId
  | saveOrderUpdate update => exact h.saveOrderUpdate update
  | savePosition position => exact h.savePosition position
  | saveBalance balance => exact h.saveBalance balance

theorem calls (h : Stores database service) (calls : List StorageCall) :
    Stores (calls.foldl LibpqDatabase.call database)
      ((calls.map StorageCall.cut).foldl RecoveryService.call service) := by
  induction calls generalizing database service with
  | nil => exact h
  | cons call calls ih => exact ih (h.call call)

end Stores

theorem stores_empty (numbers : LibpqNumbers) : Stores { numbers := numbers } {} :=
  ⟨Table.holds_empty, Lists.empty _, Table.holds_empty, Table.holds_empty, Table.holds_empty⟩

/-! ### Recoveries -/

namespace LibpqDatabase

theorem call_numbers (database : LibpqDatabase) (call : StorageCall) :
    (database.call call).numbers = database.numbers := by
  cases call with
  | transaction call => cases call <;> rfl
  | _ => rfl

private theorem run_numbers (numbers : LibpqNumbers) (calls : List StorageCall) :
    (calls.foldl call { numbers := numbers }).numbers = numbers := by
  induction calls using List.reverseRecOn with
  | nil => rfl
  | append_singleton calls call ih =>
    rw [List.foldl_concat, call_numbers, ih]

/-- The statuses that the query names are those that `all_open_orders` of the other repositories selects. -/
private theorem selectsStatus_eq (status : OrderStatus) :
    decide (status.code ∈ [0, 1, 2, 3, 5]) = InMemoryOrderRepository.selectsStatus status := by
  cases status <;> rfl

/-- What `RecoveryService::recover` returns over a database. -/
def recoverySnapshot (database : LibpqDatabase) : Option RecoverySnapshot := do
  let openOrders ← database.allOpenOrders
  let positions ← database.allPositions
  let balances ← database.allBalances
  return {
    openOrders := openOrders
    positions := positions
    balances := balances
    kafkaCheckpoints := RecoveryService.recoverCheckpoints database.allCheckpoints database.allRecords }

end LibpqDatabase

/-- What is recovered, with its numbers changed. -/
def RecoverySnapshot.convert (f : ℚ → ℚ) (snapshot : RecoverySnapshot) : RecoverySnapshot :=
  { snapshot with
    openOrders := snapshot.openOrders.map (OrderRecord.convert f)
    positions := snapshot.positions.map (Position.convert f)
    balances := snapshot.balances.map (BalanceSnapshot.convert f) }

private theorem mapM_pure_option {α β : Type*} (f : α → β) (o : Option α) :
    o.mapM (m := Option) (fun a => pure (f a)) = some (o.map f) := by
  cases o <;> rfl

namespace Stores

variable {database : LibpqDatabase} {service : RecoveryService} (h : Stores database service) {print rnd : ℚ → ℚ}
  (hnumbers : database.numbers.Documented print rnd)
include h hnumbers

theorem getOrder (id : String) : database.getOrder id =
    some ((service.orderRepository.getOrder (cString id)).map (OrderRecord.convert fun x => rnd (print x))) := by
  rw [LibpqDatabase.getOrder, h.orders.select, hnumbers.readOrder_eq, mapM_pure_option]
  rfl

theorem getPosition (i : String) : database.getPosition i =
    some ((service.positionRepository.positions[cString i]?).map (Position.convert fun x => rnd (print x))) := by
  rw [LibpqDatabase.getPosition, h.positions.select, hnumbers.readPosition_eq, mapM_pure_option]

theorem getBalance (asset : String) : database.getBalance asset =
    some ((service.balanceRepository.balances[cString asset]?).map (BalanceSnapshot.convert fun x => rnd (print x))) := by
  rw [LibpqDatabase.getBalance, h.balances.select, hnumbers.readBalance_eq, mapM_pure_option]

/-- A recovery from tables and one from the maps that they hold return the same, at some order of iteration, with the
numbers as they are read. -/
theorem recovers :
    ∃ iteration : service.Iteration, database.allRecords = iteration.records ∧ ∀ exchangeSnapshots,
      database.recoverySnapshot =
        some ((service.recover iteration exchangeSnapshots).1.convert fun x => rnd (print x)) := by
  have hstatus : (fun record : OrderRecord => decide (record.status.code ∈ [0, 1, 2, 3, 5])) =
      fun record => InMemoryOrderRepository.selectsStatus record.status :=
    funext fun record => LibpqDatabase.selectsStatus_eq record.status
  refine ⟨{
    openOrders := database.orderRecords.rows.filter fun record => decide (record.status.code ∈ [0, 1, 2, 3, 5])
    openOrders_perm := ?_
    positions := database.positionRecords.rows
    positions_perm := h.positions.perm
    balances := database.balanceRecords.rows
    balances_perm := h.balances.perm
    records := database.transactionRecords.rows
    records_perm := h.records.perm
    checkpoints := database.kafkaCheckpoints.rows
    checkpoints_perm := h.checkpoints.perm }, rfl, fun _ => ?_⟩
  · rw [hstatus]
    exact h.orders.perm.filter _
  · rw [LibpqDatabase.recoverySnapshot, LibpqDatabase.allOpenOrders, LibpqDatabase.allPositions,
      LibpqDatabase.allBalances, hnumbers.readOrder_eq, hnumbers.readPosition_eq, hnumbers.readBalance_eq,
      List.mapM_pure, List.mapM_pure, List.mapM_pure]
    rfl

end Stores

/-- After any calls on the database, and the same calls with their texts cut at the first NUL on the repositories that
keep maps, the lookups of the database give the records of the maps, and a recovery from the database returns what a
recovery from the maps returns at some order of iteration, every number as `std::to_string` prints and `std::stod`
reads it. -/
theorem recovery_from_database {numbers : LibpqNumbers} {print rnd : ℚ → ℚ} (hnumbers : numbers.Documented print rnd)
    (calls : List StorageCall) :
    let stored := fun x => rnd (print x)
    let database := calls.foldl LibpqDatabase.call { numbers := numbers }
    let service := (calls.map StorageCall.cut).foldl RecoveryService.call {}
    (∀ id, database.getRecord id = service.transactionRepository.records[cString id]?) ∧
      (∀ id, database.getOrder id =
        some ((service.orderRepository.getOrder (cString id)).map (OrderRecord.convert stored))) ∧
      (∀ i, database.getPosition i =
        some ((service.positionRepository.positions[cString i]?).map (Position.convert stored))) ∧
      (∀ asset, database.getBalance asset =
        some ((service.balanceRepository.balances[cString asset]?).map (BalanceSnapshot.convert stored))) ∧
      ∃ iteration : service.Iteration, database.allRecords = iteration.records ∧
        ∀ exchangeSnapshots, database.recoverySnapshot =
          some ((service.recover iteration exchangeSnapshots).1.convert stored) := by
  intro stored database service
  have hsame : database.numbers = numbers := LibpqDatabase.run_numbers numbers calls
  have hstores : Stores database service := (stores_empty numbers).calls calls
  rw [← hsame] at hnumbers
  exact ⟨fun id => hstores.records.select _, hstores.getOrder hnumbers, hstores.getPosition hnumbers,
    hstores.getBalance hnumbers, hstores.recovers hnumbers⟩

/-- An order saved under an id with a NUL is found under what stands before it. -/
theorem recovery_from_database_exampleCalls :
    let database := [StorageCall.saveOrder { quantity := 1, price := some 100 } "ord-1\x00a" "cli-1",
      .saveBalance { asset := "usdt", totalBalance := 100, availableBalance := 100 }].foldl LibpqDatabase.call
        { numbers := .decimal }
    (database.getOrder "ord-1").map (Option.map OrderRecord.quantity) = some (some 1) := by
  intro database
  rw [(recovery_from_database LibpqNumbers.decimal_documented _).2.1 "ord-1"]
  decide +kernel

/-! ### Intents and reports -/

namespace LibpqDatabase

private theorem appendIntent_run (database : LibpqDatabase) (intents : List OrderIntentRecord) :
    intents.foldl appendIntent database =
      { database with
        orderIntentRecords := database.orderIntentRecords.insertAll intentAssignment (intents.map intentRow) } := by
  induction intents generalizing database with
  | nil => rfl
  | cons intent intents ih =>
    rw [List.foldl_cons, ih]
    rfl

private theorem appendReport_run (database : LibpqDatabase) (reports : List ExecutionReportRecord) :
    reports.foldl appendReport database =
      { database with
        executionReportRecords :=
          database.executionReportRecords.insertAll reportAssignment (reports.map reportRow) } := by
  induction reports generalizing database with
  | nil => rfl
  | cons report reports ih =>
    rw [List.foldl_cons, ih]
    rfl

end LibpqDatabase

/-- The intent's texts have no NUL, and its numbers at most six decimals. -/
structure OrderIntentRecord.Storable (rnd : ℚ → ℚ) (intent : OrderIntentRecord) : Prop where
  texts : ∀ text ∈ [intent.requestId, intent.strategyId, intent.instrumentId], '\x00' ∉ text.toList
  numbers : ∀ x ∈ intent.quantity :: intent.price.toList, x ∈ sixDecimals rnd

/-- The report's texts have no NUL, its numbers at most six decimals, and it has a reason. -/
structure ExecutionReportRecord.Storable (rnd : ℚ → ℚ) (report : ExecutionReportRecord) : Prop where
  texts : ∀ text ∈ [report.reportId, report.orderId, report.clientOrderId, report.instrumentId] ++ report.reason.toList,
    '\x00' ∉ text.toList
  numbers : ∀ x ∈ [report.cumulativeFilledQuantity, report.lastFillFee] ++ report.lastFillPrice.toList,
    x ∈ sixDecimals rnd
  reason : report.reason ≠ none

section Logs

variable {numbers : LibpqNumbers} {print rnd : ℚ → ℚ} (hnumbers : numbers.Documented print rnd)
include hnumbers

/-- A price survives exactly if the number it has does. -/
private theorem map_price_iff (price : Option ℚ) :
    price.map (fun x => rnd (print x)) = price ↔ ∀ x ∈ price.toList, x ∈ sixDecimals rnd := by
  cases price with
  | none => simp
  | some x => simp [hnumbers.kept_iff]

private theorem convert_intentRow_iff (intent : OrderIntentRecord) :
    (LibpqDatabase.intentRow intent).convert (fun x => rnd (print x)) = intent ↔ intent.Storable rnd := by
  rcases intent with ⟨requestId, strategyId, instrumentId, side, type, quantity, price⟩
  simp only [OrderIntentRecord.convert, LibpqDatabase.intentRow, OrderIntentRecord.mk.injEq, cString_eq_iff,
    hnumbers.kept_iff, map_price_iff hnumbers]
  constructor
  · rintro ⟨h₁, h₂, h₃, -, -, h₄, h₅⟩
    exact ⟨by simp [*], List.forall_mem_cons.2 ⟨h₄, h₅⟩⟩
  · rintro ⟨htexts, hall⟩
    simp only [List.forall_mem_cons] at htexts hall
    tauto

private theorem convert_reportRow_iff (report : ExecutionReportRecord) :
    (LibpqDatabase.reportRow report).convert (fun x => rnd (print x)) = report ↔ report.Storable rnd := by
  rcases report with ⟨reportId, orderId, clientOrderId, instrumentId, side, status, filled, price, fee, reason, time⟩
  cases reason with
  | none =>
    refine ⟨fun h => ?_, fun h => absurd rfl h.reason⟩
    simp [ExecutionReportRecord.convert, LibpqDatabase.reportRow] at h
  | some reason =>
    simp only [ExecutionReportRecord.convert, LibpqDatabase.reportRow, ExecutionReportRecord.mk.injEq,
      Option.getD_some, Option.some.injEq, cString_eq_iff, hnumbers.kept_iff, map_price_iff hnumbers]
    constructor
    · rintro ⟨h₁, h₂, h₃, h₄, -, -, h₅, h₆, h₇, h₈, -⟩
      exact ⟨by simp [*], List.forall_mem_append.2 ⟨by simp [*], h₆⟩, nofun⟩
    · rintro ⟨htexts, hall, -⟩
      simp only [List.forall_mem_append, List.forall_mem_cons, Option.toList_some] at htexts hall
      tauto

end Logs

/-- Intents that are appended to an empty table are all read back, in order, exactly if their request ids are distinct,
their texts have no NUL and their numbers at most six decimals; reports exactly if the same holds of them and each of
them has a reason. -/
theorem database_logs {numbers : LibpqNumbers} {print rnd : ℚ → ℚ} (hnumbers : numbers.Documented print rnd)
    (intents : List OrderIntentRecord) (reports : List ExecutionReportRecord) :
    ((intents.foldl LibpqDatabase.appendIntent { numbers := numbers }).allIntents = some intents ↔
      (intents.map OrderIntentRecord.requestId).Nodup ∧ ∀ intent ∈ intents, intent.Storable rnd) ∧
    ((reports.foldl LibpqDatabase.appendReport { numbers := numbers }).allReports = some reports ↔
      (reports.map ExecutionReportRecord.reportId).Nodup ∧ ∀ report ∈ reports, report.Storable rnd) := by
  have hcut : ∀ {id id' : String}, id = cString id' → cString id = id := by
    rintro _ id' rfl
    exact cString_cString id'
  have hintents : (({} : Table OrderIntentRecord.requestId).insertAll intentAssignment
      (intents.map LibpqDatabase.intentRow)).rows.map (OrderIntentRecord.convert fun x => rnd (print x)) = intents ↔ _ :=
    Table.map_rows_insertAll_iff intentAssignment (fun _ _ hkey => hcut hkey) intents
  have hreports : (({} : Table ExecutionReportRecord.reportId).insertAll reportAssignment
      (reports.map LibpqDatabase.reportRow)).rows.map (ExecutionReportRecord.convert fun x => rnd (print x)) =
        reports ↔ _ :=
    Table.map_rows_insertAll_iff reportAssignment (fun _ _ hkey => hcut hkey) reports
  simp only [convert_intentRow_iff hnumbers] at hintents
  simp only [convert_reportRow_iff hnumbers] at hreports
  rw [LibpqDatabase.appendIntent_run, LibpqDatabase.appendReport_run, LibpqDatabase.allIntents,
    LibpqDatabase.allReports, hnumbers.readIntent_eq, hnumbers.readReport_eq, List.mapM_pure, List.mapM_pure]
  constructor
  · refine Option.some_inj.trans (hintents.trans (and_congr_left fun hstorable => ?_))
    have hids : intents.map (fun intent => (LibpqDatabase.intentRow intent).requestId) =
        intents.map OrderIntentRecord.requestId :=
      List.map_congr_left fun intent hintent =>
        cString_of_notMem ((hstorable intent hintent).texts _ (List.mem_cons_self ..))
    rw [hids]
  · refine Option.some_inj.trans (hreports.trans (and_congr_left fun hstorable => ?_))
    have hids : reports.map (fun report => (LibpqDatabase.reportRow report).reportId) =
        reports.map ExecutionReportRecord.reportId :=
      List.map_congr_left fun report hreport =>
        cString_of_notMem ((hstorable report hreport).texts _ (List.mem_cons_self ..))
    rw [hids]

/-- Two intents with distinct ids are read back. -/
theorem database_logs_exampleIntents :
    let intents : List OrderIntentRecord := [{ requestId := "req-1", quantity := 1 }, { requestId := "req-2" }]
    (intents.foldl LibpqDatabase.appendIntent { numbers := .decimal }).allIntents = some intents := by
  intro intents
  refine (database_logs LibpqNumbers.decimal_documented intents []).1.2 ⟨by decide, fun intent hintent => ?_⟩
  have hall : ∀ intent ∈ intents, (∀ text ∈ [intent.requestId, intent.strategyId, intent.instrumentId],
      '\x00' ∉ text.toList) ∧ ∀ x ∈ intent.quantity :: intent.price.toList, x ∈ toStringNumbers ∧ toDouble x = x := by
    decide +kernel
  exact ⟨(hall intent hintent).1, fun x hx => ⟨x, (hall intent hintent).2 x hx⟩⟩

end Wall
