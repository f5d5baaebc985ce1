import Wall.OrderIntents

/-!
# The state files

The files of `infrastructure/postgres_repositories.cpp` that the other modules leave out: transactions, checkpoints,
execution reports and balances; and the eight files together (`StateFile`), each with what its columns hold.  A line
with the right number of fields is decoded exactly if every column can be read (`StateFile.parse_isSome_iff`).
-/

namespace Wall

open KeyedMap ReplayService

/-! ### Transactions and checkpoints -/

namespace PostgresTransactionRepository

def format : RecordFormat TransactionRecord where
  fieldCount := 5
  fields record := [
    record.transactionId,
    record.status,
    record.kafkaTopic,
    Int.repr record.kafkaPartition,
    Int.repr record.kafkaOffset]
  parse
    | [transactionId, status, kafkaTopic, kafkaPartition, kafkaOffset] => do
      return {
        transactionId := transactionId
        status := status
        kafkaTopic := kafkaTopic
        kafkaPartition := ← stoi kafkaPartition
        kafkaOffset := ← stoll kafkaOffset }
    | _ => none

def load (file : Option String) : Option (StringMap TransactionRecord) := do
  return ofValues TransactionRecord.transactionId (← format.load file)

/-- The records in the order of their ids. -/
def flush (repository : PostgresTransactionRepository) : String :=
  format.flush (repository.records.toList.map Prod.snd)

def checkpointFormat : RecordFormat KafkaCheckpoint where
  fieldCount := 3
  fields checkpoint := [checkpoint.topic, Int.repr checkpoint.partition, Int.repr checkpoint.offset]
  parse
    | [topic, partition, offset] => do
      return {
        topic := topic
        partition := ← stoi partition
        offset := ← stoll offset }
    | _ => none

/-- The key of a checkpoint. -/
def checkpointKey (checkpoint : KafkaCheckpoint) : String :=
  checkpoint.topic ++ "#" ++ toString checkpoint.partition

def loadCheckpoints (file : Option String) : Option (StringMap KafkaCheckpoint) := do
  return ofValues checkpointKey (← checkpointFormat.load file)

/-- The checkpoints in the order of their keys. -/
def flushCheckpoints (repository : PostgresTransactionRepository) : String :=
  checkpointFormat.flush (repository.checkpoints.toList.map Prod.snd)

end PostgresTransactionRepository

/-! ### Execution reports -/

structure ExecutionReportRecord where
  reportId : String := ""
  orderId : String := ""
  clientOrderId : String := ""
  instrumentId : String := ""
  side : OrderSide := .buy
  status : OrderStatus := .created
  cumulativeFilledQuantity : ℚ := 0
  lastFillPrice : Option ℚ := none
  lastFillFee : ℚ := 0
  reason : Option String := none
  exchangeTimestamp : Int := 0
  deriving DecidableEq, Inhabited, Repr

namespace PostgresExecutionReportRepository

variable (text : NumberText)

def format : RecordFormat ExecutionReportRecord where
  fieldCount := 11
  fields report := [
    report.reportId,
    report.orderId,
    report.clientOrderId,
    report.instrumentId,
    Int.repr report.side.code,
    Int.repr report.status.code,
    text.precise report.cumulativeFilledQuantity,
    text.encodeOptionalDouble report.lastFillPrice,
    text.precise report.lastFillFee,
    report.reason.getD "",
    Int.repr report.exchangeTimestamp]
  parse
    | [reportId, orderId, clientOrderId, instrumentId, side, status, cumulativeFilledQuantity, lastFillPrice,
        lastFillFee, reason, exchangeTimestamp] => do
      return {
        reportId := reportId
        orderId := orderId
        clientOrderId := clientOrderId
        instrumentId := instrumentId
        side := ← enumerator OrderSide.ofCode side
        status := ← enumerator OrderStatus.ofCode status
        cumulativeFilledQuantity := ← text.stod cumulativeFilledQuantity
        lastFillPrice := ← text.decodeOptionalDouble lastFillPrice
        lastFillFee := ← text.stod lastFillFee
        reason := if reason = "" then none else some reason
        exchangeTimestamp := ← stoll exchangeTimestamp }
    | _ => none

def load (file : Option String) : Option (List ExecutionReportRecord) := (format text).load file

end PostgresExecutionReportRepository

/-! ### Balances -/

namespace PostgresBalanceRepository

variable (text : NumberText)

def format : RecordFormat BalanceSnapshot where
  fieldCount := 3
  fields balance := [balance.asset, text.precise balance.totalBalance, text.precise balance.availableBalance]
  parse
    | [asset, totalBalance, availableBalance] => do
      return {
        asset := asset
        totalBalance := ← text.stod totalBalance
        availableBalance := ← text.stod availableBalance }
    | _ => none

def load (file : Option String) : Option InMemoryBalanceRepository := do
  return { balances := ofValues BalanceSnapshot.asset (← (format text).load file) }

/-- The balances in the order of their assets. -/
def flush (repository : InMemoryBalanceRepository) : String :=
  (format text).flush (repository.balances.toList.map Prod.snd)

end PostgresBalanceRepository

/-! ### Columns -/

/-- What a column of a file holds: text, a code or another `int`, a `std::int64_t`, a double, or a double or
nothing. -/
inductive Column
  | text
  | int
  | long
  | number
  | optionalNumber
  deriving DecidableEq, Repr

/-- The conversion of the column does not throw on this field. -/
def Column.Readable (number : NumberText) : Column → String → Prop
  | .text, _ => True
  | .int, field => (stoi field).isSome
  | .long, field => (stoll field).isSome
  | .number, field => (number.stod field).isSome
  | .optionalNumber, field => field = "" ∨ (number.stod field).isSome

@[simp] theorem enumerator_isSome {α : Type*} (ofCode : Int → α) (field : String) :
    (enumerator ofCode field).isSome = (stoi field).isSome := by
  rw [enumerator, Option.isSome_map]

@[simp] theorem NumberText.decodeOptionalDouble_isSome (number : NumberText) (field : String) :
    (number.decodeOptionalDouble field).isSome = true ↔ field = "" ∨ (number.stod field).isSome = true := by
  unfold decodeOptionalDouble
  by_cases h : field = "" <;> simp [h]

/-- A conversion whose result does not decide what comes after it. -/
private theorem isSome_bind_iff {α β : Type*} {x : Option α} {f : α → Option β} {p : Prop}
    (h : ∀ a, (f a).isSome = true ↔ p) : (x.bind f).isSome = true ↔ x.isSome = true ∧ p := by
  cases x <;> simp [h]

private theorem isSome_some_iff {α : Type*} {a : α} : (some a).isSome = true ↔ True := iff_of_true rfl trivial

/-- The files that the repositories load when they are constructed. -/
inductive StateFile
  | transactions
  | checkpoints
  | orders
  | fills
  | intents
  | executionReports
  | positions
  | balances
  deriving DecidableEq, Repr

namespace StateFile

def Record : StateFile → Type
  | transactions => TransactionRecord
  | checkpoints => KafkaCheckpoint
  | orders => OrderRecord
  | fills => FillEvent
  | intents => OrderIntentRecord
  | executionReports => ExecutionReportRecord
  | positions => Position
  | balances => BalanceSnapshot

/-- What the repository holds of the file. -/
def Contents : StateFile → Type
  | transactions => StringMap TransactionRecord
  | checkpoints => StringMap KafkaCheckpoint
  | orders => InMemoryOrderRepository
  | fills => InMemoryFillRepository
  | intents => List OrderIntentRecord
  | executionReports => List ExecutionReportRecord
  | positions => InMemoryPositionRepository
  | balances => InMemoryBalanceRepository

def format (text : NumberText) : (file : StateFile) → RecordFormat file.Record
  | transactions => PostgresTransactionRepository.format
  | checkpoints => PostgresTransactionRepository.checkpointFormat
  | orders => PostgresOrderRepository.format text
  | fills => PostgresFillRepository.format text
  | intents => PostgresOrderIntentRepository.format text
  | executionReports => PostgresExecutionReportRepository.format text
  | positions => PostgresPositionRepository.format text
  | balances => PostgresBalanceRepository.format text

/-- The contents that the records of a file make up. -/
def ofRecords : (file : StateFile) → List file.Record → file.Contents
  | transactions => fun records => (ofValues TransactionRecord.transactionId records : StringMap TransactionRecord)
  | checkpoints => fun records =>
    (ofValues PostgresTransactionRepository.checkpointKey records : StringMap KafkaCheckpoint)
  | orders => fun records => ({ orders := ofValues OrderRecord.orderId records } : InMemoryOrderRepository)
  | fills => fun records => ({ fills := records } : InMemoryFillRepository)
  | intents => fun records => records
  | executionReports => fun records => records
  | positions => fun records =>
    ({ positions := ofValues (fun position => position.instrument.instrumentId) records } : InMemoryPositionRepository)
  | balances => fun records => ({ balances := ofValues BalanceSnapshot.asset records } : InMemoryBalanceRepository)

/-- `load` of the repository, on the text of its file if there is one; none where it throws. -/
def load (text : NumberText) : (file : StateFile) → Option String → Option file.Contents
  | transactions => PostgresTransactionRepository.load
  | checkpoints => PostgresTransactionRepository.loadCheckpoints
  | orders => PostgresOrderRepository.load text
  | fills => PostgresFillRepository.load text
  | intents => PostgresOrderIntentRepository.load text
  | executionReports => PostgresExecutionReportRepository.load text
  | positions => PostgresPositionRepository.load text
  | balances => PostgresBalanceRepository.load text

/-- What the columns of the file hold. -/
def columns : StateFile → List Column
  | transactions => [.text, .text, .text, .int, .long]
  | checkpoints => [.text, .int, .long]
  | orders => [.text, .text, .text, .text, .int, .int, .int, .number, .optionalNumber, .number]
  | fills => [.text, .text, .text, .text, .text, .text, .text, .number, .number, .int, .number, .number, .number]
  | intents => [.text, .text, .text, .int, .int, .number, .optionalNumber]
  | executionReports =>
    [.text, .text, .text, .text, .int, .int, .number, .optionalNumber, .number, .text, .long]
  | positions =>
    [.text, .text, .text, .text, .text, .text, .number, .number, .number, .number, .number, .number]
  | balances => [.text, .number, .number]

variable (text : NumberText) (file : StateFile)

/-- The repository holds the records that the format reads. -/
theorem load_eq (content : Option String) :
    file.load text content = ((file.format text).load content).map file.ofRecords := by
  cases file with
  | intents | executionReports => exact Option.map_id'.symm
  | _ => exact Option.map_eq_bind.symm

/-- A line with the right number of fields is decoded exactly if the conversion of each column can read its field. -/
theorem parse_isSome_iff {fields : List String} (h : fields.length = (file.format text).fieldCount) :
    ((file.format text).parse fields).isSome = true ↔
      ∀ entry ∈ file.columns.zip fields, entry.1.Readable text entry.2 := by
  cases file with
  | transactions =>
    match fields, h with
    | [_, _, _, _, _], _ =>
      refine (isSome_bind_iff fun _ => isSome_bind_iff fun _ => isSome_some_iff).trans ?_
      simp [columns, Column.Readable]
  | checkpoints =>
    match fields, h with
    | [_, _, _], _ =>
      refine (isSome_bind_iff fun _ => isSome_bind_iff fun _ => isSome_some_iff).trans ?_
      simp [columns, Column.Readable]
  | orders =>
    match fields, h with
    | [_, _, _, _, _, _, _, _, _, _], _ =>
      refine (isSome_bind_iff fun _ => isSome_bind_iff fun _ => isSome_bind_iff fun _ =>
        isSome_bind_iff fun _ => isSome_bind_iff fun _ => isSome_bind_iff fun _ => isSome_some_iff).trans ?_
      simp [columns, Column.Readable]
  | fills =>
    match fields, h with
    | [_, _, _, _, _, _, _, _, _, _, _, _, _], _ =>
      refine (isSome_bind_iff fun _ => isSome_bind_iff fun _ => isSome_bind_iff fun _ =>
        isSome_bind_iff fun _ => isSome_bind_iff fun _ => isSome_bind_iff fun _ => isSome_some_iff).trans ?_
      simp [columns, Column.Readable]
  | intents =>
    match fields, h with
    | [_, _, _, _, _, _, _], _ =>
      refine (isSome_bind_iff fun _ => isSome_bind_iff fun _ => isSome_bind_iff fun _ =>
        isSome_bind_iff fun _ => isSome_some_iff).trans ?_
      simp [columns, Column.Readable]
  | executionReports =>
    match fields, h with
    | [_, _, _, _, _, _, _, _, _, _, _], _ =>
      refine (isSome_bind_iff fun _ => isSome_bind_iff fun _ => isSome_bind_iff fun _ =>
        isSome_bind_iff fun _ => isSome_bind_iff fun _ => isSome_bind_iff fun _ => isSome_some_iff).trans ?_
      simp [columns, Column.Readable]
  | positions =>
    match fields, h with
    | [_, _, _, _, _, _, _, _, _, _, _, _], _ =>
      refine (isSome_bind_iff fun _ => isSome_bind_iff fun _ => isSome_bind_iff fun _ =>
        isSome_bind_iff fun _ => isSome_bind_iff fun _ => isSome_bind_iff fun _ => isSome_some_iff).trans ?_
      simp [columns, Column.Readable]
  | balances =>
    match fields, h with
    | [_, _, _], _ =>
      refine (isSome_bind_iff fun _ => isSome_bind_iff fun _ => isSome_some_iff).trans ?_
      simp [columns, Column.Readable]

end StateFile

end Wall
