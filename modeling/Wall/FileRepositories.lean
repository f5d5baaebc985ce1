import Wall.NumberFormats
import Wall.RecordFiles
import Wall.Storage

/-!
# The file-backed repositories

`PostgresOrderRepository`, `PostgresFillRepository` and `PostgresPositionRepository` of
`infrastructure/postgres_repositories.cpp`: the in-memory repositories over a file each, which is loaded by the
constructor and rewritten by every call.  They stream their numbers with the default precision, an order's price goes
through `std::to_string`.  So a new repository on the directory holds the same records exactly if no call has written
the file or every number held has at most six significant digits, a price at most six decimals
(`reloaded_records_iff`).
-/

namespace Wall

open KeyedMap ReplayService Rounding

/-! ### Enumerators

The cast of a code that names no enumerator does not throw; the last enumerator stands for it. -/

def OrderSide.code : OrderSide → Int
  | .buy => 0
  | .sell => 1

def OrderSide.ofCode : Int → OrderSide
  | 0 => .buy
  | _ => .sell

def OrderType.code : OrderType → Int
  | .market => 0
  | .limit => 1

def OrderType.ofCode : Int → OrderType
  | 0 => .market
  | _ => .limit

def OrderStatus.code : OrderStatus → Int
  | .created => 0
  | .pendingSubmit => 1
  | .acknowledged => 2
  | .partiallyFilled => 3
  | .filled => 4
  | .pendingCancel => 5
  | .canceled => 6
  | .rejected => 7
  | .expired => 8

def OrderStatus.ofCode : Int → OrderStatus
  | 0 => .created
  | 1 => .pendingSubmit
  | 2 => .acknowledged
  | 3 => .partiallyFilled
  | 4 => .filled
  | 5 => .pendingCancel
  | 6 => .canceled
  | 7 => .rejected
  | _ => .expired

/-- An enumerator of a field. -/
def enumerator {α : Type*} (ofCode : Int → α) (field : String) : Option α := (stoi field).map ofCode

theorem OrderSide.enumerator_code (side : OrderSide) : enumerator ofCode (Int.repr side.code) = some side := by
  rw [enumerator, stoi_repr (by cases side <;> decide)]
  cases side <;> rfl

theorem OrderType.enumerator_code (type : OrderType) : enumerator ofCode (Int.repr type.code) = some type := by
  rw [enumerator, stoi_repr (by cases type <;> decide)]
  cases type <;> rfl

theorem OrderStatus.enumerator_code (status : OrderStatus) :
    enumerator ofCode (Int.repr status.code) = some status := by
  rw [enumerator, stoi_repr (by cases status <;> decide)]
  cases status <;> rfl

/-! ### Orders -/

namespace PostgresOrderRepository

variable (text : NumberText)

def format : RecordFormat OrderRecord where
  fieldCount := 10
  fields record := [
    record.orderId,
    record.clientOrderId,
    record.strategyId,
    record.instrumentId,
    Int.repr record.side.code,
    Int.repr record.orderType.code,
    Int.repr record.status.code,
    text.streamed record.quantity,
    text.encodeOptionalDouble record.price,
    text.streamed record.filledQuantity]
  parse
    | [orderId, clientOrderId, strategyId, instrumentId, side, orderType, status, quantity, price, filledQuantity] => do
      return {
        orderId := orderId
        clientOrderId := clientOrderId
        strategyId := strategyId
        instrumentId := instrumentId
        side := ← enumerator OrderSide.ofCode side
        orderType := ← enumerator OrderType.ofCode orderType
        status := ← enumerator OrderStatus.ofCode status
        quantity := ← text.stod quantity
        price := ← text.decodeOptionalDouble price
        filledQuantity := ← text.stod filledQuantity }
    | _ => none

def load (file : Option String) : Option InMemoryOrderRepository := do
  return { orders := ofValues OrderRecord.orderId (← (format text).load file) }

/-- The records in the order of their ids. -/
def flush (repository : InMemoryOrderRepository) : String :=
  (format text).flush (repository.orders.toList.map Prod.snd)

end PostgresOrderRepository

/-! ### Fills -/

namespace PostgresFillRepository

variable (text : NumberText)

def format : RecordFormat FillEvent where
  fieldCount := 13
  fields fill := [
    fill.fillId,
    fill.orderId,
    fill.instrument.instrumentId,
    fill.instrument.exchange,
    fill.instrument.symbol,
    fill.instrument.baseAsset,
    fill.instrument.quoteAsset,
    text.streamed fill.instrument.tickSize,
    text.streamed fill.instrument.lotSize,
    Int.repr fill.side.code,
    text.streamed fill.price,
    text.streamed fill.quantity,
    text.streamed fill.fee]
  parse
    | [fillId, orderId, instrumentId, exchange, symbol, baseAsset, quoteAsset, tickSize, lotSize, side, price,
        quantity, fee] => do
      return {
        fillId := fillId
        orderId := orderId
        instrument := {
          instrumentId := instrumentId
          exchange := exchange
          symbol := symbol
          baseAsset := baseAsset
          quoteAsset := quoteAsset
          tickSize := ← text.stod tickSize
          lotSize := ← text.stod lotSize }
        side := ← enumerator OrderSide.ofCode side
        price := ← text.stod price
        quantity := ← text.stod quantity
        fee := ← text.stod fee }
    | _ => none

def load (file : Option String) : Option InMemoryFillRepository := do
  return { fills := ← (format text).load file }

def flush (repository : InMemoryFillRepository) : String := (format text).flush repository.fills

end PostgresFillRepository

/-! ### Positions -/

namespace PostgresPositionRepository

variable (text : NumberText)

def format : RecordFormat Position where
  fieldCount := 12
  fields position := [
    position.positionId,
    position.instrument.instrumentId,
    position.instrument.exchange,
    position.instrument.symbol,
    position.instrument.baseAsset,
    position.instrument.quoteAsset,
    text.streamed position.instrument.tickSize,
    text.streamed position.instrument.lotSize,
    text.streamed position.netQuantity,
    text.streamed position.averageEntryPrice,
    text.streamed position.realizedPnl,
    text.streamed position.unrealizedPnl]
  parse
    | [positionId, instrumentId, exchange, symbol, baseAsset, quoteAsset, tickSize, lotSize, netQuantity,
        averageEntryPrice, realizedPnl, unrealizedPnl] => do
      return {
        positionId := positionId
        instrument := {
          instrumentId := instrumentId
          exchange := exchange
          symbol := symbol
          baseAsset := baseAsset
          quoteAsset := quoteAsset
          tickSize := ← text.stod tickSize
          lotSize := ← text.stod lotSize }
        netQuantity := ← text.stod netQuantity
        averageEntryPrice := ← text.stod averageEntryPrice
        realizedPnl := ← text.stod realizedPnl
        unrealizedPnl := ← text.stod unrealizedPnl }
    | _ => none

def load (file : Option String) : Option InMemoryPositionRepository := do
  return { positions := ofValues (fun position => position.instrument.instrumentId) (← (format text).load file) }

/-- The records in the order of their instrument ids. -/
def flush (repository : InMemoryPositionRepository) : String :=
  (format text).flush (repository.positions.toList.map Prod.snd)

end PostgresPositionRepository

/-! ### What a record is read back as -/

def OrderRecord.texts (record : OrderRecord) : List String :=
  [record.orderId, record.clientOrderId, record.strategyId, record.instrumentId]

def Instrument.texts (instrument : Instrument) : List String :=
  [instrument.instrumentId, instrument.exchange, instrument.symbol, instrument.baseAsset, instrument.quoteAsset]

def FillEvent.texts (fill : FillEvent) : List String := fill.fillId :: fill.orderId :: fill.instrument.texts

def Position.texts (position : Position) : List String := position.positionId :: position.instrument.texts

/-- The record with its numbers rounded, the price in the way in which it is printed. -/
def OrderRecord.round (rnd rndOptional : ℚ → ℚ) (record : OrderRecord) : OrderRecord :=
  { record with
    quantity := rnd record.quantity
    price := record.price.map rndOptional
    filledQuantity := rnd record.filledQuantity }

def Instrument.round (rnd : ℚ → ℚ) (instrument : Instrument) : Instrument :=
  { instrument with
    tickSize := rnd instrument.tickSize
    lotSize := rnd instrument.lotSize }

def FillEvent.round (rnd : ℚ → ℚ) (fill : FillEvent) : FillEvent :=
  { fill with
    instrument := fill.instrument.round rnd
    price := rnd fill.price
    quantity := rnd fill.quantity
    fee := rnd fill.fee }

def Position.round (rnd : ℚ → ℚ) (position : Position) : Position :=
  { position with
    instrument := position.instrument.round rnd
    netQuantity := rnd position.netQuantity
    averageEntryPrice := rnd position.averageEntryPrice
    realizedPnl := rnd position.realizedPnl
    unrealizedPnl := rnd position.unrealizedPnl }

/-- The numbers of the record have at most six significant digits, its price at most six decimals. -/
def OrderRecord.Survives (record : OrderRecord) : Prop :=
  record.quantity ∈ streamedNumbers ∧ (∀ price ∈ record.price, price ∈ toStringNumbers) ∧
    record.filledQuantity ∈ streamedNumbers

def Instrument.Survives (instrument : Instrument) : Prop :=
  instrument.tickSize ∈ streamedNumbers ∧ instrument.lotSize ∈ streamedNumbers

def FillEvent.Survives (fill : FillEvent) : Prop :=
  fill.instrument.Survives ∧ fill.price ∈ streamedNumbers ∧ fill.quantity ∈ streamedNumbers ∧
    fill.fee ∈ streamedNumbers

def Position.Survives (position : Position) : Prop :=
  position.instrument.Survives ∧ position.netQuantity ∈ streamedNumbers ∧
    position.averageEntryPrice ∈ streamedNumbers ∧ position.realizedPnl ∈ streamedNumbers ∧
      position.unrealizedPnl ∈ streamedNumbers

instance OrderRecord.decidableSurvives (record : OrderRecord) : Decidable record.Survives :=
  inferInstanceAs (Decidable (_ ∧ _ ∧ _))

instance Instrument.decidableSurvives (instrument : Instrument) : Decidable instrument.Survives :=
  inferInstanceAs (Decidable (_ ∧ _))

instance FillEvent.decidableSurvives (fill : FillEvent) : Decidable fill.Survives :=
  inferInstanceAs (Decidable (_ ∧ _ ∧ _ ∧ _))

section Rounding

variable {rnd rndOptional : ℚ → ℚ} (hrnd : IsNearest streamedNumbers rnd)
  (hrndOptional : IsNearest toStringNumbers rndOptional)

include hrnd

include hrndOptional in
theorem OrderRecord.round_eq_iff (record : OrderRecord) :
    record.round rnd rndOptional = record ↔ record.Survives := by
  have hprice : record.price.map rndOptional = record.price ↔ ∀ price ∈ record.price, price ∈ toStringNumbers := by
    cases record.price <;> simp [hrndOptional.fixed_iff]
  rw [Survives, ← hrnd.fixed_iff, ← hrnd.fixed_iff, ← hprice]
  cases record
  simp [round]

theorem Instrument.round_eq_iff (instrument : Instrument) :
    instrument.round rnd = instrument ↔ instrument.Survives := by
  simp only [Survives, ← hrnd.fixed_iff]
  cases instrument
  simp [round]

theorem FillEvent.round_eq_iff (fill : FillEvent) : fill.round rnd = fill ↔ fill.Survives := by
  simp only [Survives, ← hrnd.fixed_iff, ← Instrument.round_eq_iff hrnd]
  cases fill
  simp [round]

theorem Position.round_eq_iff (position : Position) : position.round rnd = position ↔ position.Survives := by
  simp only [Survives, ← hrnd.fixed_iff, ← Instrument.round_eq_iff hrnd]
  cases position
  simp [round]

end Rounding

section Reads

variable {text : NumberText} {rnd rndOptional : ℚ → ℚ} (hstreamed : Numerals text.streamed text.stod rnd)
  (hoptional : Numerals text.toString text.stod rndOptional)

include hstreamed

include hoptional in
theorem PostgresOrderRepository.reads :
    (format text).Reads OrderRecord.texts (OrderRecord.round rnd rndOptional) where
  length_fields _ := rfl
  clean_fields record hclean := by
    simp only [OrderRecord.texts, List.forall_mem_cons] at hclean
    obtain ⟨h1, h2, h3, h4, -⟩ := hclean
    simp only [format, List.forall_mem_cons]
    exact ⟨h1, h2, h3, h4, clean_repr _, clean_repr _, clean_repr _, hstreamed.clean_text _,
      NumberText.clean_encodeOptionalDouble hoptional _, hstreamed.clean_text _, by simp⟩
  parse_fields record := by
    simp [format, OrderSide.enumerator_code, OrderType.enumerator_code, OrderStatus.enumerator_code, hstreamed.reads,
      NumberText.decode_encodeOptionalDouble hoptional, OrderRecord.round]
  texts_parse fields record hparse := by
    simp only [format] at hparse
    split at hparse
    · simp only [Option.bind_eq_bind, Option.bind_eq_some_iff, Option.pure_def, Option.some.injEq] at hparse
      obtain ⟨_, -, _, -, _, -, _, -, _, -, _, -, rfl⟩ := hparse
      simp [OrderRecord.texts]
    · cases hparse

theorem PostgresFillRepository.reads : (format text).Reads FillEvent.texts (FillEvent.round rnd) where
  length_fields _ := rfl
  clean_fields fill hclean := by
    simp only [FillEvent.texts, Instrument.texts, List.forall_mem_cons] at hclean
    obtain ⟨h1, h2, h3, h4, h5, h6, h7, -⟩ := hclean
    simp only [format, List.forall_mem_cons]
    exact ⟨h1, h2, h3, h4, h5, h6, h7, hstreamed.clean_text _, hstreamed.clean_text _, clean_repr _,
      hstreamed.clean_text _, hstreamed.clean_text _, hstreamed.clean_text _, by simp⟩
  parse_fields fill := by
    simp [format, OrderSide.enumerator_code, hstreamed.reads, FillEvent.round, Instrument.round]
  texts_parse fields fill hparse := by
    simp only [format] at hparse
    split at hparse
    · simp only [Option.bind_eq_bind, Option.bind_eq_some_iff, Option.pure_def, Option.some.injEq] at hparse
      obtain ⟨_, -, _, -, _, -, _, -, _, -, _, -, rfl⟩ := hparse
      simp [FillEvent.texts, Instrument.texts]
    · cases hparse

theorem PostgresPositionRepository.reads : (format text).Reads Position.texts (Position.round rnd) where
  length_fields _ := rfl
  clean_fields position hclean := by
    simp only [Position.texts, Instrument.texts, List.forall_mem_cons] at hclean
    obtain ⟨h1, h2, h3, h4, h5, h6, -⟩ := hclean
    simp only [format, List.forall_mem_cons]
    exact ⟨h1, h2, h3, h4, h5, h6, hstreamed.clean_text _, hstreamed.clean_text _, hstreamed.clean_text _,
      hstreamed.clean_text _, hstreamed.clean_text _, hstreamed.clean_text _, by simp⟩
  parse_fields position := by
    simp [format, hstreamed.reads, Position.round, Instrument.round]
  texts_parse fields position hparse := by
    simp only [format] at hparse
    split at hparse
    · simp only [Option.bind_eq_bind, Option.bind_eq_some_iff, Option.pure_def, Option.some.injEq] at hparse
      obtain ⟨_, -, _, -, _, -, _, -, _, -, _, -, rfl⟩ := hparse
      simp [Position.texts, Instrument.texts]
    · cases hparse

end Reads

/-! ### The repositories of a directory -/

inductive RepositoryCall
  | saveOrder (request : OrderRequest) (orderId clientOrderId : String)
  | saveOrderUpdate (update : OrderUpdate)
  | appendFill (fill : FillEvent)
  | savePosition (position : Position)

namespace RepositoryCall

/-- The texts that a call stores. -/
def texts : RepositoryCall → List String
  | .saveOrder request orderId clientOrderId =>
    [orderId, clientOrderId, request.strategyId, request.instrument.instrumentId]
  | .saveOrderUpdate update => [update.orderId, update.clientOrderId]
  | .appendFill fill => fill.texts
  | .savePosition position => position.texts

/-- What a call does to the orders, if it is one of theirs. -/
def onOrders : RepositoryCall → Option (InMemoryOrderRepository → InMemoryOrderRepository)
  | .saveOrder request orderId clientOrderId => some fun orders => orders.saveOrder request orderId clientOrderId
  | .saveOrderUpdate update => some fun orders => orders.saveOrderUpdate update
  | _ => none

def onFills : RepositoryCall → Option (InMemoryFillRepository → InMemoryFillRepository)
  | .appendFill fill => some fun fills => fills.appendFill fill
  | _ => none

def onPositions : RepositoryCall → Option (InMemoryPositionRepository → InMemoryPositionRepository)
  | .savePosition position => some fun positions => positions.savePosition position
  | _ => none

end RepositoryCall

def PostgresOrderRepository.store (text : NumberText) :
    FileStore InMemoryOrderRepository RepositoryCall (Option String) where
  load := load text
  flush repository := some (flush text repository)
  update := RepositoryCall.onOrders

def PostgresFillRepository.store (text : NumberText) :
    FileStore InMemoryFillRepository RepositoryCall (Option String) where
  load := load text
  flush repository := some (flush text repository)
  update := RepositoryCall.onFills

def PostgresPositionRepository.store (text : NumberText) :
    FileStore InMemoryPositionRepository RepositoryCall (Option String) where
  load := load text
  flush repository := some (flush text repository)
  update := RepositoryCall.onPositions

/-- The texts of `orders.tsv`, `fills.tsv` and `positions.tsv`, none for a file that is not there. -/
structure Directory where
  orders : Option String := none
  fills : Option String := none
  positions : Option String := none

structure FileRepositories where
  orders : FileStore.Opened InMemoryOrderRepository (Option String)
  fills : FileStore.Opened InMemoryFillRepository (Option String)
  positions : FileStore.Opened InMemoryPositionRepository (Option String)

namespace FileRepositories

/-- The records that the repositories hold. -/
structure Records where
  orders : StringMap OrderRecord
  fills : List FillEvent
  positions : StringMap Position

def records (repositories : FileRepositories) : Records where
  orders := repositories.orders.contents.orders
  fills := repositories.fills.contents.fills
  positions := repositories.positions.contents.positions

def directory (repositories : FileRepositories) : Directory where
  orders := repositories.orders.file
  fills := repositories.fills.file
  positions := repositories.positions.file

/-- New repositories on a directory; none when a constructor throws. -/
def construct (text : NumberText) (directory : Directory) : Option FileRepositories := do
  return {
    orders := ← (PostgresOrderRepository.store text).construct directory.orders
    fills := ← (PostgresFillRepository.store text).construct directory.fills
    positions := ← (PostgresPositionRepository.store text).construct directory.positions }

def call (text : NumberText) (repositories : FileRepositories) (call : RepositoryCall) : FileRepositories where
  orders := (PostgresOrderRepository.store text).call repositories.orders call
  fills := (PostgresFillRepository.store text).call repositories.fills call
  positions := (PostgresPositionRepository.store text).call repositories.positions call

def run (text : NumberText) (repositories : FileRepositories) (calls : List RepositoryCall) : FileRepositories :=
  calls.foldl (FileRepositories.call text) repositories

private theorem run_eq (text : NumberText) (repositories : FileRepositories) (calls : List RepositoryCall) :
    run text repositories calls =
      { orders := (PostgresOrderRepository.store text).calls repositories.orders calls
        fills := (PostgresFillRepository.store text).calls repositories.fills calls
        positions := (PostgresPositionRepository.store text).calls repositories.positions calls } := by
  induction calls generalizing repositories with
  | nil => rfl
  | cons call calls ih => exact ih _

/-- New repositories on the directory hold the same records. -/
def Reloads (text : NumberText) (repositories : FileRepositories) : Prop :=
  (construct text repositories.directory).map records = some repositories.records

private theorem directory_of_construct {text : NumberText} {directory : Directory} {repositories : FileRepositories}
    (h : construct text directory = some repositories) : repositories.directory = directory := by
  simp only [construct, FileStore.construct, Option.bind_eq_bind, Option.bind_eq_some_iff, Option.map_eq_some_iff,
    Option.pure_def, Option.some.injEq] at h
  obtain ⟨_, ⟨_, -, rfl⟩, _, ⟨_, -, rfl⟩, _, ⟨_, -, rfl⟩, rfl⟩ := h
  rfl

theorem reloads_iff {text : NumberText} {repositories : FileRepositories} :
    Reloads text repositories ↔
      (PostgresOrderRepository.store text).Reloads repositories.orders ∧
        (PostgresFillRepository.store text).Reloads repositories.fills ∧
          (PostgresPositionRepository.store text).Reloads repositories.positions := by
  obtain ⟨⟨⟨orders⟩, ordersFile⟩, ⟨⟨fills⟩, fillsFile⟩, ⟨⟨positions⟩, positionsFile⟩⟩ := repositories
  simp only [Reloads, construct, directory, FileStore.Reloads]
  cases (PostgresOrderRepository.store text).construct ordersFile with
  | none => simp
  | some newOrders =>
    cases (PostgresFillRepository.store text).construct fillsFile with
    | none => simp
    | some newFills =>
      cases (PostgresPositionRepository.store text).construct positionsFile with
      | none => simp
      | some newPositions =>
        obtain ⟨⟨newOrders⟩, _⟩ := newOrders
        obtain ⟨⟨newFills⟩, _⟩ := newFills
        obtain ⟨⟨newPositions⟩, _⟩ := newPositions
        simp [records]

end FileRepositories

/-! ### Reloading -/

section Reloading

variable {text : NumberText} {rnd rndOptional : ℚ → ℚ} (hstreamed : Numerals text.streamed text.stod rnd)
  (hrnd : IsNearest streamedNumbers rnd) (hoptional : Numerals text.toString text.stod rndOptional)
  (hrndOptional : IsNearest toStringNumbers rndOptional)

namespace PostgresOrderRepository

/-- Every order is held under its id, its texts without tab and newline. -/
def Held (repository : InMemoryOrderRepository) : Prop :=
  RecordFormat.Holds OrderRecord.orderId OrderRecord.texts repository.orders

include hstreamed hoptional in
private theorem held_load {file : Option String} {repository : InMemoryOrderRepository}
    (hload : load text file = some repository) : Held repository := by
  simp only [load, Option.bind_eq_bind, Option.bind_eq_some_iff, Option.pure_def, Option.some.injEq] at hload
  obtain ⟨records, hrecords, rfl⟩ := hload
  exact RecordFormat.holds_ofValues (RecordFormat.clean_load (reads hstreamed hoptional) hrecords)

private theorem held_saveOrderUpdate {repository : InMemoryOrderRepository} (h : Held repository) {update : OrderUpdate}
    (htexts : ∀ t ∈ (RepositoryCall.saveOrderUpdate update).texts, Clean t) :
    Held (repository.saveOrderUpdate update) := by
  simp only [RepositoryCall.texts, List.forall_mem_cons] at htexts
  obtain ⟨horderId, hclientOrderId, -⟩ := htexts
  unfold InMemoryOrderRepository.saveOrderUpdate
  cases horder : repository.orders[update.orderId]? with
  | none =>
    refine RecordFormat.Holds.insert h rfl ?_
    simp only [OrderRecord.texts, List.forall_mem_cons]
    exact ⟨horderId, hclientOrderId, by decide, by decide, by simp⟩
  | some order =>
    have hclean := h.clean _ order horder
    simp only [OrderRecord.texts, List.forall_mem_cons] at hclean
    obtain ⟨hkey, -, hstrategyId, hinstrumentId, -⟩ := hclean
    refine RecordFormat.Holds.insert h (h.keyed _ order horder) ?_
    simp only [OrderRecord.texts, List.forall_mem_cons]
    exact ⟨hkey, hclientOrderId, hstrategyId, hinstrumentId, by simp⟩

private theorem held_update {call : RepositoryCall} (htexts : ∀ t ∈ call.texts, Clean t)
    {f : InMemoryOrderRepository → InMemoryOrderRepository} (hf : f ∈ call.onOrders)
    {repository : InMemoryOrderRepository} (h : Held repository) : Held (f repository) := by
  cases call with
  | saveOrder request orderId clientOrderId =>
    cases hf
    exact RecordFormat.Holds.insert h rfl htexts
  | saveOrderUpdate update =>
    cases hf
    exact held_saveOrderUpdate h htexts
  | appendFill fill => cases hf
  | savePosition position => cases hf

include hstreamed hrnd hoptional hrndOptional in
/-- Orders that are written and read are the same exactly if their numbers fit. -/
private theorem load_flush_iff {repository : InMemoryOrderRepository} (h : Held repository) :
    load text (some (flush text repository)) = some repository ↔
      ∀ (k : String) (record : OrderRecord), repository.orders[k]? = some record → record.Survives := by
  have hends : ∀ record, ¬(format text).EndsEmpty record :=
    fun record h => hstreamed.ne_empty record.filledQuantity (Option.some.inj h)
  have hmap := RecordFormat.load_flush_keyed (reads hstreamed hoptional) hends (fun _ => rfl) h
  simp only [OrderRecord.round_eq_iff hrnd hrndOptional] at hmap
  rw [← hmap, load, flush]
  cases (format text).load _ with
  | none => simp
  | some records => cases repository; simp

end PostgresOrderRepository

namespace PostgresFillRepository

/-- The texts of every fill are without tab and newline. -/
def Held (repository : InMemoryFillRepository) : Prop := ∀ fill ∈ repository.fills, ∀ t ∈ fill.texts, Clean t

include hstreamed in
private theorem held_load {file : Option String} {repository : InMemoryFillRepository}
    (hload : load text file = some repository) : Held repository := by
  simp only [load, Option.bind_eq_bind, Option.bind_eq_some_iff, Option.pure_def, Option.some.injEq] at hload
  obtain ⟨records, hrecords, rfl⟩ := hload
  exact RecordFormat.clean_load (reads hstreamed) hrecords

private theorem held_update {call : RepositoryCall} (htexts : ∀ t ∈ call.texts, Clean t)
    {f : InMemoryFillRepository → InMemoryFillRepository} (hf : f ∈ call.onFills)
    {repository : InMemoryFillRepository} (h : Held repository) : Held (f repository) := by
  cases call with
  | appendFill fill =>
    cases hf
    exact List.forall_mem_append.2 ⟨h, List.forall_mem_singleton.2 htexts⟩
  | _ => cases hf

include hstreamed hrnd in
private theorem load_flush_iff {repository : InMemoryFillRepository} (h : Held repository) :
    load text (some (flush text repository)) = some repository ↔ ∀ fill ∈ repository.fills, fill.Survives := by
  have hends : ∀ fill, ¬(format text).EndsEmpty fill :=
    fun fill h => hstreamed.ne_empty fill.fee (Option.some.inj h)
  obtain ⟨fills⟩ := repository
  have hfilter : fills.filter (fun fill => ¬(format text).EndsEmpty fill) = fills :=
    List.filter_eq_self.2 fun fill _ => decide_eq_true (hends fill)
  have hload := RecordFormat.load_flush (reads hstreamed) h
  rw [hfilter] at hload
  simp only [load, flush, hload, Option.bind_eq_bind, Option.bind_some, Option.pure_def, Option.some.injEq,
    InMemoryFillRepository.mk.injEq, ← FillEvent.round_eq_iff hrnd]
  nth_rewrite 2 [← List.map_id fills]
  exact List.map_inj_left

end PostgresFillRepository

namespace PostgresPositionRepository

/-- Every position is held under its instrument's id, its texts without tab and newline. -/
def Held (repository : InMemoryPositionRepository) : Prop :=
  RecordFormat.Holds (fun position => position.instrument.instrumentId) Position.texts repository.positions

include hstreamed in
private theorem held_load {file : Option String} {repository : InMemoryPositionRepository}
    (hload : load text file = some repository) : Held repository := by
  simp only [load, Option.bind_eq_bind, Option.bind_eq_some_iff, Option.pure_def, Option.some.injEq] at hload
  obtain ⟨records, hrecords, rfl⟩ := hload
  exact RecordFormat.holds_ofValues (RecordFormat.clean_load (reads hstreamed) hrecords)

private theorem held_update {call : RepositoryCall} (htexts : ∀ t ∈ call.texts, Clean t)
    {f : InMemoryPositionRepository → InMemoryPositionRepository} (hf : f ∈ call.onPositions)
    {repository : InMemoryPositionRepository} (h : Held repository) : Held (f repository) := by
  cases call with
  | savePosition position =>
    cases hf
    exact RecordFormat.Holds.insert h rfl htexts
  | _ => cases hf

include hstreamed hrnd in
private theorem load_flush_iff {repository : InMemoryPositionRepository} (h : Held repository) :
    load text (some (flush text repository)) = some repository ↔
      ∀ (k : String) (position : Position), repository.positions[k]? = some position → position.Survives := by
  have hends : ∀ position, ¬(format text).EndsEmpty position :=
    fun position h => hstreamed.ne_empty position.unrealizedPnl (Option.some.inj h)
  have hmap := RecordFormat.load_flush_keyed (reads hstreamed) hends (fun _ => rfl) h
  simp only [Position.round_eq_iff hrnd] at hmap
  rw [← hmap, load, flush]
  cases (format text).load _ with
  | none => simp
  | some records => cases repository; simp

end PostgresPositionRepository

variable {calls : List RepositoryCall} (hcalls : ∀ call ∈ calls, ∀ t ∈ call.texts, Clean t)

include hstreamed hrnd hcalls

include hoptional hrndOptional in
/-- After any calls, new repositories on the directory hold the records that the old ones hold, exactly if no call has
been made to a repository or its numbers fit their format: six significant digits, six decimals for an order's
price. -/
theorem reloaded_records_iff {directory : Directory} {repositories : FileRepositories}
    (hopen : FileRepositories.construct text directory = some repositories) :
    ((FileRepositories.construct text (repositories.run text calls).directory).map FileRepositories.records =
        some (repositories.run text calls).records) ↔
      ((∀ call ∈ calls, call.onOrders = none) ∨ ∀ (k : String) (record : OrderRecord),
        (repositories.run text calls).records.orders[k]? = some record → record.Survives) ∧
      ((∀ call ∈ calls, call.onFills = none) ∨
        ∀ fill ∈ (repositories.run text calls).records.fills, fill.Survives) ∧
      ((∀ call ∈ calls, call.onPositions = none) ∨ ∀ (k : String) (position : Position),
        (repositories.run text calls).records.positions[k]? = some position → position.Survives) := by
  have hreloads : FileRepositories.Reloads text repositories := by
    rw [FileRepositories.Reloads, FileRepositories.directory_of_construct hopen, hopen]
    rfl
  obtain ⟨horders, hfills, hpositions⟩ := FileRepositories.reloads_iff.1 hreloads
  refine FileRepositories.reloads_iff.trans ?_
  rw [FileRepositories.run_eq]
  refine and_congr ?_ (and_congr ?_ ?_)
  · exact FileStore.reloads_iff (fun _ _ => PostgresOrderRepository.held_load hstreamed hoptional)
      (fun call hcall _ hf _ => PostgresOrderRepository.held_update (hcalls call hcall) hf)
      (fun _ => PostgresOrderRepository.load_flush_iff hstreamed hrnd hoptional hrndOptional) horders
  · exact FileStore.reloads_iff (fun _ _ => PostgresFillRepository.held_load hstreamed)
      (fun call hcall _ hf _ => PostgresFillRepository.held_update (hcalls call hcall) hf)
      (fun _ => PostgresFillRepository.load_flush_iff hstreamed hrnd) hfills
  · exact FileStore.reloads_iff (fun _ _ => PostgresPositionRepository.held_load hstreamed)
      (fun call hcall _ hf _ => PostgresPositionRepository.held_update (hcalls call hcall) hf)
      (fun _ => PostgresPositionRepository.load_flush_iff hstreamed hrnd) hpositions

end Reloading

/-! ### The formats of the program -/

/-- Numbers written as numerals, in the formats of the program. -/
def decimalText : NumberText where
  streamed := Numeral.significant 6
  precise := Numeral.significant 17
  toString := Numeral.fixed 6
  stod := Numeral.value

/-- A directory without files, and the repositories on it. -/
def emptyRepositories : FileRepositories where
  orders := { contents := {}, file := none }
  fills := { contents := {}, file := none }
  positions := { contents := {}, file := none }

/-- An order saved and half filled. -/
def exampleCalls (quantity : ℚ) : List RepositoryCall :=
  [.saveOrder { instrument := { instrumentId := "btc-usdt" }, quantity := quantity, price := some 42000 } "ord-1"
      "cli-1",
    .saveOrderUpdate
      { orderId := "ord-1", clientOrderId := "cli-1", status := .partiallyFilled, filledQuantity := 1 / 2 },
    .appendFill { fillId := "fill-1", orderId := "ord-1", price := 42000, quantity := 1 / 2 }]

theorem reloaded_records_iff_exampleCalls :
    (FileRepositories.construct decimalText (emptyRepositories.run decimalText (exampleCalls 1)).directory).map
      FileRepositories.records = some (emptyRepositories.run decimalText (exampleCalls 1)).records := by
  have horders : ∀ entry ∈ (emptyRepositories.run decimalText (exampleCalls 1)).records.orders.toList,
      entry.2.Survives := by decide +kernel
  have hfills : ∀ fill ∈ (emptyRepositories.run decimalText (exampleCalls 1)).records.fills, fill.Survives := by
    decide +kernel
  have hopen : FileRepositories.construct decimalText {} = some emptyRepositories := rfl
  refine (reloaded_records_iff (numerals_significant 6) nearest_streamed (numerals_fixed 6) nearest_toString
    (by decide) hopen).2 ⟨.inr ?_, .inr hfills, .inl (by decide)⟩
  exact fun k record hrecord =>
    horders (k, record) (Std.ExtTreeMap.mem_toList_iff_getElem?_eq_some.2 hrecord)

/-- An order's quantity of seven digits is not read back. -/
theorem reloaded_quantity_rounded :
    (∀ call ∈ exampleCalls (1234567 / 10000000), ∀ t ∈ call.texts, Clean t) ∧
      (1234567 / 10000000 : ℚ) ∈ doubleDecimals ∧
      ((emptyRepositories.run decimalText (exampleCalls (1234567 / 10000000))).records.orders["ord-1"]?).map
        OrderRecord.quantity = some (1234567 / 10000000) ∧
      (FileRepositories.construct decimalText
          (emptyRepositories.run decimalText (exampleCalls (1234567 / 10000000))).directory).map
        (fun repositories => (repositories.records.orders["ord-1"]?).map OrderRecord.quantity) =
          some (some (123457 / 1000000)) := by
  decide +kernel

end Wall
