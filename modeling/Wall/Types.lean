import Mathlib.Data.Rat.Defs
import Mathlib.Algebra.Order.Ring.Rat
import Mathlib.Tactic.Linarith
import Mathlib.Tactic.Ring
import Wall.Lib.KeyedMap

/-!
# The domain types

The data of `core/types.hpp` and the order record of `storage/storage_interfaces.hpp`.  A `double` is read as the
exact rational it denotes, a timestamp as an integer, a counter as a natural number, and an `unordered_map` keyed by
strings as an extensional map (`StringMap`); the order in which C++ iterates such a map is unspecified, and no
result here depends on it.
-/

namespace Wall

/-- The tolerance `1e-9` that both `order_book.cpp` and `matching_engine.cpp` compare quantities with. -/
def kQuantityTolerance : ℚ := 1 / 1000000000

theorem kQuantityTolerance_pos : 0 < kQuantityTolerance := by unfold kQuantityTolerance; norm_num

abbrev StringMap (α : Type*) := Std.ExtTreeMap String α

inductive MarketEventType
  | bookSnapshot
  | trade
  | ticker
  | timer
  deriving DecidableEq, Inhabited, Repr

inductive OrderSide
  | buy
  | sell
  deriving DecidableEq, Inhabited, Repr

/-- The side an order of this side is matched against. -/
def OrderSide.opposite : OrderSide → OrderSide
  | .buy => .sell
  | .sell => .buy

/-- A quantity signed by its side: bought is positive, sold is negative. -/
def OrderSide.signed (side : OrderSide) (quantity : ℚ) : ℚ :=
  match side with
  | .buy => quantity
  | .sell => -quantity

inductive OrderType
  | market
  | limit
  deriving DecidableEq, Repr

instance : Inhabited OrderType := ⟨.limit⟩

inductive OrderStatus
  | created
  | pendingSubmit
  | acknowledged
  | partiallyFilled
  | filled
  | pendingCancel
  | canceled
  | rejected
  | expired
  deriving DecidableEq, Inhabited, Repr

/-- The statuses that end an order's life (`is_terminal` of both the matching engine and the live tracker). -/
def OrderStatus.isTerminal (status : OrderStatus) : Bool :=
  status = .filled || status = .canceled || status = .rejected || status = .expired

structure Instrument where
  instrumentId : String := ""
  exchange : String := ""
  symbol : String := ""
  baseAsset : String := ""
  quoteAsset : String := ""
  tickSize : ℚ := 0
  lotSize : ℚ := 0
  deriving DecidableEq, Inhabited, Repr

structure BookLevel where
  price : ℚ := 0
  quantity : ℚ := 0
  deriving DecidableEq, Inhabited, Repr

structure MarketEvent where
  eventId : String := ""
  type : MarketEventType := .trade
  instrument : Instrument := {}
  price : ℚ := 0
  quantity : ℚ := 0
  bidPrice : Option ℚ := none
  askPrice : Option ℚ := none
  bidLevels : List BookLevel := []
  askLevels : List BookLevel := []
  exchangeTimestamp : Int := 0
  receiveTimestamp : Int := 0
  processTimestamp : Int := 0
  deriving DecidableEq, Inhabited, Repr

structure OrderRequest where
  requestId : String := ""
  strategyId : String := ""
  instrument : Instrument := {}
  side : OrderSide := .buy
  type : OrderType := .limit
  quantity : ℚ := 0
  price : Option ℚ := none
  deriving DecidableEq, Inhabited, Repr

structure OrderUpdate where
  orderId : String := ""
  clientOrderId : String := ""
  status : OrderStatus := .created
  filledQuantity : ℚ := 0
  reason : Option String := none
  deriving DecidableEq, Inhabited, Repr

structure FillEvent where
  fillId : String := ""
  orderId : String := ""
  instrument : Instrument := {}
  side : OrderSide := .buy
  price : ℚ := 0
  quantity : ℚ := 0
  fee : ℚ := 0
  deriving DecidableEq, Inhabited, Repr

structure Position where
  positionId : String := ""
  instrument : Instrument := {}
  netQuantity : ℚ := 0
  averageEntryPrice : ℚ := 0
  realizedPnl : ℚ := 0
  unrealizedPnl : ℚ := 0
  deriving DecidableEq, Inhabited, Repr

structure BalanceSnapshot where
  asset : String := ""
  totalBalance : ℚ := 0
  availableBalance : ℚ := 0
  deriving DecidableEq, Inhabited, Repr

structure TimerEvent where
  timerId : String := ""
  timestamp : Int := 0
  deriving DecidableEq, Inhabited, Repr

structure TransactionCommand where
  transactionId : String := ""
  userId : String := ""
  accountId : String := ""
  commandType : String := ""
  instrumentSymbol : String := ""
  quantity : ℚ := 0
  price : Option ℚ := none
  kafkaTopic : String := ""
  kafkaPartition : Int := 0
  kafkaOffset : Int := 0
  deriving DecidableEq, Inhabited, Repr

inductive EngineEvent
  | market (event : MarketEvent)
  | timer (event : TimerEvent)
  | transaction (command : TransactionCommand)
  deriving DecidableEq, Inhabited, Repr

structure OrderRecord where
  orderId : String := ""
  clientOrderId : String := ""
  strategyId : String := ""
  instrumentId : String := ""
  side : OrderSide := .buy
  orderType : OrderType := .limit
  status : OrderStatus := .created
  quantity : ℚ := 0
  price : Option ℚ := none
  filledQuantity : ℚ := 0
  deriving DecidableEq, Inhabited, Repr

/-- What one execution action returns: the order it names, its lifecycle updates and its fills. -/
structure ExecutionResult where
  orderId : String := ""
  clientOrderId : String := ""
  updates : List OrderUpdate := []
  fills : List FillEvent := []
  deriving DecidableEq, Inhabited, Repr

namespace OrderSide

theorem signed_add (side : OrderSide) (a b : ℚ) : side.signed (a + b) = side.signed a + side.signed b := by
  cases side <;> simp only [signed]
  ring

theorem signed_sub (side : OrderSide) (a b : ℚ) : side.signed (a - b) = side.signed a - side.signed b := by
  cases side <;> simp only [signed]
  ring

theorem signed_opposite (side : OrderSide) (a : ℚ) : side.opposite.signed a = -side.signed a := by
  cases side <;> simp [signed, opposite]

@[simp] theorem signed_zero (side : OrderSide) : side.signed 0 = 0 := by cases side <;> simp [signed]

theorem abs_signed (side : OrderSide) (a : ℚ) : |side.signed a| = |a| := by cases side <;> simp [signed]

theorem signed_mul (side : OrderSide) (a b : ℚ) : side.signed (a * b) = side.signed a * b := by
  cases side <;> simp only [signed]
  ring

end OrderSide

/-- The signed quantity of an instrument's fills. -/
def signedFills (i : String) (fills : List FillEvent) : ℚ :=
  (fills.map fun f => if f.instrument.instrumentId = i then f.side.signed f.quantity else 0).sum

@[simp] theorem signedFills_nil (i : String) : signedFills i [] = 0 := rfl

theorem signedFills_append (i : String) (fills fills' : List FillEvent) :
    signedFills i (fills ++ fills') = signedFills i fills + signedFills i fills' := by
  simp [signedFills]

end Wall
