import Wall.OrderBook
import Wall.Lib.Machine
import Mathlib.Data.List.Dedup
import Mathlib.Data.List.Sort

/-!
# The matching engine

`execution/matching_engine.cpp`: a book for each instrument, the records of the tracked orders, and the counters
behind the generated ids.

The `while` loops of `submit` and of the two lambdas of `process_market_event` consume one side of a book in the
same way and differ in the test that stops them and in the fill they emit; `fillLoop` is that loop, with a
`FillRule` for the difference, and reports why it stopped (`LoopStop`).  It takes fuel, and `loopFuel` always
suffices: an iteration executes more than the tolerance (`fillLoop_ne_outOfFuel`).
-/

namespace Wall

open KeyedMap

def makeUpdate (orderId clientOrderId : String) (status : OrderStatus) (filledQuantity : ℚ)
    (reason : Option String) : OrderUpdate where
  orderId := orderId
  clientOrderId := clientOrderId
  status := status
  filledQuantity := filledQuantity
  reason := reason

def crosses (incoming : OrderRequest) (resting : RestingOrder) : Bool :=
  match incoming.price, resting.request.price with
  | some price, some restingPrice =>
    match incoming.side with
    | .buy => decide (price ≥ restingPrice)
    | .sell => decide (price ≤ restingPrice)
  | _, _ => false

/-- The record of an order after a fill of `executedQuantity`. -/
def fillRecord (order : OrderRecord) (executedQuantity : ℚ) : OrderRecord :=
  let filled := min order.quantity (order.filledQuantity + executedQuantity)
  let filled := if |filled - order.quantity| ≤ kQuantityTolerance then order.quantity else filled
  { order with
    filledQuantity := filled
    status := if filled ≥ order.quantity - kQuantityTolerance then .filled else .partiallyFilled }

def applyFillToOrder (orders : StringMap OrderRecord) (orderId : String) (executedQuantity : ℚ) :
    StringMap OrderRecord :=
  match orders[orderId]? with
  | none => orders
  | some order =>
    if executedQuantity ≤ kQuantityTolerance then orders
    else orders.insert orderId (fillRecord order executedQuantity)

/-! ### The matching loop -/

/-- Why a matching loop stopped: the quantity was used up, there was no order left that the test accepts, or the
book refused the fill.  `outOfFuel` belongs to the model alone. -/
inductive LoopStop
  | exhausted
  | noMatch
  | fillFailed
  | outOfFuel
  deriving DecidableEq, Repr

/-- What the loop changes: the book, the order records, the fill counter, the fills emitted so far, the resting
orders they touched (which `submit` does not keep) and the quantity left to execute. -/
structure FillLoop where
  book : OrderBook
  orders : StringMap OrderRecord
  nextFillId : Nat
  fills : List FillEvent := []
  touchedOrders : List String := []
  quantity : ℚ

/-- Where the loops differ: the side they consume, the resting order that stops them, and the fill they emit for a
fill number, a resting order and an executed quantity. -/
structure FillRule where
  side : OrderSide
  stops : RestingOrder → Bool
  fill : Nat → RestingOrder → ℚ → FillEvent

/-- The loop after `executed` of the resting order has been filled, leaving `book`. -/
def FillLoop.afterFill (loop : FillLoop) (rule : FillRule) (resting : RestingOrder) (executed : ℚ)
    (book : OrderBook) : FillLoop where
  book := book
  orders := applyFillToOrder loop.orders resting.orderId executed
  nextFillId := loop.nextFillId + 1
  fills := loop.fills ++ [rule.fill loop.nextFillId resting executed]
  touchedOrders := loop.touchedOrders ++ [resting.orderId]
  quantity := max 0 (loop.quantity - executed)

def fillLoop (rule : FillRule) : Nat → FillLoop → FillLoop × LoopStop
  | 0, loop => (loop, .outOfFuel)
  | fuel + 1, loop =>
    if loop.quantity > kQuantityTolerance then
      match loop.book.bestOrder rule.side with
      | none => (loop, .noMatch)
      | some resting =>
        if rule.stops resting then (loop, .noMatch)
        else
          let executed := min loop.quantity resting.remainingQuantity
          match loop.book.applyFill resting.orderId executed with
          | (false, _) => (loop, .fillFailed)
          | (true, book) => fillLoop rule fuel (loop.afterFill rule resting executed book)
    else (loop, .exhausted)

/-- Fuel for a loop that has `quantity` to execute. -/
def loopFuel (quantity : ℚ) : Nat := (quantity / kQuantityTolerance).ceil.toNat + 1

def fillId (number : Nat) : String := "match-fill-" ++ toString number

/-- The loop of `submit`: the opposite side, while it crosses, at the resting order's price. -/
def submitRule (request : OrderRequest) (orderId : String) : FillRule where
  side := request.side.opposite
  stops resting := !crosses request resting
  fill number resting executed :=
    { fillId := fillId number
      orderId := orderId
      instrument := request.instrument
      side := request.side
      price := resting.request.price.getD 0
      quantity := executed
      fee := 0 }

/-- The fill a market level gives a resting order, at the level's price; an order restored without assets takes the
event's instrument. -/
def marketFill (event : MarketEvent) (level : BookLevel) (number : Nat) (resting : RestingOrder) (executed : ℚ) :
    FillEvent where
  fillId := fillId number
  orderId := resting.orderId
  instrument :=
    if resting.request.instrument.baseAsset = "" ∧ resting.request.instrument.quoteAsset = "" then event.instrument
    else resting.request.instrument
  side := resting.request.side
  price := level.price
  quantity := executed
  fee := 0

/-- `process_buy_resting_orders` for one ask level. -/
def processBuyRestingOrders (event : MarketEvent) (level : BookLevel) : FillRule where
  side := .buy
  stops resting := resting.request.price.all fun price => decide (price + kQuantityTolerance < level.price)
  fill := marketFill event level

/-- `process_sell_resting_orders` for one bid level. -/
def processSellRestingOrders (event : MarketEvent) (level : BookLevel) : FillRule where
  side := .sell
  stops resting := resting.request.price.all fun price => decide (price - kQuantityTolerance > level.price)
  fill := marketFill event level

/-- Run the loop of each level in turn, keeping the reason each one stopped. -/
def processLevels (rule : BookLevel → FillRule) : List BookLevel → FillLoop → FillLoop × List LoopStop
  | [], loop => (loop, [])
  | level :: levels, loop =>
    let (loop, stop) := fillLoop (rule level) (loopFuel level.quantity) { loop with quantity := level.quantity }
    let (loop, stops) := processLevels rule levels loop
    (loop, stop :: stops)

/-! ### The engine -/

structure MatchingEngine where
  books : StringMap OrderBook := ∅
  orders : StringMap OrderRecord := ∅
  nextOrderId : Nat := 1
  nextClientOrderId : Nat := 1
  nextFillId : Nat := 1

instance : Inhabited MatchingEngine := ⟨{}⟩

def matchOrderId (number : Nat) : String := "match-order-" ++ toString number

def matchClientOrderId (number : Nat) : String := "match-client-" ++ toString number

namespace MatchingEngine

def getOrder (engine : MatchingEngine) (orderId : String) : Option OrderRecord := engine.orders[orderId]?

def findBook (engine : MatchingEngine) (instrumentId : String) : Option OrderBook := engine.books[instrumentId]?

def bookFor (engine : MatchingEngine) (instrument : Instrument) : OrderBook :=
  engine.books[instrument.instrumentId]?.getD { instrument := instrument }

/-- The id the next submitted order gets. -/
def issuedOrderId (engine : MatchingEngine) : String := matchOrderId engine.nextOrderId

/-- The record `submit` tracks for a request before it looks at it. -/
def newRecord (engine : MatchingEngine) (request : OrderRequest) : OrderRecord where
  orderId := engine.issuedOrderId
  clientOrderId := matchClientOrderId engine.nextClientOrderId
  strategyId := request.strategyId
  instrumentId := request.instrument.instrumentId
  side := request.side
  orderType := request.type
  status := .created
  quantity := request.quantity
  price := request.price
  filledQuantity := 0

/-- The engine after the new order's ids are taken and its record is stored. -/
def track (engine : MatchingEngine) (request : OrderRequest) (status : OrderStatus) : MatchingEngine :=
  { engine with
    nextOrderId := engine.nextOrderId + 1
    nextClientOrderId := engine.nextClientOrderId + 1
    orders := engine.orders.insert engine.issuedOrderId { engine.newRecord request with status := status } }

/-- The early returns of `submit`. -/
def rejectNew (engine : MatchingEngine) (request : OrderRequest) (reason : String) :
    MatchingEngine × ExecutionResult :=
  (engine.track request .rejected,
    { orderId := engine.issuedOrderId
      clientOrderId := matchClientOrderId engine.nextClientOrderId
      updates := [makeUpdate engine.issuedOrderId (matchClientOrderId engine.nextClientOrderId) .rejected 0
        (some reason)] })

/-- Where the matching loop of `submit` starts: the instrument's book and the records with the new order in them. -/
def submitStart (engine : MatchingEngine) (request : OrderRequest) : FillLoop where
  book := engine.bookFor request.instrument
  orders := (engine.track request .acknowledged).orders
  nextFillId := engine.nextFillId
  quantity := request.quantity

/-- The matching loop of `submit`. -/
def submitLoop (engine : MatchingEngine) (request : OrderRequest) : FillLoop × LoopStop :=
  fillLoop (submitRule request engine.issuedOrderId) (loopFuel request.quantity) (engine.submitStart request)

/-- The filled quantity that `submit` computes from what the loop left. -/
def submitFilled (request : OrderRequest) (loop : FillLoop) : ℚ := max 0 (request.quantity - loop.quantity)

/-- The end of `submit`: the final status of the new order and its last update. -/
def settle (engine : MatchingEngine) (request : OrderRequest) (loop : FillLoop) (book : OrderBook) :
    MatchingEngine × ExecutionResult :=
  let orderId := engine.issuedOrderId
  let clientOrderId := matchClientOrderId engine.nextClientOrderId
  let filledQuantity := submitFilled request loop
  let acknowledged := makeUpdate orderId clientOrderId .acknowledged 0 none
  let orders := modifyD loop.orders orderId fun order => { order with filledQuantity := filledQuantity }
  let next := { engine.track request .acknowledged with
    books := engine.books.insert request.instrument.instrumentId book
    nextFillId := loop.nextFillId }
  let result : ExecutionResult := { orderId := orderId, clientOrderId := clientOrderId, fills := loop.fills }
  if |filledQuantity - request.quantity| ≤ kQuantityTolerance then
    ({ next with orders := modifyD orders orderId fun order =>
        { order with filledQuantity := request.quantity, status := .filled } },
      { result with updates := [acknowledged, makeUpdate orderId clientOrderId .filled filledQuantity none] })
  else if filledQuantity > kQuantityTolerance then
    ({ next with orders := modifyD orders orderId fun order => { order with status := .partiallyFilled } },
      { result with updates :=
        [acknowledged, makeUpdate orderId clientOrderId .partiallyFilled filledQuantity none] })
  else ({ next with orders := orders }, { result with updates := [acknowledged] })

/-- The branch of `submit` for a residual that the book refuses. -/
def rejectResidual (engine : MatchingEngine) (request : OrderRequest) (loop : FillLoop) (book : OrderBook) :
    MatchingEngine × ExecutionResult :=
  let orderId := engine.issuedOrderId
  let clientOrderId := matchClientOrderId engine.nextClientOrderId
  let filledQuantity := submitFilled request loop
  ({ engine.track request .acknowledged with
      books := engine.books.insert request.instrument.instrumentId book
      nextFillId := loop.nextFillId
      orders := modifyD loop.orders orderId fun order =>
        { order with filledQuantity := filledQuantity, status := .rejected } },
    { orderId := orderId
      clientOrderId := clientOrderId
      fills := loop.fills
      updates := [makeUpdate orderId clientOrderId .acknowledged 0 none,
        makeUpdate orderId clientOrderId .rejected filledQuantity (some "failed to rest residual order quantity")] })

/-- `submit` after its checks: match, rest what remains, settle. -/
def matchAndRest (engine : MatchingEngine) (request : OrderRequest) : MatchingEngine × ExecutionResult :=
  let loop := (engine.submitLoop request).1
  if loop.quantity > kQuantityTolerance then
    match loop.book.addOrder request engine.issuedOrderId (matchClientOrderId engine.nextClientOrderId)
        (submitFilled request loop) with
    | (false, book) => engine.rejectResidual request loop book
    | (true, book) => engine.settle request loop book
  else engine.settle request loop loop.book

def submit (engine : MatchingEngine) (request : OrderRequest) : MatchingEngine × ExecutionResult :=
  if request.type = .market then
    engine.rejectNew request "market orders are not supported by the matching engine"
  else if request.price = none ∨ request.price.getD 0 ≤ 0 ∨ request.quantity ≤ 0 then
    engine.rejectNew request "invalid matching-engine order request"
  else engine.matchAndRest request

/-- The loops of `process_market_event`: resting buys against the ask levels, then resting sells against the bid
levels. -/
def marketLoops (engine : MatchingEngine) (event : MarketEvent) (book : OrderBook) : FillLoop × List LoopStop :=
  let loop : FillLoop :=
    { book := book, orders := engine.orders, nextFillId := engine.nextFillId, quantity := 0 }
  let (loop, buyStops) := processLevels (processBuyRestingOrders event) event.askLevels loop
  let (loop, sellStops) := processLevels (processSellRestingOrders event) event.bidLevels loop
  (loop, buyStops ++ sellStops)

/-- The update for one touched order. -/
def appendOrderUpdate (orders : StringMap OrderRecord) (orderId : String) : List OrderUpdate :=
  match orders[orderId]? with
  | none => []
  | some order => [makeUpdate order.orderId order.clientOrderId order.status order.filledQuantity none]

def processMarketEvent (engine : MatchingEngine) (event : MarketEvent) : MatchingEngine × ExecutionResult :=
  match engine.books[event.instrument.instrumentId]? with
  | none => (engine, {})
  | some book =>
    let loop := (engine.marketLoops event book).1
    -- equal ids are neighbours after the sort, so `unique` leaves each id once
    let touchedOrders := (loop.touchedOrders.insertionSort (· ≤ ·)).dedup
    ({ engine with
        books := engine.books.insert event.instrument.instrumentId loop.book
        orders := loop.orders
        nextFillId := loop.nextFillId },
      { updates := touchedOrders.flatMap (appendOrderUpdate loop.orders)
        fills := loop.fills })

def cancel (engine : MatchingEngine) (orderId clientOrderId : String) : MatchingEngine × ExecutionResult :=
  let refuse (clientOrderId : String) (filledQuantity : ℚ) (reason : String) : ExecutionResult :=
    { orderId := orderId
      clientOrderId := clientOrderId
      updates := [makeUpdate orderId clientOrderId .rejected filledQuantity (some reason)] }
  match engine.orders[orderId]? with
  | none => (engine, refuse clientOrderId 0 "open order not found")
  | some order =>
    if order.status.isTerminal then
      (engine, refuse order.clientOrderId order.filledQuantity "order is not cancelable")
    else
      match (engine.books[order.instrumentId]?).map fun book => book.cancelOrder orderId with
      | some (true, book) =>
        ({ engine with
            books := engine.books.insert order.instrumentId book
            orders := engine.orders.insert orderId { order with status := .canceled } },
          { orderId := orderId
            clientOrderId := order.clientOrderId
            updates := [makeUpdate orderId order.clientOrderId .pendingCancel order.filledQuantity none,
              makeUpdate orderId order.clientOrderId .canceled order.filledQuantity none] })
      | _ => (engine, refuse order.clientOrderId order.filledQuantity "open order not found")

/-- The record that `restore_open_order` tracks. -/
def restoredRecord (orderId clientOrderId : String) (request : OrderRequest) (filledQuantity : ℚ) :
    OrderRecord where
  orderId := orderId
  clientOrderId := clientOrderId
  strategyId := request.strategyId
  instrumentId := request.instrument.instrumentId
  side := request.side
  orderType := request.type
  status := if filledQuantity > 0 then .partiallyFilled else .acknowledged
  quantity := request.quantity
  price := request.price
  filledQuantity := filledQuantity

def restoreOpenOrder (engine : MatchingEngine) (orderId clientOrderId : String) (request : OrderRequest)
    (filledQuantity : ℚ) : MatchingEngine :=
  if request.price = none ∨ request.price.getD 0 ≤ 0 ∨ request.quantity ≤ 0 then engine
  else if filledQuantity < 0 ∨ filledQuantity ≥ request.quantity - kQuantityTolerance then engine
  else
    match (engine.bookFor request.instrument).addOrder request orderId clientOrderId filledQuantity with
    | (true, book) =>
      { engine with
        books := engine.books.insert request.instrument.instrumentId book
        orders := engine.orders.insert orderId (restoredRecord orderId clientOrderId request filledQuantity) }
    | (false, book) =>
      { engine with
        books := engine.books.insert request.instrument.instrumentId book
        orders := engine.orders.erase orderId }

end MatchingEngine

/-- A call on the engine. -/
inductive EngineOp
  | submit (request : OrderRequest)
  | cancel (orderId clientOrderId : String)
  | processMarketEvent (event : MarketEvent)
  | restoreOpenOrder (orderId clientOrderId : String) (request : OrderRequest) (filledQuantity : ℚ)
  deriving DecidableEq, Repr

/-- The engine as a machine; `restore_open_order` returns nothing, which the empty result stands for. -/
def MatchingEngine.machine : Machine MatchingEngine EngineOp ExecutionResult where
  step engine
    | .submit request => engine.submit request
    | .cancel orderId clientOrderId => engine.cancel orderId clientOrderId
    | .processMarketEvent event => engine.processMarketEvent event
    | .restoreOpenOrder orderId clientOrderId request filledQuantity =>
      (engine.restoreOpenOrder orderId clientOrderId request filledQuantity, {})

end Wall
