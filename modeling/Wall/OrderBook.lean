import Wall.Types
import Wall.Lib.FirstMatch

/-!
# The order book

`execution/order_book.cpp`: one instrument's resting limit orders, a map from prices to queues for each side, with
an index from order ids to the side and price they rest at and a counter of the resting orders.  An operation that
the source lets return `false` returns the flag together with the book it leaves.
-/

namespace Wall

open Std (ExtTreeMap TransCmp)
open FirstMatch

/-- The summary of one price level. -/
structure OrderBookLevel where
  price : ℚ := 0
  totalQuantity : ℚ := 0
  orderCount : Nat := 0
  deriving DecidableEq, Inhabited, Repr

structure RestingOrder where
  orderId : String := ""
  clientOrderId : String := ""
  request : OrderRequest := {}
  remainingQuantity : ℚ := 0
  sequenceNumber : Nat := 0
  deriving DecidableEq, Inhabited, Repr

structure OrderLocator where
  side : OrderSide := .buy
  price : ℚ := 0
  deriving DecidableEq, Inhabited, Repr

instance bidOrder : TransCmp (fun a b : ℚ => compare b a) := inferInstance

instance askOrder : TransCmp (compare : ℚ → ℚ → Ordering) := inferInstance

/-- The bid levels, the highest price first (`std::greater`). -/
abbrev BidLevels := ExtTreeMap ℚ (List RestingOrder) (fun a b => compare b a)

/-- The ask levels, the lowest price first (`std::less`). -/
abbrev AskLevels := ExtTreeMap ℚ (List RestingOrder) compare

structure OrderBook where
  instrument : Instrument
  bidLevelMap : BidLevels := ∅
  askLevelMap : AskLevels := ∅
  orderIndex : StringMap OrderLocator := ∅
  orderCount : Nat := 0
  nextSequenceNumber : Nat := 1

section Levels

variable {cmp : ℚ → ℚ → Ordering} [TransCmp cmp]

/-- The queue of the map's first level, `levels.begin()->second`. -/
def firstQueue (levels : ExtTreeMap ℚ (List RestingOrder) cmp) : Option (List RestingOrder) :=
  levels.toList.head?.map Prod.snd

/-- Write back a level's queue; an empty queue takes the level out of the map. -/
def putLevel (levels : ExtTreeMap ℚ (List RestingOrder) cmp) (price : ℚ) (orders : List RestingOrder) :
    ExtTreeMap ℚ (List RestingOrder) cmp :=
  if orders.isEmpty then levels.erase price else levels.insert price orders

def makeLevel (price : ℚ) (orders : List RestingOrder) : OrderBookLevel where
  price := price
  totalQuantity := orders.foldl (fun total order => total + order.remainingQuantity) 0
  orderCount := orders.length

end Levels

namespace OrderBook

/-- The queue at a price of one side. -/
def level (book : OrderBook) (side : OrderSide) (price : ℚ) : Option (List RestingOrder) :=
  match side with
  | .buy => book.bidLevelMap[price]?
  | .sell => book.askLevelMap[price]?

/-- Write back the queue at a price of one side. -/
def setLevel (book : OrderBook) (side : OrderSide) (price : ℚ) (orders : List RestingOrder) : OrderBook :=
  match side with
  | .buy => { book with bidLevelMap := putLevel book.bidLevelMap price orders }
  | .sell => { book with askLevelMap := putLevel book.askLevelMap price orders }

def isRequestCompatible (book : OrderBook) (request : OrderRequest) (orderId clientOrderId : String)
    (filledQuantity : ℚ) : Bool :=
  if orderId = "" ∨ clientOrderId = "" then false
  else if request.instrument.instrumentId ≠ book.instrument.instrumentId then false
  else if request.type ≠ .limit then false
  else if request.price = none ∨ request.price.getD 0 ≤ 0 then false
  else if request.quantity ≤ 0 ∨ filledQuantity < 0
      ∨ filledQuantity ≥ request.quantity - kQuantityTolerance then false
  else if book.orderIndex.contains orderId then false
  else true

def addOrder (book : OrderBook) (request : OrderRequest) (orderId clientOrderId : String)
    (filledQuantity : ℚ) : Bool × OrderBook :=
  if !book.isRequestCompatible request orderId clientOrderId filledQuantity then (false, book)
  else
    let remainingQuantity := request.quantity - filledQuantity
    let restingOrder : RestingOrder :=
      { orderId := orderId
        clientOrderId := clientOrderId
        request := request
        remainingQuantity := max 0 remainingQuantity
        sequenceNumber := book.nextSequenceNumber }
    -- the price is present: the compatibility check has seen it
    let price := request.price.getD 0
    let queue := (book.level request.side price).getD []
    let book' := book.setLevel request.side price (queue ++ [restingOrder])
    (true, { book' with
      orderIndex := book.orderIndex.insert orderId { side := request.side, price := price }
      orderCount := book.orderCount + 1
      nextSequenceNumber := book.nextSequenceNumber + 1 })

def cancelOrder (book : OrderBook) (orderId : String) : Bool × OrderBook :=
  match book.orderIndex[orderId]? with
  | none => (false, book)
  | some locator =>
    match book.level locator.side locator.price with
    | none => (false, book)
    | some orders =>
      match orders.find? fun order => decide (order.orderId = orderId) with
      | none => (false, book)
      | some _ =>
        let orders' := orders.eraseP fun order => decide (order.orderId = orderId)
        (true, { book.setLevel locator.side locator.price orders' with
          orderIndex := book.orderIndex.erase orderId
          orderCount := book.orderCount - 1 })

def applyFill (book : OrderBook) (orderId : String) (executedQuantity : ℚ) : Bool × OrderBook :=
  if executedQuantity ≤ kQuantityTolerance then (false, book)
  else
    match book.orderIndex[orderId]? with
    | none => (false, book)
    | some locator =>
      match book.level locator.side locator.price with
      | none => (false, book)
      | some orders =>
        match orders.find? fun order => decide (order.orderId = orderId) with
        | none => (false, book)
        | some order =>
          if executedQuantity > order.remainingQuantity + kQuantityTolerance then (false, book)
          else
            let remainingQuantity := max 0 (order.remainingQuantity - executedQuantity)
            if remainingQuantity ≤ kQuantityTolerance then
              let orders' := orders.eraseP fun order => decide (order.orderId = orderId)
              (true, { book.setLevel locator.side locator.price orders' with
                orderIndex := book.orderIndex.erase orderId
                orderCount := book.orderCount - 1 })
            else
              let orders' := replaceFirst (fun order => decide (order.orderId = orderId))
                { order with remainingQuantity := remainingQuantity } orders
              (true, book.setLevel locator.side locator.price orders')

def findOrder (book : OrderBook) (orderId : String) : Option RestingOrder :=
  match book.orderIndex[orderId]? with
  | none => none
  | some locator =>
    match book.level locator.side locator.price with
    | none => none
    | some orders => orders.find? fun order => decide (order.orderId = orderId)

def bestBidOrder (book : OrderBook) : Option RestingOrder :=
  (firstQueue book.bidLevelMap).bind List.head?

def bestAskOrder (book : OrderBook) : Option RestingOrder :=
  (firstQueue book.askLevelMap).bind List.head?

/-- The first order of a side: `best_bid_order` of the bids, `best_ask_order` of the asks. -/
def bestOrder (book : OrderBook) (side : OrderSide) : Option RestingOrder :=
  match side with
  | .buy => book.bestBidOrder
  | .sell => book.bestAskOrder

def bidLevels (book : OrderBook) : List OrderBookLevel :=
  book.bidLevelMap.toList.map fun level => makeLevel level.1 level.2

def askLevels (book : OrderBook) : List OrderBookLevel :=
  book.askLevelMap.toList.map fun level => makeLevel level.1 level.2

def bestBid (book : OrderBook) : Option OrderBookLevel := book.bidLevels.head?

def bestAsk (book : OrderBook) : Option OrderBookLevel := book.askLevels.head?

end OrderBook

end Wall
