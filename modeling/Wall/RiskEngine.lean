import Wall.Types

/-!
# Market state and pre-trade risk

`market_data/market_state_store.cpp` and `risk/risk_engine.cpp`.  A clock reading is an argument: the source asks an
injected clock for the time at each check.
-/

namespace Wall

open KeyedMap

/-! ### The market state store -/

structure MarketState where
  bestBid : Option ℚ := none
  bestAsk : Option ℚ := none
  bidLevels : List BookLevel := []
  askLevels : List BookLevel := []
  lastTradePrice : Option ℚ := none
  lastTradeQuantity : Option ℚ := none
  lastExchangeTimestamp : Int := 0
  lastReceiveTimestamp : Int := 0
  lastProcessTimestamp : Int := 0
  deriving DecidableEq, Inhabited, Repr

structure MarketStateStore where
  states : StringMap MarketState := ∅

/-- The quote fields that an event carries; book levels win over a bare quote. -/
def MarketState.updateQuotes (state : MarketState) (event : MarketEvent) : MarketState :=
  { state with
    bidLevels := if event.bidLevels = [] then state.bidLevels else event.bidLevels
    askLevels := if event.askLevels = [] then state.askLevels else event.askLevels
    bestBid :=
      match event.bidLevels with
      | level :: _ => some level.price
      | [] => if event.bidPrice.isSome then event.bidPrice else state.bestBid
    bestAsk :=
      match event.askLevels with
      | level :: _ => some level.price
      | [] => if event.askPrice.isSome then event.askPrice else state.bestAsk }

/-- The last trade, when quantity and price are present. -/
def MarketState.updateTrade (state : MarketState) (event : MarketEvent) : MarketState :=
  if event.quantity > 0 ∧ event.price > 0 then
    { state with lastTradePrice := some event.price, lastTradeQuantity := some event.quantity }
  else state

namespace MarketStateStore

def apply (store : MarketStateStore) (event : MarketEvent) : MarketStateStore where
  states := modifyD store.states event.instrument.instrumentId fun state =>
    -- an out-of-order event must not overwrite newer state
    if state.lastProcessTimestamp > 0 ∧ event.processTimestamp < state.lastProcessTimestamp then state
    else
      { (state.updateQuotes event).updateTrade event with
        lastExchangeTimestamp := event.exchangeTimestamp
        lastReceiveTimestamp := event.receiveTimestamp
        lastProcessTimestamp := event.processTimestamp }

def get (store : MarketStateStore) (instrumentId : String) : Option MarketState := store.states[instrumentId]?

def isStale (store : MarketStateStore) (now : Int) (instrumentId : String) (staleAfterMs : Int) : Bool :=
  match store.get instrumentId with
  | none => true
  | some state => now - state.lastProcessTimestamp > staleAfterMs

end MarketStateStore

/-! ### The risk engine -/

structure RiskConfig where
  maxOrderQuantity : ℚ := 0
  maxOrderNotional : ℚ := 0
  maxPositionQuantity : ℚ := 0
  staleAfterMs : Int := 0
  killSwitchEnabled : Bool := false
  deriving DecidableEq, Inhabited, Repr

structure RiskDecision where
  approved : Bool := false
  reason : Option String := none
  deriving DecidableEq, Inhabited, Repr

namespace RiskEngine

/-- The order price when it has one, the last trade price of the market otherwise. -/
def resolveReferencePrice (store : MarketStateStore) (request : OrderRequest) : Option ℚ :=
  if request.price.isSome then request.price
  else (store.get request.instrument.instrumentId).bind MarketState.lastTradePrice

/-- The decision on a request, at a clock reading. -/
def evaluate (config : RiskConfig) (store : MarketStateStore) (now : Int) (request : OrderRequest) : RiskDecision :=
  if config.killSwitchEnabled then { approved := false, reason := some "kill switch enabled" }
  else if request.quantity ≤ 0 then { approved := false, reason := some "quantity must be positive" }
  else if request.quantity > config.maxOrderQuantity then
    { approved := false, reason := some "order quantity exceeds limit" }
  else if request.quantity > config.maxPositionQuantity then
    { approved := false, reason := some "position quantity exceeds limit" }
  else if store.isStale now request.instrument.instrumentId config.staleAfterMs then
    { approved := false, reason := some "market data is stale" }
  else
    match resolveReferencePrice store request with
    | none => { approved := false, reason := some "reference price unavailable" }
    | some referencePrice =>
      if request.quantity * referencePrice > config.maxOrderNotional then
        { approved := false, reason := some "order notional exceeds limit" }
      else { approved := true, reason := none }

end RiskEngine

end Wall
