import Wall.RoundedFills
import Wall.CoreRuns

/-!
# The runtime in rounded arithmetic

`portfolio_service.cpp`, the notional check of `risk_engine.cpp` and `simulation_runtime.cpp` over the rounded engine,
with every computed number passed through `rnd`; what computes no number is the exact runtime's own.  With `rnd = id`
this is the exact runtime (`runtimeMachine_id`).

As in the exact runtime, all that strategies, risk checks and the clock decide is which calls reach the engine:
`onEvent_core` says that an event does to the runtime's core what `coreStep` does with these calls.
-/

namespace Wall

open KeyedMap

namespace Rounded

variable (rnd : ℚ → ℚ)

/-! ### The portfolio -/

def updateUnrealized (position : Position) (markPrice : ℚ) : Position :=
  if position.netQuantity = 0 then { position with unrealizedPnl := 0 }
  else { position with
    unrealizedPnl := rnd (rnd (markPrice - position.averageEntryPrice) * position.netQuantity) }

/-- The part of `apply_fill_to_position` before the unrealized result: quantity, average price, realized result. -/
def executeFill (position : Position) (fill : FillEvent) : Position :=
  let signedFillQuantity := fill.side.signed fill.quantity
  let previousQuantity := position.netQuantity
  if previousQuantity = 0 ∨ PortfolioService.sign previousQuantity = PortfolioService.sign signedFillQuantity then
    let newQuantity := rnd (previousQuantity + signedFillQuantity)
    let weightedNotional :=
      rnd (rnd (|previousQuantity| * position.averageEntryPrice) + rnd (|signedFillQuantity| * fill.price))
    { position with
      netQuantity := newQuantity
      averageEntryPrice := if |newQuantity| > 0 then rnd (weightedNotional / |newQuantity|) else 0 }
  else
    let closingQuantity := min |previousQuantity| |signedFillQuantity|
    let netQuantity := rnd (previousQuantity + signedFillQuantity)
    { position with
      realizedPnl := rnd (position.realizedPnl +
        rnd (rnd (closingQuantity * rnd (fill.price - position.averageEntryPrice)) *
          PortfolioService.sign previousQuantity))
      netQuantity := netQuantity
      averageEntryPrice :=
        if netQuantity = 0 then 0
        else if PortfolioService.sign previousQuantity ≠ PortfolioService.sign netQuantity then fill.price
        else position.averageEntryPrice }

def applyFillToPosition (markPrices : StringMap ℚ) (position : Position) (fill : FillEvent) : Position :=
  match markPrices[fill.instrument.instrumentId]? with
  | some markPrice => updateUnrealized rnd (executeFill rnd position fill) markPrice
  | none => updateUnrealized rnd (executeFill rnd position fill) fill.price

/-- Write a balance; the available balance follows the total. -/
def moveBalance (balances : StringMap BalanceSnapshot) (asset : String) (amount : ℚ) : StringMap BalanceSnapshot :=
  modifyD balances asset fun balance =>
    { asset := asset
      totalBalance := rnd (balance.totalBalance + amount)
      availableBalance := rnd (balance.totalBalance + amount) }

def applyFillToBalances (balances : StringMap BalanceSnapshot) (fill : FillEvent) : StringMap BalanceSnapshot :=
  let notional := rnd (fill.quantity * fill.price)
  match fill.side with
  | .buy =>
    moveBalance rnd (moveBalance rnd balances fill.instrument.baseAsset fill.quantity) fill.instrument.quoteAsset
      (-rnd (notional + fill.fee))
  | .sell =>
    moveBalance rnd (moveBalance rnd balances fill.instrument.baseAsset (-fill.quantity)) fill.instrument.quoteAsset
      (rnd (notional - fill.fee))

def applyFillToPortfolio (portfolio : PortfolioService) (fill : FillEvent) : PortfolioService :=
  { portfolio with
    positions := modifyD portfolio.positions fill.instrument.instrumentId fun position =>
      applyFillToPosition rnd portfolio.markPrices (PortfolioService.openPosition position fill) fill
    balances := applyFillToBalances rnd portfolio.balances fill }

def setMarkPrice (portfolio : PortfolioService) (instrumentId : String) (price : ℚ) : PortfolioService :=
  { portfolio with
    markPrices := portfolio.markPrices.insert instrumentId price
    positions :=
      match portfolio.positions[instrumentId]? with
      | some position => portfolio.positions.insert instrumentId (updateUnrealized rnd position price)
      | none => portfolio.positions }

/-! ### The risk engine -/

/-- The decision on a request, at a clock reading. -/
def evaluate (config : RiskConfig) (store : MarketStateStore) (now : Int) (request : OrderRequest) : RiskDecision :=
  if config.killSwitchEnabled then { approved := false, reason := some "kill switch enabled" }
  else if request.quantity ≤ 0 then { approved := false, reason := some "quantity must be positive" }
  else if request.quantity > config.maxOrderQuantity then
    { approved := false, reason := some "order quantity exceeds limit" }
  else if request.quantity > config.maxPositionQuantity then
    { approved := false, reason := some "position quantity exceeds limit" }
  else if store.isStale now request.instrument.instrumentId config.staleAfterMs then
    { approved := false, reason := some "market data is stale" }
  else
    match RiskEngine.resolveReferencePrice store request with
    | none => { approved := false, reason := some "reference price unavailable" }
    | some referencePrice =>
      if rnd (request.quantity * referencePrice) > config.maxOrderNotional then
        { approved := false, reason := some "order notional exceeds limit" }
      else { approved := true, reason := none }

/-! ### The runtime -/

variable {σ : Type*}

def handleExecutionResult (runtime : SimulationRuntime σ) (result : ExecutionResult) : SimulationRuntime σ :=
  let portfolio := result.fills.foldl (applyFillToPortfolio rnd) runtime.portfolioService
  { runtime with
    orderRepository := runtime.orderRepository.map fun repository =>
      result.updates.foldl InMemoryOrderRepository.saveOrderUpdate repository
    fillRepository := runtime.fillRepository.map fun repository =>
      result.fills.foldl InMemoryFillRepository.appendFill repository
    portfolioService := portfolio
    appliedFillCount := runtime.appliedFillCount + result.fills.length
    positionRepository := runtime.positionRepository.map fun repository =>
      portfolio.allPositions.foldl InMemoryPositionRepository.savePosition repository
    balanceRepository := runtime.balanceRepository.map fun repository =>
      portfolio.allBalances.foldl InMemoryBalanceRepository.saveBalance repository }

/-- The market part of `on_event`. -/
def onMarketEvent (runtime : SimulationRuntime σ) (event : MarketEvent) : SimulationRuntime σ :=
  let (engine, result) := processMarketEvent rnd runtime.executionEngine event
  let runtime := { runtime with
    marketStateStore := runtime.marketStateStore.apply event
    marketStateCache := runtime.marketStateCache.map fun cache : InMemoryMarketStateCache =>
      cache.upsertSnapshot (SimulationRuntime.marketSnapshot event)
    executionEngine := engine }
  let runtime := handleExecutionResult rnd runtime result
  if event.price > 0 then
    { runtime with
      portfolioService := setMarkPrice rnd runtime.portfolioService event.instrument.instrumentId event.price }
  else runtime

/-- One request of `on_event`, with the pause switch and the clock as they stand then. -/
def handleRequest (runtime : SimulationRuntime σ) (paused : Bool) (now : Int) (request : OrderRequest) :
    SimulationRuntime σ :=
  if paused then runtime
  else if (evaluate rnd runtime.riskConfig runtime.marketStateStore now request).approved then
    let (engine, result) := submit rnd runtime.executionEngine request
    let runtime := { runtime with
      riskApprovedCount := runtime.riskApprovedCount + 1
      executionEngine := engine
      orderRepository := runtime.orderRepository.map fun repository =>
        SimulationRuntime.persistNewOrder repository request result }
    handleExecutionResult rnd runtime result
  else { runtime with riskRejectedCount := runtime.riskRejectedCount + 1 }

/-- The request loop of `on_event`, from the request number `k`. -/
def handleRequests (input : RuntimeInput) : Nat → List OrderRequest → SimulationRuntime σ → SimulationRuntime σ
  | _, [], runtime => runtime
  | k, request :: requests, runtime =>
    handleRequests input (k + 1) requests (handleRequest rnd runtime (input.paused k) (input.now k) request)

/-- The market part, if the event has one. -/
def marketPhase (runtime : SimulationRuntime σ) : EngineEvent → SimulationRuntime σ
  | .market event => onMarketEvent rnd runtime event
  | _ => runtime

def onEvent (runtime : SimulationRuntime σ) (input : RuntimeInput) : SimulationRuntime σ :=
  let runtime := marketPhase rnd runtime input.event
  let (coordinator, requests) := runtime.strategyCoordinator.onEvent input.event
    { marketStateStore := runtime.marketStateStore, clock := input.strategyClock }
  handleRequests rnd input 0 requests { runtime with strategyCoordinator := coordinator }

/-- The runtime as a machine that reads events. -/
def runtimeMachine : Machine (SimulationRuntime σ) RuntimeInput Unit where
  step runtime input := (onEvent rnd runtime input, ())

/-! ### Without rounding -/

theorem runtimeMachine_id : runtimeMachine id = (SimulationRuntime.machine : Machine (SimulationRuntime σ) _ _) := by
  have hsubmit : ∀ engine request, submit id engine request = MatchingEngine.submit engine request :=
    fun engine request => congrArg (fun M => M.step engine (.submit request)) machine_id
  have hmarket : ∀ engine event, processMarketEvent id engine event = engine.processMarketEvent event :=
    fun engine event => congrArg (fun M => M.step engine (.processMarketEvent event)) machine_id
  have hmarketEvent : ∀ (runtime : SimulationRuntime σ) event,
      onMarketEvent id runtime event = runtime.onMarketEvent event := by
    intro runtime event
    unfold onMarketEvent
    rw [hmarket]
    rfl
  have hrequest : ∀ (runtime : SimulationRuntime σ) paused now request,
      handleRequest id runtime paused now request = runtime.handleRequest paused now request := by
    intro runtime paused now request
    unfold handleRequest
    rw [hsubmit]
    rfl
  have hrequests : ∀ input k requests (runtime : SimulationRuntime σ),
      handleRequests id input k requests runtime = SimulationRuntime.handleRequests input k requests runtime := by
    intro input k requests
    induction requests generalizing k with
    | nil => exact fun _ => rfl
    | cons request requests ih =>
      intro runtime
      rw [handleRequests, SimulationRuntime.handleRequests, hrequest, ih]
  have hphase : ∀ (runtime : SimulationRuntime σ) event,
      marketPhase id runtime event = runtime.marketPhase event := by
    intro runtime event
    cases event with
    | market event => exact hmarketEvent runtime event
    | timer => rfl
    | transaction => rfl
  unfold runtimeMachine SimulationRuntime.machine
  congr
  funext runtime input
  unfold onEvent SimulationRuntime.onEvent
  simp only [hphase, hrequests]

end Rounded

end Wall
