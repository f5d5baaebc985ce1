import Wall.MatchingEngine
import Wall.Portfolio
import Wall.Storage
import Wall.Strategy

/-!
# The simulation runtime

`app/simulation_runtime.cpp`: market state, strategies, risk, the matching engine and the portfolio, with the
repositories that are configured.  What an event reads from outside the runtime is part of the step's input
(`RuntimeInput`): the clock and the operator's pause switch, either of which may change between two requests.
The metrics beside them are in `RuntimeMetrics`.
-/

namespace Wall

structure SimulationRuntimeConfig (σ : Type*) where
  strategyCoordinator : StrategyCoordinator σ
  orderRepository : Option InMemoryOrderRepository := none
  fillRepository : Option InMemoryFillRepository := none
  positionRepository : Option InMemoryPositionRepository := none
  balanceRepository : Option InMemoryBalanceRepository := none
  marketStateCache : Option InMemoryMarketStateCache := none

structure SimulationRuntime (σ : Type*) where
  riskConfig : RiskConfig
  strategyCoordinator : StrategyCoordinator σ
  marketStateStore : MarketStateStore := {}
  portfolioService : PortfolioService := {}
  executionEngine : MatchingEngine := {}
  orderRepository : Option InMemoryOrderRepository := none
  fillRepository : Option InMemoryFillRepository := none
  positionRepository : Option InMemoryPositionRepository := none
  balanceRepository : Option InMemoryBalanceRepository := none
  marketStateCache : Option InMemoryMarketStateCache := none
  riskApprovedCount : Nat := 0
  riskRejectedCount : Nat := 0
  appliedFillCount : Nat := 0

/-- One event with what `on_event` reads besides it: the readings of the strategies' clock, and the clock reading and
the pause switch at the time of each request. -/
structure RuntimeInput where
  event : EngineEvent
  strategyClock : Nat → Int
  now : Nat → Int
  paused : Nat → Bool

namespace SimulationRuntime

variable {σ : Type*}

/-- The constructor. -/
def fresh (riskConfig : RiskConfig) (config : SimulationRuntimeConfig σ) : SimulationRuntime σ where
  riskConfig := riskConfig
  strategyCoordinator := config.strategyCoordinator
  orderRepository := config.orderRepository
  fillRepository := config.fillRepository
  positionRepository := config.positionRepository
  balanceRepository := config.balanceRepository
  marketStateCache := config.marketStateCache

def handleExecutionResult (runtime : SimulationRuntime σ) (result : ExecutionResult) : SimulationRuntime σ :=
  let portfolio := result.fills.foldl PortfolioService.applyFill runtime.portfolioService
  { runtime with
    orderRepository := runtime.orderRepository.map fun repository =>
      result.updates.foldl InMemoryOrderRepository.saveOrderUpdate repository
    fillRepository := runtime.fillRepository.map fun repository =>
      result.fills.foldl InMemoryFillRepository.appendFill repository
    portfolioService := portfolio
    appliedFillCount := runtime.appliedFillCount + result.fills.length
    positionRepository := runtime.positionRepository.map fun repository =>
      portfolio.allPositions.foldl InMemoryPositionRepository.savePosition repository
    balanceRepository := runtime.balanceRepository.map fun repository =>
      portfolio.allBalances.foldl InMemoryBalanceRepository.saveBalance repository }

def persistNewOrder (repository : InMemoryOrderRepository) (request : OrderRequest) (result : ExecutionResult) :
    InMemoryOrderRepository :=
  if result.orderId = "" then repository
  else
    match repository.getOrder result.orderId with
    | some _ => repository
    | none => repository.saveOrder request result.orderId result.clientOrderId

/-- The snapshot that `persist_market_snapshot` stores for an event. -/
def marketSnapshot (event : MarketEvent) : MarketSnapshot where
  instrumentId := event.instrument.instrumentId
  bestBid :=
    match event.bidLevels with
    | level :: _ => some level.price
    | [] => event.bidPrice
  bestAsk :=
    match event.askLevels with
    | level :: _ => some level.price
    | [] => event.askPrice
  lastTradePrice := if event.price > 0 then some event.price else none
  lastTradeQuantity := if event.quantity > 0 then some event.quantity else none
  lastProcessTimestamp := event.processTimestamp

/-- The market part of `on_event`. -/
def onMarketEvent (runtime : SimulationRuntime σ) (event : MarketEvent) : SimulationRuntime σ :=
  let (engine, result) := runtime.executionEngine.processMarketEvent event
  let runtime := { runtime with
    marketStateStore := runtime.marketStateStore.apply event
    marketStateCache := runtime.marketStateCache.map fun cache : InMemoryMarketStateCache =>
      cache.upsertSnapshot (marketSnapshot event)
    executionEngine := engine }
  let runtime := runtime.handleExecutionResult result
  if event.price > 0 then
    { runtime with
      portfolioService := runtime.portfolioService.setMarkPrice event.instrument.instrumentId event.price }
  else runtime

/-- One request of `on_event`, with the pause switch and the clock as they stand then. -/
def handleRequest (runtime : SimulationRuntime σ) (paused : Bool) (now : Int) (request : OrderRequest) :
    SimulationRuntime σ :=
  if paused then runtime
  else if (RiskEngine.evaluate runtime.riskConfig runtime.marketStateStore now request).approved then
    let (engine, result) := runtime.executionEngine.submit request
    let runtime := { runtime with
      riskApprovedCount := runtime.riskApprovedCount + 1
      executionEngine := engine
      orderRepository := runtime.orderRepository.map fun repository => persistNewOrder repository request result }
    runtime.handleExecutionResult result
  else { runtime with riskRejectedCount := runtime.riskRejectedCount + 1 }

/-- The request loop of `on_event`, from the request number `k`. -/
def handleRequests (input : RuntimeInput) : Nat → List OrderRequest → SimulationRuntime σ → SimulationRuntime σ
  | _, [], runtime => runtime
  | k, request :: requests, runtime =>
    handleRequests input (k + 1) requests (runtime.handleRequest (input.paused k) (input.now k) request)

/-- The market part, if the event has one. -/
def marketPhase (runtime : SimulationRuntime σ) : EngineEvent → SimulationRuntime σ
  | .market event => runtime.onMarketEvent event
  | _ => runtime

def onEvent (runtime : SimulationRuntime σ) (input : RuntimeInput) : SimulationRuntime σ :=
  let runtime := runtime.marketPhase input.event
  let (coordinator, requests) := runtime.strategyCoordinator.onEvent input.event
    { marketStateStore := runtime.marketStateStore, clock := input.strategyClock }
  handleRequests input 0 requests { runtime with strategyCoordinator := coordinator }

/-- The runtime as a machine that reads events. -/
def machine : Machine (SimulationRuntime σ) RuntimeInput Unit where
  step runtime input := (runtime.onEvent input, ())

end SimulationRuntime

end Wall
