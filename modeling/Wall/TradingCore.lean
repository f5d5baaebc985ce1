import Wall.SimulationRuntime
import Wall.EngineRuns

/-!
# The trading core of the runtime

Between an event and its effect on orders and positions stand strategies, risk checks and the clock.  All they decide
is which calls reach the matching engine: the market events, and the requests that are approved.  `TradingCore` is
the engine, the portfolio and the order repository, driven by these calls alone, and `onEvent_core` says that an
event does to the runtime's core what the core does with the event's calls (`tradingOps`).  A result about all runs
of the runtime is proved on the core and carried over by `invariant_run`.
-/

namespace Wall

/-- The state that orders and fills pass through. -/
structure TradingCore where
  engine : MatchingEngine := {}
  portfolio : PortfolioService := {}
  orderRepository : Option InMemoryOrderRepository := none

/-- A call that reaches the matching engine. -/
inductive TradingOp
  | market (event : MarketEvent)
  | submit (request : OrderRequest)
  deriving DecidableEq, Repr

/-- The engine's own call. -/
def TradingOp.engineOp : TradingOp → EngineOp
  | .market event => .processMarketEvent event
  | .submit request => .submit request

namespace TradingCore

/-- Save a result's updates and apply its fills. -/
def record (core : TradingCore) (result : ExecutionResult) : TradingCore :=
  { core with
    portfolio := result.fills.foldl PortfolioService.applyFill core.portfolio
    orderRepository := core.orderRepository.map fun repository =>
      result.updates.foldl InMemoryOrderRepository.saveOrderUpdate repository }

def onMarket (core : TradingCore) (event : MarketEvent) : TradingCore :=
  let (engine, result) := core.engine.processMarketEvent event
  let core := { core with engine := engine }.record result
  if event.price > 0 then
    { core with portfolio := core.portfolio.setMarkPrice event.instrument.instrumentId event.price }
  else core

def onSubmit (core : TradingCore) (request : OrderRequest) : TradingCore :=
  let (engine, result) := core.engine.submit request
  { core with
    engine := engine
    orderRepository := core.orderRepository.map fun repository =>
      SimulationRuntime.persistNewOrder repository request result }.record result

def step (core : TradingCore) : TradingOp → TradingCore
  | .market event => core.onMarket event
  | .submit request => core.onSubmit request

def machine : Machine TradingCore TradingOp Unit where
  step core op := (core.step op, ())

@[simp] theorem step_engine (core : TradingCore) (op : TradingOp) :
    (core.step op).engine = (MatchingEngine.machine.step core.engine op.engineOp).1 := by
  cases op with
  | market event =>
    show (core.onMarket event).engine = (core.engine.processMarketEvent event).1
    unfold onMarket
    dsimp only
    split <;> rfl
  | submit request => rfl

end TradingCore

namespace SimulationRuntime

variable {σ : Type*}

def core (runtime : SimulationRuntime σ) : TradingCore where
  engine := runtime.executionEngine
  portfolio := runtime.portfolioService
  orderRepository := runtime.orderRepository

/-- The requests that the strategies emit for an event. -/
def requestsOf (runtime : SimulationRuntime σ) (input : RuntimeInput) : List OrderRequest :=
  let runtime := runtime.marketPhase input.event
  (runtime.strategyCoordinator.onEvent input.event
    { marketStateStore := runtime.marketStateStore, clock := input.strategyClock }).2

/-- Whether the request number `k` of an event reaches the matching engine. -/
def approves (riskConfig : RiskConfig) (store : MarketStateStore) (input : RuntimeInput) (k : Nat)
    (request : OrderRequest) : Bool :=
  !input.paused k && (RiskEngine.evaluate riskConfig store (input.now k) request).approved

/-- The calls of a request loop that reach the matching engine, from the request number `k`. -/
def submitOps (riskConfig : RiskConfig) (store : MarketStateStore) (input : RuntimeInput) :
    Nat → List OrderRequest → List TradingOp
  | _, [] => []
  | k, request :: requests =>
    (if approves riskConfig store input k request then [.submit request] else []) ++
      submitOps riskConfig store input (k + 1) requests

/-- The market call of an event, if it is a market event. -/
def marketOps : EngineEvent → List TradingOp
  | .market event => [.market event]
  | _ => []

/-- The calls of an event that reach the matching engine. -/
def tradingOps (runtime : SimulationRuntime σ) (input : RuntimeInput) : List TradingOp :=
  marketOps input.event ++
    submitOps runtime.riskConfig (runtime.marketPhase input.event).marketStateStore input 0 (runtime.requestsOf input)

/-! ### The parts of an event -/

/-- The marking of an event: a positive price is the mark of the instrument. -/
def marked (portfolio : PortfolioService) (event : MarketEvent) : PortfolioService :=
  if event.price > 0 then portfolio.setMarkPrice event.instrument.instrumentId event.price else portfolio

/-- The runtime when the fills of a market event have been handled. -/
def filled (runtime : SimulationRuntime σ) (event : MarketEvent) : SimulationRuntime σ :=
  { runtime with
    marketStateStore := runtime.marketStateStore.apply event
    marketStateCache := runtime.marketStateCache.map fun cache : InMemoryMarketStateCache =>
      cache.upsertSnapshot (marketSnapshot event)
    executionEngine := (runtime.executionEngine.processMarketEvent event).1 }.handleExecutionResult
      (runtime.executionEngine.processMarketEvent event).2

/-- A market event is handled, and then its price is marked. -/
theorem onMarketEvent_eq (runtime : SimulationRuntime σ) (event : MarketEvent) :
    runtime.onMarketEvent event = { runtime.filled event with
      portfolioService := marked (runtime.filled event).portfolioService event } := by
  unfold onMarketEvent filled marked
  dsimp only
  split <;> rfl

/-- The runtime when an approved request has been submitted, before its result is handled. -/
def submitted (runtime : SimulationRuntime σ) (request : OrderRequest) : SimulationRuntime σ :=
  { runtime with
    riskApprovedCount := runtime.riskApprovedCount + 1
    executionEngine := (runtime.executionEngine.submit request).1
    orderRepository := runtime.orderRepository.map fun repository =>
      persistNewOrder repository request (runtime.executionEngine.submit request).2 }

/-- A request is approved, submitted and its result handled, or a counter is all that changes. -/
theorem handleRequest_cases (runtime : SimulationRuntime σ) (input : RuntimeInput) (k : Nat)
    (request : OrderRequest) :
    (approves runtime.riskConfig runtime.marketStateStore input k request = true ∧
        runtime.handleRequest (input.paused k) (input.now k) request =
          (runtime.submitted request).handleExecutionResult (runtime.executionEngine.submit request).2) ∨
      approves runtime.riskConfig runtime.marketStateStore input k request = false ∧
        runtime.handleRequest (input.paused k) (input.now k) request =
          { runtime with riskRejectedCount := runtime.riskRejectedCount + if input.paused k then 0 else 1 } := by
  unfold handleRequest approves
  by_cases hpaused : input.paused k = true
  · right
    simp [hpaused]
  · by_cases happroved :
        (RiskEngine.evaluate runtime.riskConfig runtime.marketStateStore (input.now k) request).approved = true
    · left
      simp only [hpaused, happroved, Bool.not_false, Bool.and_self, if_true, if_false, Bool.false_eq_true, true_and]
      rfl
    · right
      simp [hpaused, happroved]

/-- A request leaves the limits, the strategies, the market state and the market cache as they are. -/
theorem handleRequest_frame (runtime : SimulationRuntime σ) (input : RuntimeInput) (k : Nat)
    (request : OrderRequest) :
    let runtime' := runtime.handleRequest (input.paused k) (input.now k) request
    runtime'.riskConfig = runtime.riskConfig ∧ runtime'.strategyCoordinator = runtime.strategyCoordinator ∧
      runtime'.marketStateStore = runtime.marketStateStore ∧
      runtime'.marketStateCache = runtime.marketStateCache := by
  rcases handleRequest_cases runtime input k request with ⟨-, heq⟩ | ⟨-, heq⟩
  · rw [heq]
    exact ⟨rfl, rfl, rfl, rfl⟩
  · rw [heq]
    exact ⟨rfl, rfl, rfl, rfl⟩

/-! ### An event is a run of the core -/

theorem handleRequest_core (runtime : SimulationRuntime σ) (input : RuntimeInput) (k : Nat) (request : OrderRequest) :
    (runtime.handleRequest (input.paused k) (input.now k) request).core =
      TradingCore.machine.run runtime.core
        (if approves runtime.riskConfig runtime.marketStateStore input k request then [.submit request] else []) := by
  rcases handleRequest_cases runtime input k request with ⟨happroved, heq⟩ | ⟨happroved, heq⟩
  · rw [happroved, heq]
    rfl
  · rw [happroved, heq]
    rfl

theorem handleRequests_core (input : RuntimeInput) (k : Nat) (requests : List OrderRequest)
    (runtime : SimulationRuntime σ) :
    (handleRequests input k requests runtime).core = TradingCore.machine.run runtime.core
        (submitOps runtime.riskConfig runtime.marketStateStore input k requests) ∧
      (handleRequests input k requests runtime).riskConfig = runtime.riskConfig := by
  induction requests generalizing k runtime with
  | nil => exact ⟨rfl, rfl⟩
  | cons request requests ih =>
    obtain ⟨hconfig, -, hstore, -⟩ := handleRequest_frame runtime input k request
    obtain ⟨hcore, hconfig'⟩ := ih (k + 1) (runtime.handleRequest (input.paused k) (input.now k) request)
    refine ⟨?_, hconfig'.trans hconfig⟩
    rw [handleRequests, hcore, hconfig, hstore, handleRequest_core, submitOps, Machine.run_append]

theorem marketPhase_core (runtime : SimulationRuntime σ) (event : EngineEvent) :
    (runtime.marketPhase event).core = TradingCore.machine.run runtime.core (marketOps event) ∧
      (runtime.marketPhase event).riskConfig = runtime.riskConfig := by
  cases event with
  | market event =>
    have hcore : (runtime.onMarketEvent event).core = runtime.core.onMarket event := by
      unfold onMarketEvent TradingCore.onMarket
      dsimp only
      split <;> rfl
    refine ⟨hcore, ?_⟩
    show (runtime.onMarketEvent event).riskConfig = _
    rw [onMarketEvent_eq]
    rfl
  | timer => exact ⟨rfl, rfl⟩
  | transaction => exact ⟨rfl, rfl⟩

/-- An event does to the core what the core does with the calls that reach the engine. -/
theorem onEvent_core (runtime : SimulationRuntime σ) (input : RuntimeInput) :
    (runtime.onEvent input).core = TradingCore.machine.run runtime.core (runtime.tradingOps input) ∧
      (runtime.onEvent input).riskConfig = runtime.riskConfig := by
  obtain ⟨hmarket, hconfig⟩ := marketPhase_core runtime input.event
  unfold onEvent
  dsimp only
  obtain ⟨hcore, hconfig'⟩ := handleRequests_core input 0 (runtime.requestsOf input)
    { runtime.marketPhase input.event with
      strategyCoordinator := ((runtime.marketPhase input.event).strategyCoordinator.onEvent input.event
        { marketStateStore := (runtime.marketPhase input.event).marketStateStore,
          clock := input.strategyClock }).1 }
  refine ⟨hcore.trans ?_, hconfig'.trans hconfig⟩
  rw [tradingOps, Machine.run_append, ← hmarket, ← hconfig]
  rfl

/-- What every call that is allowed by `ok` keeps of the core, a run of events whose calls are all allowed keeps. -/
theorem invariant_run {ok : TradingCore → TradingOp → Prop} {P : TradingCore → Prop}
    (hstep : ∀ core op, ok core op → P core → P (core.step op)) {runtime : SimulationRuntime σ}
    {inputs : List RuntimeInput}
    (h : machine.Admissible
      (fun runtime input => TradingCore.machine.Admissible ok runtime.core (runtime.tradingOps input)) runtime inputs)
    (hP : P runtime.core) : P (machine.run runtime inputs).core := by
  refine Machine.invariant (P := fun runtime : SimulationRuntime σ => P runtime.core) ?_ h hP
  intro runtime input hok hP
  show P (runtime.onEvent input).core
  rw [(onEvent_core runtime input).1]
  exact Machine.invariant (fun core op => hstep core op) hok hP

end SimulationRuntime

end Wall
