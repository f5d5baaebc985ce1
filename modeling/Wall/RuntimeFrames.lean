import Wall.TradingCore

/-!
# What an event does to the parts of a runtime

The risk limits never change, the market state follows the events alone (`nextStore`), and the strategies see the
event and that market state.  Neither depends on what orders and fills do, so the requests of a run are decided by its
events, and the number of approvals is the number of requests that pass (`onEvent_approved`).
-/

namespace Wall

namespace SimulationRuntime

variable {σ : Type*}

/-- The market state after an event. -/
def nextStore (store : MarketStateStore) : EngineEvent → MarketStateStore
  | .market event => store.apply event
  | _ => store

/-- The context that the strategies see at an event. -/
def contextOf (runtime : SimulationRuntime σ) (input : RuntimeInput) : StrategyContext where
  marketStateStore := nextStore runtime.marketStateStore input.event
  clock := input.strategyClock

private theorem onMarketEvent_frame (runtime : SimulationRuntime σ) (event : MarketEvent) :
    (runtime.onMarketEvent event).riskConfig = runtime.riskConfig ∧
      (runtime.onMarketEvent event).strategyCoordinator = runtime.strategyCoordinator ∧
      (runtime.onMarketEvent event).marketStateStore = runtime.marketStateStore.apply event ∧
      (runtime.onMarketEvent event).riskApprovedCount = runtime.riskApprovedCount := by
  rw [onMarketEvent_eq]
  exact ⟨rfl, rfl, rfl, rfl⟩

theorem marketPhase_frame (runtime : SimulationRuntime σ) (event : EngineEvent) :
    (runtime.marketPhase event).riskConfig = runtime.riskConfig ∧
      (runtime.marketPhase event).strategyCoordinator = runtime.strategyCoordinator ∧
      (runtime.marketPhase event).marketStateStore = nextStore runtime.marketStateStore event ∧
      (runtime.marketPhase event).riskApprovedCount = runtime.riskApprovedCount := by
  cases event with
  | market event => exact onMarketEvent_frame runtime event
  | timer => exact ⟨rfl, rfl, rfl, rfl⟩
  | transaction => exact ⟨rfl, rfl, rfl, rfl⟩

private theorem handleRequest_approved (runtime : SimulationRuntime σ) (input : RuntimeInput) (k : Nat)
    (request : OrderRequest) :
    (runtime.handleRequest (input.paused k) (input.now k) request).riskApprovedCount = runtime.riskApprovedCount +
      if approves runtime.riskConfig runtime.marketStateStore input k request then 1 else 0 := by
  rcases handleRequest_cases runtime input k request with ⟨happroved, heq⟩ | ⟨happroved, heq⟩
  · rw [heq, happroved]
    rfl
  · rw [heq, happroved]
    rfl

theorem handleRequests_frame (input : RuntimeInput) (k : Nat) (requests : List OrderRequest)
    (runtime : SimulationRuntime σ) :
    (handleRequests input k requests runtime).riskConfig = runtime.riskConfig ∧
      (handleRequests input k requests runtime).strategyCoordinator = runtime.strategyCoordinator ∧
      (handleRequests input k requests runtime).marketStateStore = runtime.marketStateStore ∧
      (handleRequests input k requests runtime).riskApprovedCount = runtime.riskApprovedCount +
        (submitOps runtime.riskConfig runtime.marketStateStore input k requests).length := by
  induction requests generalizing k runtime with
  | nil => exact ⟨rfl, rfl, rfl, rfl⟩
  | cons request requests ih =>
    obtain ⟨hconfig, hcoordinator, hstore, -⟩ := handleRequest_frame runtime input k request
    obtain ⟨hconfig', hcoordinator', hstore', happroved'⟩ :=
      ih (k + 1) (runtime.handleRequest (input.paused k) (input.now k) request)
    refine ⟨hconfig'.trans hconfig, hcoordinator'.trans hcoordinator, hstore'.trans hstore, ?_⟩
    rw [handleRequests, happroved', handleRequest_approved, hconfig, hstore, submitOps, List.length_append, add_assoc]
    congr 2
    split <;> rfl

/-- The requests of an event are those the strategies emit in its context. -/
theorem requestsOf_eq (runtime : SimulationRuntime σ) (input : RuntimeInput) : runtime.requestsOf input =
    (runtime.strategyCoordinator.onEvent input.event (runtime.contextOf input)).2 := by
  obtain ⟨-, hcoordinator, hstore, -⟩ := marketPhase_frame runtime input.event
  unfold requestsOf contextOf
  dsimp only
  rw [hcoordinator, hstore]

/-- The runtime of an event when its requests are taken up. -/
def beforeRequests (runtime : SimulationRuntime σ) (input : RuntimeInput) : SimulationRuntime σ :=
  { runtime.marketPhase input.event with
    strategyCoordinator := (runtime.strategyCoordinator.onEvent input.event (runtime.contextOf input)).1 }

theorem onEvent_eq (runtime : SimulationRuntime σ) (input : RuntimeInput) : runtime.onEvent input =
    handleRequests input 0 (runtime.strategyCoordinator.onEvent input.event (runtime.contextOf input)).2
      (runtime.beforeRequests input) := by
  obtain ⟨-, hcoordinator, hstore, -⟩ := marketPhase_frame runtime input.event
  unfold onEvent beforeRequests contextOf
  dsimp only
  rw [hcoordinator, hstore]

theorem onEvent_of_no_request {runtime : SimulationRuntime σ} {input : RuntimeInput}
    (h : (runtime.strategyCoordinator.onEvent input.event (runtime.contextOf input)).2 = []) :
    runtime.onEvent input = runtime.beforeRequests input := by
  rw [onEvent_eq, h]
  rfl

theorem beforeRequests_frame (runtime : SimulationRuntime σ) (input : RuntimeInput) :
    (runtime.beforeRequests input).riskConfig = runtime.riskConfig ∧
      (runtime.beforeRequests input).marketStateStore = nextStore runtime.marketStateStore input.event ∧
      (runtime.beforeRequests input).riskApprovedCount = runtime.riskApprovedCount := by
  obtain ⟨hconfig, -, hstore, happroved⟩ := marketPhase_frame runtime input.event
  exact ⟨hconfig, hstore, happroved⟩

/-- What an event leaves of the limits, the strategies and the market state. -/
theorem onEvent_frame (runtime : SimulationRuntime σ) (input : RuntimeInput) :
    (runtime.onEvent input).riskConfig = runtime.riskConfig ∧
      (runtime.onEvent input).strategyCoordinator =
        (runtime.strategyCoordinator.onEvent input.event (runtime.contextOf input)).1 ∧
      (runtime.onEvent input).marketStateStore = nextStore runtime.marketStateStore input.event := by
  obtain ⟨hconfig, hstore, -⟩ := beforeRequests_frame runtime input
  obtain ⟨hconfig', hcoordinator', hstore', -⟩ := handleRequests_frame input 0
    (runtime.strategyCoordinator.onEvent input.event (runtime.contextOf input)).2 (runtime.beforeRequests input)
  rw [onEvent_eq]
  exact ⟨hconfig'.trans hconfig, hcoordinator', hstore'.trans hstore⟩

/-! ### The market part -/

/-- The parts of the runtime after the market part of an event. -/
theorem onMarketEvent_parts (runtime : SimulationRuntime σ) (event : MarketEvent) :
    let result := runtime.executionEngine.processMarketEvent event
    (runtime.onMarketEvent event).executionEngine = result.1 ∧
      (runtime.onMarketEvent event).appliedFillCount = runtime.appliedFillCount + result.2.fills.length ∧
      (runtime.onMarketEvent event).portfolioService =
        marked (result.2.fills.foldl PortfolioService.applyFill runtime.portfolioService) event := by
  rw [onMarketEvent_eq]
  exact ⟨rfl, rfl, rfl⟩

/-- The marking touches no balance. -/
theorem marked_balances (portfolio : PortfolioService) (event : MarketEvent) :
    (marked portfolio event).balances = portfolio.balances := by
  unfold marked
  split <;> rfl

/-! ### The market cache -/

/-- The cached market snapshots after an event. -/
def nextCache (cache : Option InMemoryMarketStateCache) : EngineEvent → Option InMemoryMarketStateCache
  | .market event => cache.map fun cache : InMemoryMarketStateCache => cache.upsertSnapshot (marketSnapshot event)
  | _ => cache

private theorem marketPhase_cache (runtime : SimulationRuntime σ) (event : EngineEvent) :
    (runtime.marketPhase event).marketStateCache = nextCache runtime.marketStateCache event := by
  cases event with
  | market event =>
    show (runtime.onMarketEvent event).marketStateCache = _
    rw [onMarketEvent_eq]
    rfl
  | timer => rfl
  | transaction => rfl

private theorem handleRequests_cache (input : RuntimeInput) (k : Nat) (requests : List OrderRequest)
    (runtime : SimulationRuntime σ) :
    (handleRequests input k requests runtime).marketStateCache = runtime.marketStateCache := by
  induction requests generalizing k runtime with
  | nil => rfl
  | cons request requests ih =>
    rw [handleRequests, ih]
    exact (handleRequest_frame runtime input k request).2.2.2

/-- Requests leave the market cache as it is. -/
theorem onEvent_cache (runtime : SimulationRuntime σ) (input : RuntimeInput) :
    (runtime.onEvent input).marketStateCache = nextCache runtime.marketStateCache input.event := by
  rw [onEvent_eq, handleRequests_cache]
  exact marketPhase_cache runtime input.event

/-! ### Approvals -/

/-- The requests of the event that are approved. -/
def approvedOps (runtime : SimulationRuntime σ) (input : RuntimeInput) : List TradingOp :=
  submitOps runtime.riskConfig (nextStore runtime.marketStateStore input.event) input 0
    (runtime.strategyCoordinator.onEvent input.event (runtime.contextOf input)).2

theorem onEvent_approved (runtime : SimulationRuntime σ) (input : RuntimeInput) :
    (runtime.onEvent input).riskApprovedCount = runtime.riskApprovedCount + (runtime.approvedOps input).length := by
  obtain ⟨hconfig, hstore, happroved⟩ := beforeRequests_frame runtime input
  rw [onEvent_eq, (handleRequests_frame _ _ _ _).2.2.2, hconfig, hstore, happroved]
  rfl

end SimulationRuntime

end Wall
