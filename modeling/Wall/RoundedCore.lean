import Wall.RoundedRuntime

/-!
# The trading core in rounded arithmetic

The engine, the portfolio and the order repository of the rounded runtime, driven by the calls that reach the engine:
`onEvent_core` says that an event does to the core what `coreMachine` does with the event's calls, so that a result
about all runs of the runtime is proved on the core (`invariant_run`).
-/

namespace Wall

namespace Rounded

variable (rnd : ℚ → ℚ)

/-! ### The core -/

/-- Save a result's updates and apply its fills. -/
def record (core : TradingCore) (result : ExecutionResult) : TradingCore :=
  { core with
    portfolio := result.fills.foldl (applyFillToPortfolio rnd) core.portfolio
    orderRepository := core.orderRepository.map fun repository =>
      result.updates.foldl InMemoryOrderRepository.saveOrderUpdate repository }

def onMarket (core : TradingCore) (event : MarketEvent) : TradingCore :=
  let (engine, result) := processMarketEvent rnd core.engine event
  let core := record rnd { core with engine := engine } result
  if event.price > 0 then
    { core with portfolio := setMarkPrice rnd core.portfolio event.instrument.instrumentId event.price }
  else core

def onSubmit (core : TradingCore) (request : OrderRequest) : TradingCore :=
  let (engine, result) := submit rnd core.engine request
  record rnd { core with
    engine := engine
    orderRepository := core.orderRepository.map fun repository =>
      SimulationRuntime.persistNewOrder repository request result } result

def coreStep (core : TradingCore) : TradingOp → TradingCore
  | .market event => onMarket rnd core event
  | .submit request => onSubmit rnd core request

def coreMachine : Machine TradingCore TradingOp Unit where
  step core op := (coreStep rnd core op, ())

/-! ### The calls of an event -/

variable {σ : Type*}

/-- The requests that the strategies emit for an event. -/
def requestsOf (runtime : SimulationRuntime σ) (input : RuntimeInput) : List OrderRequest :=
  let runtime := marketPhase rnd runtime input.event
  (runtime.strategyCoordinator.onEvent input.event
    { marketStateStore := runtime.marketStateStore, clock := input.strategyClock }).2

/-- Whether the request number `k` of an event reaches the matching engine. -/
def approves (riskConfig : RiskConfig) (store : MarketStateStore) (input : RuntimeInput) (k : Nat)
    (request : OrderRequest) : Bool :=
  !input.paused k && (evaluate rnd riskConfig store (input.now k) request).approved

/-- The calls of a request loop that reach the matching engine, from the request number `k`. -/
def submitOps (riskConfig : RiskConfig) (store : MarketStateStore) (input : RuntimeInput) :
    Nat → List OrderRequest → List TradingOp
  | _, [] => []
  | k, request :: requests =>
    (if approves rnd riskConfig store input k request then [.submit request] else []) ++
      submitOps riskConfig store input (k + 1) requests

/-- The calls of an event that reach the matching engine. -/
def tradingOps (runtime : SimulationRuntime σ) (input : RuntimeInput) : List TradingOp :=
  SimulationRuntime.marketOps input.event ++ submitOps rnd runtime.riskConfig
    (marketPhase rnd runtime input.event).marketStateStore input 0 (requestsOf rnd runtime input)

/-- Every call of an event satisfies `ok` in the state of the core that it is made in. -/
def CallsSatisfy (ok : TradingCore → TradingOp → Prop) (runtime : SimulationRuntime σ) (input : RuntimeInput) : Prop :=
  (coreMachine rnd).Admissible ok runtime.core (tradingOps rnd runtime input)

instance (ok : TradingCore → TradingOp → Prop) [∀ core op, Decidable (ok core op)] (runtime : SimulationRuntime σ)
    (input : RuntimeInput) : Decidable (CallsSatisfy rnd ok runtime input) :=
  inferInstanceAs (Decidable ((coreMachine rnd).Admissible ok _ _))

/-! ### An event is a run of the core -/

/-- A request is approved, submitted and its result handled, or a counter is all that changes. -/
theorem handleRequest_core (runtime : SimulationRuntime σ) (input : RuntimeInput) (k : Nat) (request : OrderRequest) :
    let runtime' := handleRequest rnd runtime (input.paused k) (input.now k) request
    runtime'.core = (coreMachine rnd).run runtime.core
        (if approves rnd runtime.riskConfig runtime.marketStateStore input k request then [.submit request] else []) ∧
      runtime'.riskConfig = runtime.riskConfig ∧ runtime'.marketStateStore = runtime.marketStateStore := by
  unfold handleRequest approves
  by_cases hpaused : input.paused k = true
  · simp [hpaused]
  · by_cases happroved : (evaluate rnd runtime.riskConfig runtime.marketStateStore (input.now k) request).approved = true
    · simp only [hpaused, happroved, Bool.not_false, Bool.and_self, if_true, if_false, Bool.false_eq_true]
      exact ⟨rfl, rfl, rfl⟩
    · simp [hpaused, happroved, SimulationRuntime.core]

theorem handleRequests_core (input : RuntimeInput) (k : Nat) (requests : List OrderRequest)
    (runtime : SimulationRuntime σ) :
    (handleRequests rnd input k requests runtime).core = (coreMachine rnd).run runtime.core
        (submitOps rnd runtime.riskConfig runtime.marketStateStore input k requests) ∧
      (handleRequests rnd input k requests runtime).riskConfig = runtime.riskConfig := by
  induction requests generalizing k runtime with
  | nil => exact ⟨rfl, rfl⟩
  | cons request requests ih =>
    obtain ⟨hcore, hconfig, hstore⟩ := handleRequest_core rnd runtime input k request
    obtain ⟨hrest, hconfig'⟩ := ih (k + 1) (handleRequest rnd runtime (input.paused k) (input.now k) request)
    refine ⟨?_, hconfig'.trans hconfig⟩
    rw [handleRequests, hrest, hconfig, hstore, hcore, submitOps, Machine.run_append]

theorem marketPhase_core (runtime : SimulationRuntime σ) (event : EngineEvent) :
    (marketPhase rnd runtime event).core =
        (coreMachine rnd).run runtime.core (SimulationRuntime.marketOps event) ∧
      (marketPhase rnd runtime event).riskConfig = runtime.riskConfig := by
  cases event with
  | market event =>
    show (onMarketEvent rnd runtime event).core = onMarket rnd runtime.core event ∧ _ = runtime.riskConfig
    unfold marketPhase onMarketEvent onMarket
    dsimp only
    split <;> exact ⟨rfl, rfl⟩
  | timer => exact ⟨rfl, rfl⟩
  | transaction => exact ⟨rfl, rfl⟩

/-- An event does to the core what the core does with the calls that reach the engine. -/
theorem onEvent_core (runtime : SimulationRuntime σ) (input : RuntimeInput) :
    (onEvent rnd runtime input).core = (coreMachine rnd).run runtime.core (tradingOps rnd runtime input) ∧
      (onEvent rnd runtime input).riskConfig = runtime.riskConfig := by
  obtain ⟨hmarket, hconfig⟩ := marketPhase_core rnd runtime input.event
  obtain ⟨hcore, hconfig'⟩ := handleRequests_core rnd input 0 (requestsOf rnd runtime input)
    { marketPhase rnd runtime input.event with
      strategyCoordinator := ((marketPhase rnd runtime input.event).strategyCoordinator.onEvent input.event
        { marketStateStore := (marketPhase rnd runtime input.event).marketStateStore,
          clock := input.strategyClock }).1 }
  refine ⟨hcore.trans ?_, hconfig'.trans hconfig⟩
  rw [tradingOps, Machine.run_append, ← hmarket, ← hconfig]
  rfl

variable {rnd}

/-- What every call that is allowed by `ok` keeps of the core, a run of events whose calls are all allowed keeps. -/
theorem invariant_run {ok : TradingCore → TradingOp → Prop} {P : TradingCore → Prop}
    (hstep : ∀ core op, ok core op → P core → P (coreStep rnd core op)) {runtime : SimulationRuntime σ}
    {inputs : List RuntimeInput} (h : (runtimeMachine rnd).Admissible (CallsSatisfy rnd ok) runtime inputs)
    (hP : P runtime.core) : P ((runtimeMachine rnd).run runtime inputs).core := by
  refine Machine.invariant (P := fun runtime : SimulationRuntime σ => P runtime.core) ?_ h hP
  intro runtime input hok hP
  show P (onEvent rnd runtime input).core
  rw [(onEvent_core rnd runtime input).1]
  exact Machine.invariant (fun core op => hstep core op) hok hP

end Rounded

end Wall
