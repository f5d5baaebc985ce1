import Wall.Metrics
import Wall.RuntimeFrames
import Wall.StrategyIsolation

/-!
# The metrics of the runtime

`SimulationRuntime::on_event` with a metrics collector: the same code with the calls that it makes of the collector,
in order, and the clock readings that they take (`MeteredInput`).  The calls change nothing that the runtime does
(`meteredMachine_run`).  Over a run from a fresh runtime they mirror its counters, and every request that a strategy
emits is counted once, as approved, rejected or paused.
-/

namespace Wall

/-- An event with what a runtime with metrics reads: the clock before and after the event and before and after each
request, besides the readings of `RuntimeInput`. -/
structure MeteredInput extends RuntimeInput where
  eventStartedMs : Int
  eventFinishedMs : Int
  requestStartedMs : Nat → Int
  requestFinishedMs : Nat → Int

open InMemoryMetricsCollector

namespace SimulationRuntime

variable {σ : Type*}

/-! ### The code -/

def meteredExecutionResult (runtime : SimulationRuntime σ) (result : ExecutionResult) :
    SimulationRuntime σ × List MetricCall :=
  (runtime.handleExecutionResult result, result.fills.map fun _ => .increment "fills_applied" 1)

def meteredMarketEvent (runtime : SimulationRuntime σ) (event : MarketEvent) : SimulationRuntime σ × List MetricCall :=
  let (engine, result) := runtime.executionEngine.processMarketEvent event
  let runtime := { runtime with
    marketStateStore := runtime.marketStateStore.apply event
    marketStateCache := runtime.marketStateCache.map fun cache : InMemoryMarketStateCache =>
      cache.upsertSnapshot (marketSnapshot event)
    executionEngine := engine }
  let (runtime, calls) := runtime.meteredExecutionResult result
  if event.price > 0 then
    ({ runtime with
        portfolioService := runtime.portfolioService.setMarkPrice event.instrument.instrumentId event.price }, calls)
  else (runtime, calls)

/-- One request of `on_event`. -/
def meteredRequest (runtime : SimulationRuntime σ) (input : MeteredInput) (k : Nat) (request : OrderRequest) :
    SimulationRuntime σ × List MetricCall :=
  let latency := MetricCall.observeLatency "order_processing_latency_ms"
    (input.requestFinishedMs k - input.requestStartedMs k)
  if input.paused k then (runtime, [.increment "orders_paused" 1, latency])
  else if (RiskEngine.evaluate runtime.riskConfig runtime.marketStateStore (input.now k) request).approved then
    let (engine, result) := runtime.executionEngine.submit request
    let runtime := { runtime with
      riskApprovedCount := runtime.riskApprovedCount + 1
      executionEngine := engine
      orderRepository := runtime.orderRepository.map fun repository => persistNewOrder repository request result }
    let (runtime, calls) := runtime.meteredExecutionResult result
    (runtime, .increment "orders_approved" 1 :: (calls ++ [latency]))
  else
    ({ runtime with riskRejectedCount := runtime.riskRejectedCount + 1 }, [.increment "risk_rejects" 1, latency])

/-- The request loop of `on_event`, from the request number `k`. -/
def meteredRequests (input : MeteredInput) :
    Nat → List OrderRequest → SimulationRuntime σ → SimulationRuntime σ × List MetricCall
  | _, [], runtime => (runtime, [])
  | k, request :: requests, runtime =>
    let first := runtime.meteredRequest input k request
    let rest := meteredRequests input (k + 1) requests first.1
    (rest.1, first.2 ++ rest.2)

/-- The counter of the event's kind. -/
def eventCalls : EngineEvent → List MetricCall
  | .transaction _ => [.increment "transaction_events" 1]
  | .market _ => [.increment "market_events" 1]
  | .timer _ => []

/-- The market part, if the event has one. -/
def meteredMarketPhase (runtime : SimulationRuntime σ) : EngineEvent → SimulationRuntime σ × List MetricCall
  | .market event => runtime.meteredMarketEvent event
  | _ => (runtime, [])

/-- An event up to its own metrics. -/
def handledEvent (runtime : SimulationRuntime σ) (input : MeteredInput) : SimulationRuntime σ × List MetricCall :=
  let market := runtime.meteredMarketPhase input.event
  let (coordinator, requests) := market.1.strategyCoordinator.onEvent input.event
    { marketStateStore := market.1.marketStateStore, clock := input.strategyClock }
  let handled := meteredRequests input 0 requests { market.1 with strategyCoordinator := coordinator }
  (handled.1, market.2 ++ handled.2)

def meteredEvent (runtime : SimulationRuntime σ) (input : MeteredInput) : SimulationRuntime σ × List MetricCall :=
  let (runtime, calls) := runtime.handledEvent input
  (runtime, calls ++ (eventCalls input.event ++
    [.observeLatency "runtime_event_latency_ms" (input.eventFinishedMs - input.eventStartedMs)]))

/-- The runtime with metrics, as a machine whose outputs are the calls of the collector. -/
def meteredMachine : Machine (SimulationRuntime σ) MeteredInput (List MetricCall) where
  step := meteredEvent

/-! ### The metrics change nothing -/

private theorem meteredMarketEvent_fst (runtime : SimulationRuntime σ) (event : MarketEvent) :
    (runtime.meteredMarketEvent event).1 = runtime.onMarketEvent event := by
  unfold meteredMarketEvent onMarketEvent
  dsimp only [meteredExecutionResult]
  split <;> rfl

private theorem meteredRequest_fst (runtime : SimulationRuntime σ) (input : MeteredInput) (k : Nat)
    (request : OrderRequest) :
    (runtime.meteredRequest input k request).1 = runtime.handleRequest (input.paused k) (input.now k) request := by
  unfold meteredRequest handleRequest
  dsimp only [meteredExecutionResult]
  split
  · rfl
  · split <;> rfl

private theorem meteredRequests_fst (input : MeteredInput) (k : Nat) (requests : List OrderRequest)
    (runtime : SimulationRuntime σ) :
    (meteredRequests input k requests runtime).1 = handleRequests input.toRuntimeInput k requests runtime := by
  induction requests generalizing k runtime with
  | nil => rfl
  | cons request requests ih => rw [meteredRequests, handleRequests, ih, meteredRequest_fst]

private theorem meteredMarketPhase_fst (runtime : SimulationRuntime σ) (event : EngineEvent) :
    (runtime.meteredMarketPhase event).1 = runtime.marketPhase event := by
  cases event with
  | market event => exact meteredMarketEvent_fst runtime event
  | timer => rfl
  | transaction => rfl

private theorem meteredEvent_fst (runtime : SimulationRuntime σ) (input : MeteredInput) :
    (runtime.meteredEvent input).1 = runtime.onEvent input.toRuntimeInput := by
  unfold meteredEvent handledEvent onEvent
  dsimp only
  rw [meteredRequests_fst, meteredMarketPhase_fst]

theorem meteredMachine_run (runtime : SimulationRuntime σ) (inputs : List MeteredInput) :
    meteredMachine.run runtime inputs = machine.run runtime (inputs.map MeteredInput.toRuntimeInput) := by
  induction inputs generalizing runtime with
  | nil => rfl
  | cons input inputs ih =>
    rw [List.map_cons, Machine.run_cons, Machine.run_cons, ih]
    exact congrArg (machine.run · _) (meteredEvent_fst runtime input)

/-! ### What the calls count -/

/-- The calls count what the counters of the runtime gain. -/
structure CountedBy (runtime : SimulationRuntime σ) (calls : List MetricCall) (runtime' : SimulationRuntime σ) :
    Prop where
  approved : (runtime'.riskApprovedCount : Int) = runtime.riskApprovedCount + total "orders_approved" calls
  rejected : (runtime'.riskRejectedCount : Int) = runtime.riskRejectedCount + total "risk_rejects" calls
  fills : (runtime'.appliedFillCount : Int) = runtime.appliedFillCount + total "fills_applied" calls

theorem CountedBy.trans {runtime runtime' runtime'' : SimulationRuntime σ} {calls calls' : List MetricCall}
    (h : CountedBy runtime calls runtime') (h' : CountedBy runtime' calls' runtime'') :
    CountedBy runtime (calls ++ calls') runtime'' where
  approved := by rw [h'.approved, h.approved, total_append, add_assoc]
  rejected := by rw [h'.rejected, h.rejected, total_append, add_assoc]
  fills := by rw [h'.fills, h.fills, total_append, add_assoc]

/-- The calls made of the collector while requests are handled: so many requests are counted, each as approved,
rejected or paused, so many latencies of requests are observed, and the event has yet to be counted. -/
structure CountsRequests (calls : List MetricCall) (counted observed : Nat) : Prop where
  counted : total "orders_approved" calls + total "risk_rejects" calls + total "orders_paused" calls = counted
  observed : (durations "order_processing_latency_ms" calls).length = observed
  markets : total "market_events" calls = 0
  transactions : total "transaction_events" calls = 0
  events : durations "runtime_event_latency_ms" calls = []

theorem CountsRequests.append {calls calls' : List MetricCall} {counted counted' observed observed' : Nat}
    (h : CountsRequests calls counted observed) (h' : CountsRequests calls' counted' observed') :
    CountsRequests (calls ++ calls') (counted + counted') (observed + observed') where
  counted := by
    have hcounted := h.counted
    have hcounted' := h'.counted
    simp only [total_append]
    omega
  observed := by rw [durations_append, List.length_append, h.observed, h'.observed]
  markets := by rw [total_append, h.markets, h'.markets, add_zero]
  transactions := by rw [total_append, h.transactions, h'.transactions, add_zero]
  events := by rw [durations_append, h.events, h'.events, List.append_nil]

/-- What fills add to a counter. -/
private theorem total_fills (fills : List FillEvent) (name : String) :
    total name (fills.map fun _ => MetricCall.increment "fills_applied" 1) =
      if "fills_applied" = name then (fills.length : Int) else 0 := by
  induction fills with
  | nil => simp
  | cons fill fills ih =>
    rw [List.map_cons, total_cons, ih, MetricCall.deltaOf, List.length_cons]
    split
    · simp [add_comm]
    · rfl

private theorem durations_fills (fills : List FillEvent) (name : String) :
    durations name (fills.map fun _ => MetricCall.increment "fills_applied" 1) = [] := by
  rw [durations, List.filterMap_map, List.filterMap_eq_nil_iff]
  intro fill _
  rfl

private theorem meteredExecutionResult_counts (runtime : SimulationRuntime σ) (result : ExecutionResult) :
    CountedBy runtime (runtime.meteredExecutionResult result).2 (runtime.meteredExecutionResult result).1 ∧
      CountsRequests (runtime.meteredExecutionResult result).2 0 0 := by
  have htotal := total_fills result.fills
  have hdurations := durations_fills result.fills
  constructor
  · refine ⟨?_, ?_, ?_⟩
    · exact (add_zero _).symm.trans (congrArg _ (htotal "orders_approved").symm)
    · exact (add_zero _).symm.trans (congrArg _ (htotal "risk_rejects").symm)
    · exact (Nat.cast_add _ _).trans (congrArg _ (htotal "fills_applied").symm)
  · refine ⟨?_, congrArg List.length (hdurations _), htotal "market_events", htotal "transaction_events",
      hdurations _⟩
    show total _ (result.fills.map _) + total _ (result.fills.map _) + total _ (result.fills.map _) = _
    rw [htotal, htotal, htotal]
    rfl

private theorem meteredMarketEvent_counts (runtime : SimulationRuntime σ) (event : MarketEvent) :
    CountedBy runtime (runtime.meteredMarketEvent event).2 (runtime.meteredMarketEvent event).1 ∧
      CountsRequests (runtime.meteredMarketEvent event).2 0 0 := by
  obtain ⟨hcounted, hrequests⟩ := meteredExecutionResult_counts { runtime with
    marketStateStore := runtime.marketStateStore.apply event
    marketStateCache := runtime.marketStateCache.map fun cache : InMemoryMarketStateCache =>
      cache.upsertSnapshot (marketSnapshot event)
    executionEngine := (runtime.executionEngine.processMarketEvent event).1 }
      (runtime.executionEngine.processMarketEvent event).2
  unfold meteredMarketEvent
  dsimp only
  split
  · exact ⟨⟨hcounted.approved, hcounted.rejected, hcounted.fills⟩, hrequests⟩
  · exact ⟨⟨hcounted.approved, hcounted.rejected, hcounted.fills⟩, hrequests⟩

private theorem meteredRequest_counts (runtime : SimulationRuntime σ) (input : MeteredInput) (k : Nat)
    (request : OrderRequest) :
    CountedBy runtime (runtime.meteredRequest input k request).2 (runtime.meteredRequest input k request).1 ∧
      CountsRequests (runtime.meteredRequest input k request).2 1 1 := by
  unfold meteredRequest
  dsimp only
  split
  · exact ⟨⟨(add_zero _).symm, (add_zero _).symm, (add_zero _).symm⟩, ⟨rfl, rfl, rfl, rfl, rfl⟩⟩
  · split
    · obtain ⟨hcounted, hrequests⟩ := meteredExecutionResult_counts (runtime.submitted request)
        (runtime.executionEngine.submit request).2
      have hfirst : CountedBy runtime [.increment "orders_approved" 1] (runtime.submitted request) :=
        ⟨Nat.cast_succ _, (add_zero _).symm, (add_zero _).symm⟩
      have hlast (runtime : SimulationRuntime σ) (durationMs : Int) :
          CountedBy runtime [.observeLatency "order_processing_latency_ms" durationMs] runtime :=
        ⟨(add_zero _).symm, (add_zero _).symm, (add_zero _).symm⟩
      have happroved : CountsRequests [.increment "orders_approved" 1] 1 0 := ⟨rfl, rfl, rfl, rfl, rfl⟩
      have hlatency (durationMs : Int) :
          CountsRequests [.observeLatency "order_processing_latency_ms" durationMs] 0 1 := ⟨rfl, rfl, rfl, rfl, rfl⟩
      exact ⟨hfirst.trans (hcounted.trans (hlast _ _)), happroved.append (hrequests.append (hlatency _))⟩
    · exact ⟨⟨(add_zero _).symm, Nat.cast_succ _, (add_zero _).symm⟩, ⟨rfl, rfl, rfl, rfl, rfl⟩⟩

private theorem meteredRequests_counts (input : MeteredInput) (k : Nat) (requests : List OrderRequest)
    (runtime : SimulationRuntime σ) :
    CountedBy runtime (meteredRequests input k requests runtime).2 (meteredRequests input k requests runtime).1 ∧
      CountsRequests (meteredRequests input k requests runtime).2 requests.length requests.length := by
  induction requests generalizing k runtime with
  | nil => exact ⟨⟨(add_zero _).symm, (add_zero _).symm, (add_zero _).symm⟩, ⟨rfl, rfl, rfl, rfl, rfl⟩⟩
  | cons request requests ih =>
    obtain ⟨hfirst, hcounts⟩ := meteredRequest_counts runtime input k request
    obtain ⟨hrest, hcounts'⟩ := ih (k + 1) (runtime.meteredRequest input k request).1
    refine ⟨hfirst.trans hrest, ?_⟩
    rw [List.length_cons, Nat.add_comm]
    exact hcounts.append hcounts'

/-- The requests that the strategies have emitted, as their counters have it. -/
def emittedRequests (coordinator : StrategyCoordinator σ) : Nat :=
  (coordinator.allStats.map StrategyRuntimeStats.emittedRequests).sum

private theorem slot_emittedRequests (slot : StrategySlot σ) (event : EngineEvent) (context : StrategyContext) :
    (slot.onEvent event context).1.stats.emittedRequests =
      slot.stats.emittedRequests + (slot.onEvent event context).2.length := by
  unfold StrategySlot.onEvent
  split
  · rfl
  · split <;> rfl

private theorem onEvent_emittedRequests (coordinator : StrategyCoordinator σ) (event : EngineEvent)
    (context : StrategyContext) :
    emittedRequests (coordinator.onEvent event context).1 =
      emittedRequests coordinator + (coordinator.onEvent event context).2.length := by
  obtain ⟨slots⟩ := coordinator
  unfold emittedRequests StrategyCoordinator.allStats StrategyCoordinator.onEvent
  dsimp only
  induction slots with
  | nil => rfl
  | cons slot slots ih =>
    simp only [List.map_cons, List.sum_cons, List.flatMap_cons, List.length_append, slot_emittedRequests] at ih ⊢
    omega

private theorem meteredMarketPhase_counts (runtime : SimulationRuntime σ) (event : EngineEvent) :
    CountedBy runtime (runtime.meteredMarketPhase event).2 (runtime.meteredMarketPhase event).1 ∧
      CountsRequests (runtime.meteredMarketPhase event).2 0 0 := by
  cases event with
  | market event => exact meteredMarketEvent_counts runtime event
  | timer => exact ⟨⟨(add_zero _).symm, (add_zero _).symm, (add_zero _).symm⟩, ⟨rfl, rfl, rfl, rfl, rfl⟩⟩
  | transaction => exact ⟨⟨(add_zero _).symm, (add_zero _).symm, (add_zero _).symm⟩, ⟨rfl, rfl, rfl, rfl, rfl⟩⟩

private theorem handledEvent_counts (runtime : SimulationRuntime σ) (input : MeteredInput) :
    CountedBy runtime (runtime.handledEvent input).2 (runtime.handledEvent input).1 ∧
      ∃ requests : Nat, CountsRequests (runtime.handledEvent input).2 requests requests ∧
        emittedRequests (runtime.handledEvent input).1.strategyCoordinator =
          emittedRequests runtime.strategyCoordinator + requests := by
  obtain ⟨hcounted, hcounts⟩ := meteredMarketPhase_counts runtime input.event
  have hcoordinator : (runtime.meteredMarketPhase input.event).1.strategyCoordinator = runtime.strategyCoordinator := by
    rw [meteredMarketPhase_fst]
    exact (marketPhase_frame runtime input.event).2.1
  unfold handledEvent
  dsimp only
  generalize runtime.meteredMarketPhase input.event = market at hcounted hcounts hcoordinator ⊢
  generalize hanswer : market.1.strategyCoordinator.onEvent input.event
    { marketStateStore := market.1.marketStateStore, clock := input.strategyClock } = answer
  obtain ⟨hcounted', hcounts'⟩ := meteredRequests_counts input 0 answer.2
    { market.1 with strategyCoordinator := answer.1 }
  have hemitted : emittedRequests answer.1 = emittedRequests runtime.strategyCoordinator + answer.2.length := by
    rw [← hanswer, onEvent_emittedRequests, hcoordinator]
  refine ⟨hcounted.trans ⟨hcounted'.approved, hcounted'.rejected, hcounted'.fills⟩, answer.2.length, ?_, ?_⟩
  · simpa only [Nat.zero_add] using hcounts.append hcounts'
  · rw [meteredRequests_fst, (handleRequests_frame _ _ _ _).2.1, hemitted]

/-! ### Over runs -/

def isMarketEvent : EngineEvent → Bool
  | .market _ => true
  | _ => false

def isTransactionEvent : EngineEvent → Bool
  | .transaction _ => true
  | _ => false

/-- The calls that a run from one runtime to another makes of the collector mirror what it does. -/
structure Mirrors (runtime : SimulationRuntime σ) (inputs : List MeteredInput) (calls : List MetricCall)
    (runtime' : SimulationRuntime σ) : Prop where
  counted : CountedBy runtime calls runtime'
  requests : emittedRequests runtime.strategyCoordinator + (total "orders_approved" calls +
    total "risk_rejects" calls + total "orders_paused" calls) = emittedRequests runtime'.strategyCoordinator
  observed : emittedRequests runtime.strategyCoordinator + (durations "order_processing_latency_ms" calls).length =
    emittedRequests runtime'.strategyCoordinator
  markets : total "market_events" calls = inputs.countP fun input => isMarketEvent input.event
  transactions : total "transaction_events" calls = inputs.countP fun input => isTransactionEvent input.event
  events : durations "runtime_event_latency_ms" calls =
    inputs.map fun input => input.eventFinishedMs - input.eventStartedMs

theorem Mirrors.trans {runtime runtime' runtime'' : SimulationRuntime σ} {inputs inputs' : List MeteredInput}
    {calls calls' : List MetricCall} (h : Mirrors runtime inputs calls runtime')
    (h' : Mirrors runtime' inputs' calls' runtime'') :
    Mirrors runtime (inputs ++ inputs') (calls ++ calls') runtime'' where
  counted := h.counted.trans h'.counted
  requests := by
    have hrequests := h.requests
    have hrequests' := h'.requests
    simp only [total_append]
    omega
  observed := by rw [durations_append, List.length_append, ← Nat.add_assoc, h.observed, h'.observed]
  markets := by rw [total_append, h.markets, h'.markets, List.countP_append, Nat.cast_add]
  transactions := by rw [total_append, h.transactions, h'.transactions, List.countP_append, Nat.cast_add]
  events := by rw [durations_append, h.events, h'.events, List.map_append]

/-- The event's own metrics count the event and nothing else. -/
private theorem eventCalls_mirrors (runtime : SimulationRuntime σ) (input : MeteredInput) :
    Mirrors runtime [input] (eventCalls input.event ++
      [.observeLatency "runtime_event_latency_ms" (input.eventFinishedMs - input.eventStartedMs)]) runtime := by
  obtain ⟨⟨event, strategyClock, now, paused⟩, eventStartedMs, eventFinishedMs, _, _⟩ := input
  cases event with
  | market => exact ⟨⟨(add_zero _).symm, (add_zero _).symm, (add_zero _).symm⟩, add_zero _, rfl, rfl, rfl, rfl⟩
  | timer => exact ⟨⟨(add_zero _).symm, (add_zero _).symm, (add_zero _).symm⟩, add_zero _, rfl, rfl, rfl, rfl⟩
  | transaction => exact ⟨⟨(add_zero _).symm, (add_zero _).symm, (add_zero _).symm⟩, add_zero _, rfl, rfl, rfl, rfl⟩

private theorem meteredEvent_mirrors (runtime : SimulationRuntime σ) (input : MeteredInput) :
    Mirrors runtime [input] (runtime.meteredEvent input).2 (runtime.meteredEvent input).1 := by
  obtain ⟨hcounted, requests, hcounts, hemitted⟩ := handledEvent_counts runtime input
  have hhandled : Mirrors runtime [] (runtime.handledEvent input).2 (runtime.handledEvent input).1 := by
    refine ⟨hcounted, ?_, ?_, hcounts.markets, hcounts.transactions, hcounts.events⟩
    · rw [hcounts.counted, hemitted, Nat.cast_add]
    · rw [hcounts.observed, hemitted]
  exact hhandled.trans (eventCalls_mirrors (runtime.handledEvent input).1 input)

private theorem meteredMachine_mirrors (runtime : SimulationRuntime σ) (inputs : List MeteredInput) :
    Mirrors runtime inputs (meteredMachine.outputs runtime inputs).flatten (meteredMachine.run runtime inputs) := by
  induction inputs generalizing runtime with
  | nil =>
    exact ⟨⟨(add_zero _).symm, (add_zero _).symm, (add_zero _).symm⟩, add_zero _, rfl, rfl, rfl, rfl⟩
  | cons input inputs ih => exact (meteredEvent_mirrors runtime input).trans (ih (runtime.meteredEvent input).1)

/-- Metrics change nothing that the runtime does, and over a run they mirror it: the counters of the collector are the
runtime's own counters and the numbers of events by kind, each request that a strategy emits is counted once, as
approved, rejected or paused, and its latency is observed once, and the latency of events is the summary of the
durations of all of them. -/
theorem collector_mirrors_runtime (riskConfig : RiskConfig) (config : SimulationRuntimeConfig σ)
    (inputs : List MeteredInput) :
    let start := fresh riskConfig config
    let finish := machine.run start (inputs.map MeteredInput.toRuntimeInput)
    let collector := record (meteredMachine.outputs start inputs).flatten
    meteredMachine.run start inputs = finish ∧
      collector.counter "orders_approved" = finish.riskApprovedCount ∧
      collector.counter "risk_rejects" = finish.riskRejectedCount ∧
      collector.counter "fills_applied" = finish.appliedFillCount ∧
      collector.counter "market_events" = (inputs.countP fun input => isMarketEvent input.event) ∧
      collector.counter "transaction_events" = (inputs.countP fun input => isTransactionEvent input.event) ∧
      emittedRequests config.strategyCoordinator + (collector.counter "orders_approved" +
        collector.counter "risk_rejects" + collector.counter "orders_paused") =
          emittedRequests finish.strategyCoordinator ∧
      emittedRequests config.strategyCoordinator + (collector.latency "order_processing_latency_ms").sampleCount =
        emittedRequests finish.strategyCoordinator ∧
      collector.latency "runtime_event_latency_ms" =
        summary (inputs.map fun input => input.eventFinishedMs - input.eventStartedMs) := by
  intro start finish collector
  have hrun : meteredMachine.run start inputs = finish := meteredMachine_run start inputs
  have hmirrors := meteredMachine_mirrors start inputs
  rw [hrun] at hmirrors
  have hcounter (name : String) : collector.counter name = total name (meteredMachine.outputs start inputs).flatten :=
    (record_calls _ name).1
  have hlatency (name : String) :
      collector.latency name = summary (durations name (meteredMachine.outputs start inputs).flatten) :=
    (record_calls _ name).2
  simp only [hcounter, hlatency]
  refine ⟨hrun, ?_, ?_, ?_, hmirrors.markets, hmirrors.transactions, hmirrors.requests, ?_, ?_⟩
  · exact (hmirrors.counted.approved.trans (zero_add _)).symm
  · exact (hmirrors.counted.rejected.trans (zero_add _)).symm
  · exact (hmirrors.counted.fills.trans (zero_add _)).symm
  · exact (Nat.cast_add _ _).symm.trans (congrArg Nat.cast hmirrors.observed)
  · rw [hmirrors.events]

end SimulationRuntime

end Wall
