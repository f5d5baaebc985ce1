import Wall.Strategy

/-!
# The strategies of the program

`strategy/sample_threshold_strategy.cpp` and `strategy/spread_capture_strategy.cpp`.  Both emit one request and then
wait for a `reset_strategy` command, so they share the type of their states.  Neither reads the clock
(`Strategy.IgnoresClock`), so what they emit is decided by the events.
-/

namespace Wall

/-- What both strategies remember: whether they have emitted, and the number of the next request. -/
structure SignalState where
  hasEmittedSignal : Bool := false
  nextRequestId : Nat := 1
  deriving DecidableEq, Inhabited, Repr

def SignalState.requestId (state : SignalState) (strategyId : String) : String :=
  strategyId ++ "-request-" ++ toString state.nextRequestId

/-- The state after a request. -/
def SignalState.emitted (state : SignalState) : SignalState where
  hasEmittedSignal := true
  nextRequestId := state.nextRequestId + 1

/-- The `reset_strategy` command. -/
def SignalState.onCommand (state : SignalState) (command : TransactionCommand) : SignalState :=
  if command.commandType = "reset_strategy" then { state with hasEmittedSignal := false } else state

structure SampleThresholdStrategyConfig where
  strategyId : String := ""
  instrumentId : String := ""
  instrument : Instrument := {}
  triggerPrice : ℚ := 0
  orderQuantity : ℚ := 0
  side : OrderSide := .buy
  deriving DecidableEq, Inhabited, Repr

namespace SampleThresholdStrategyConfig

def shouldEmitForTradePrice (config : SampleThresholdStrategyConfig) (state : SignalState) (tradePrice : ℚ) : Bool :=
  if state.hasEmittedSignal then false
  else
    match config.side with
    | .buy => decide (tradePrice ≤ config.triggerPrice)
    | .sell => decide (tradePrice ≥ config.triggerPrice)

def buildOrderRequest (config : SampleThresholdStrategyConfig) (state : SignalState) (instrument : Instrument)
    (tradePrice : ℚ) : OrderRequest where
  requestId := state.requestId config.strategyId
  strategyId := config.strategyId
  instrument :=
    if config.instrument.instrumentId = ""
        ∨ (config.instrument.baseAsset = "" ∧ config.instrument.quoteAsset = "") then instrument
    else config.instrument
  side := config.side
  type := .limit
  quantity := config.orderQuantity
  price := some tradePrice

/-- `SampleThresholdStrategy`. -/
def strategy (config : SampleThresholdStrategyConfig) : Strategy SignalState where
  strategyId := config.strategyId
  onEvent state event context :=
    match event with
    | .market event =>
      if event.instrument.instrumentId ≠ config.instrumentId ∨ event.price ≤ 0 then (state, some [])
      else if (context.marketStateStore.get config.instrumentId).isNone then (state, some [])
      else if config.shouldEmitForTradePrice state event.price then
        (state.emitted, some [config.buildOrderRequest state event.instrument event.price])
      else (state, some [])
    | .transaction command => (state.onCommand command, some [])
    | .timer _ => (state, some [])

end SampleThresholdStrategyConfig

structure SpreadCaptureStrategyConfig where
  strategyId : String := ""
  instrument : Instrument := {}
  minSpread : ℚ := 0
  orderQuantity : ℚ := 0
  side : OrderSide := .buy
  deriving DecidableEq, Inhabited, Repr

namespace SpreadCaptureStrategyConfig

def buildOrderRequest (config : SpreadCaptureStrategyConfig) (state : SignalState) (price : ℚ) : OrderRequest where
  requestId := state.requestId config.strategyId
  strategyId := config.strategyId
  instrument := config.instrument
  side := config.side
  type := .limit
  quantity := config.orderQuantity
  price := some price

/-- `SpreadCaptureStrategy`. -/
def strategy (config : SpreadCaptureStrategyConfig) : Strategy SignalState where
  strategyId := config.strategyId
  onEvent state event context :=
    match event with
    | .market event =>
      if state.hasEmittedSignal ∨ event.instrument.instrumentId ≠ config.instrument.instrumentId then (state, some [])
      else
        match context.marketStateStore.get config.instrument.instrumentId with
        | none => (state, some [])
        | some marketState =>
          match marketState.bestBid, marketState.bestAsk with
          | some bestBid, some bestAsk =>
            if bestAsk - bestBid < config.minSpread then (state, some [])
            else
              let price := match config.side with
                | .buy => bestBid
                | .sell => bestAsk
              (state.emitted, some [config.buildOrderRequest state price])
          | _, _ => (state, some [])
    | .transaction command => (state.onCommand command, some [])
    | .timer _ => (state, some [])

end SpreadCaptureStrategyConfig

/-! ### Strategies that do not read the clock -/

variable {σ : Type*}

/-- The strategy does the same at every clock. -/
def Strategy.IgnoresClock (strategy : Strategy σ) : Prop :=
  ∀ state event store clock clock',
    strategy.onEvent state event { marketStateStore := store, clock := clock } =
      strategy.onEvent state event { marketStateStore := store, clock := clock' }

theorem SampleThresholdStrategyConfig.strategy_ignoresClock (config : SampleThresholdStrategyConfig) :
    config.strategy.IgnoresClock := fun _ _ _ _ _ => rfl

/-- All strategies of the coordinator do the same at every clock. -/
def StrategyCoordinator.IgnoresClock (coordinator : StrategyCoordinator σ) : Prop :=
  ∀ slot ∈ coordinator.strategies, slot.strategy.IgnoresClock

private theorem StrategySlot.onEvent_strategy (slot : StrategySlot σ) (event : EngineEvent)
    (context : StrategyContext) : (slot.onEvent event context).1.strategy = slot.strategy := by
  unfold StrategySlot.onEvent
  split
  · rfl
  · split <;> rfl

namespace StrategyCoordinator.IgnoresClock

variable {coordinator : StrategyCoordinator σ} (h : coordinator.IgnoresClock) (event : EngineEvent)
include h

theorem onEvent_eq (store : MarketStateStore) (clock clock' : Nat → Int) :
    coordinator.onEvent event { marketStateStore := store, clock := clock } =
      coordinator.onEvent event { marketStateStore := store, clock := clock' } := by
  have hslots : coordinator.strategies.map (fun slot => slot.onEvent event ⟨store, clock⟩) =
      coordinator.strategies.map fun slot => slot.onEvent event ⟨store, clock'⟩ := by
    refine List.map_congr_left fun slot hslot => ?_
    unfold StrategySlot.onEvent
    rw [h slot hslot slot.state event store clock clock']
  unfold StrategyCoordinator.onEvent
  rw [hslots]

theorem onEvent (context : StrategyContext) : (coordinator.onEvent event context).1.IgnoresClock := by
  intro slot hslot
  simp only [StrategyCoordinator.onEvent, List.map_map, List.mem_map, Function.comp_apply] at hslot
  obtain ⟨slot', hslot', rfl⟩ := hslot
  rw [StrategySlot.onEvent_strategy]
  exact h slot' hslot'

end StrategyCoordinator.IgnoresClock

end Wall
