import Wall.RiskEngine

/-!
# Strategies and their coordinator

`strategy/strategy_coordinator.cpp`.  A strategy is an arbitrary state machine that reads the event and the context
and emits requests or throws; strategies of different kinds share the state type `σ`, which may be a sum of theirs.
-/

namespace Wall

/-- What a strategy may read: the market, and a clock whose successive readings `clock` gives. -/
structure StrategyContext where
  marketStateStore : MarketStateStore
  clock : Nat → Int

/-- A strategy: its next state, and the requests it emits or `none` if it throws. -/
structure Strategy (σ : Type*) where
  strategyId : String
  onEvent : σ → EngineEvent → StrategyContext → σ × Option (List OrderRequest)

structure StrategyRuntimeStats where
  strategyId : String := ""
  handledEvents : Nat := 0
  emittedRequests : Nat := 0
  failures : Nat := 0
  paused : Bool := false
  deriving DecidableEq, Inhabited, Repr

structure StrategySlot (σ : Type*) where
  strategy : Strategy σ
  state : σ
  stats : StrategyRuntimeStats

structure StrategyCoordinator (σ : Type*) where
  strategies : List (StrategySlot σ) := []

variable {σ : Type*}

/-- One slot's part of `on_event`: a paused strategy is skipped, one that throws is paused. -/
def StrategySlot.onEvent (slot : StrategySlot σ) (event : EngineEvent) (context : StrategyContext) :
    StrategySlot σ × List OrderRequest :=
  if slot.stats.paused then (slot, [])
  else
    match slot.strategy.onEvent slot.state event context with
    | (state, some requests) =>
      ({ slot with
          state := state
          stats := { slot.stats with
            handledEvents := slot.stats.handledEvents + 1
            emittedRequests := slot.stats.emittedRequests + requests.length } }, requests)
    | (state, none) =>
      ({ slot with
          state := state
          stats := { slot.stats with
            handledEvents := slot.stats.handledEvents + 1
            failures := slot.stats.failures + 1
            paused := true } }, [])

namespace StrategyCoordinator

def addStrategy (coordinator : StrategyCoordinator σ) (strategy : Strategy σ) (state : σ) : StrategyCoordinator σ where
  strategies := coordinator.strategies ++
    [{ strategy := strategy, state := state, stats := { strategyId := strategy.strategyId } }]

/-- Run the slots in order and merge their requests. -/
def onEvent (coordinator : StrategyCoordinator σ) (event : EngineEvent) (context : StrategyContext) :
    StrategyCoordinator σ × List OrderRequest :=
  let results := coordinator.strategies.map fun slot => slot.onEvent event context
  ({ strategies := results.map Prod.fst }, results.flatMap Prod.snd)

end StrategyCoordinator

end Wall
