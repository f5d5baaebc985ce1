import Wall.CoreRuns

/-!
# Positions and the orders behind them

The portfolio knows only fills, the engine only its records.  A market event fills every order that it executes, so
records and positions move together.  `submit` fills the new order alone, while the makers' records move against
it: positions follow the orders as long as no request matches an order that rests in the engine's own book.
-/

namespace Wall

/-- The net quantity of every instrument is the signed filled quantity of its tracked orders, up to the tolerance for
each of them that is filled. -/
def PositionsFollowOrders (portfolio : PortfolioService) (engine : MatchingEngine) : Prop :=
  ∀ i, |portfolio.netOf i - signedFilled i engine.orders| ≤ kQuantityTolerance * filledCount i engine.orders

namespace TradingCore

/-- Without local matches only market events return fills. -/
private theorem fills_eq_marketFills {core : TradingCore} (hs : core.engine.Steady) {op : TradingOp}
    (hop : core.NoLocalMatch op) : (MatchingEngine.machine.step core.engine op.engineOp).2.fills =
      core.engine.marketFillsOf op.engineOp := by
  cases op with
  | market event => rfl
  | submit request => exact MatchingEngine.submit_fills_of_not_matches hs hop

/-- A call that does not match locally moves positions and records alike. -/
private theorem positionsFollow_step {core : TradingCore} (hs : core.engine.Steady) {op : TradingOp}
    (hop : core.NoLocalMatch op) (h : PositionsFollowOrders core.portfolio core.engine) :
    PositionsFollowOrders (core.step op).portfolio (core.step op).engine := by
  intro i
  have hrestore := isRestore_engineOp op
  have hdrift := hs.sync.drift_step (hs.fresh hrestore) hrestore i
  have hnet := core.netOf_step op i
  rw [fills_eq_marketFills hs hop] at hnet
  rw [step_engine, hnet]
  have hi := h i
  unfold Drift at hdrift
  rw [abs_le] at hdrift hi ⊢
  constructor <;> linarith [hdrift.1, hdrift.2, hi.1, hi.2]

end TradingCore

private theorem positionsFollow_empty : PositionsFollowOrders {} {} := by
  intro i
  have hnet : ({} : PortfolioService).netOf i = 0 := rfl
  have hfilled : signedFilled i ({} : MatchingEngine).orders = 0 := KeyedMap.sumOver_empty _
  have hcount : filledCount i ({} : MatchingEngine).orders = 0 := KeyedMap.sumOver_empty _
  rw [hnet, hfilled, hcount]
  simp

namespace SimulationRuntime

/-- In a run from a fresh runtime in which no approved request matches an order that rests in the engine when it is
submitted, positions follow the orders after every event. -/
theorem positions_follow_orders {σ : Type*} (riskConfig : RiskConfig) (config : SimulationRuntimeConfig σ)
    (inputs : List RuntimeInput)
    (h : machine.Admissible (fun runtime input => runtime.CallsSatisfy TradingCore.NoLocalMatch input)
      (fresh riskConfig config) inputs) :
    ∀ pre, pre <+: inputs →
      let runtime := machine.run (fresh riskConfig config) pre
      PositionsFollowOrders runtime.portfolioService runtime.executionEngine := by
  intro pre hpre
  exact invariant_from_fresh (P := fun core => PositionsFollowOrders core.portfolio core.engine)
    (fun core op hs hok hm => TradingCore.positionsFollow_step hs hok hm) h positionsFollow_empty hpre

theorem positions_follow_orders_exampleRun :
    let inputs := [exampleInput [], exampleInput [⟨100, 1⟩]]
    let runtime := machine.run (exampleRuntime 10 [MatchingEngine.exampleRequest .buy 1 100]) inputs
    PositionsFollowOrders runtime.portfolioService runtime.executionEngine :=
  positions_follow_orders _ _ _ (by decide +kernel) _ (List.prefix_refl _)

/-- A sell order and a buy order that takes it, emitted at one event: the position grows by the buy fill alone. -/
theorem positions_miss_matched_sell :
    let runtime := machine.run (exampleRuntime 10 [MatchingEngine.exampleRequest .sell 1 100,
      MatchingEngine.exampleRequest .buy 1 100]) [exampleInput []]
    ¬ PositionsFollowOrders runtime.portfolioService runtime.executionEngine := by
  intro runtime hfollow
  have hnet : runtime.portfolioService.netOf "btc-usdt" = 1 := by decide +kernel
  have hfilled : signedFilled "btc-usdt" runtime.executionEngine.orders = 0 := by decide +kernel
  have hcount : filledCount "btc-usdt" runtime.executionEngine.orders = 2 := by decide +kernel
  have hi := hfollow "btc-usdt"
  rw [hnet, hfilled, hcount, kQuantityTolerance] at hi
  norm_num at hi

end SimulationRuntime

end Wall
