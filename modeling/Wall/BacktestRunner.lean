import Wall.FillAudit
import Wall.Replay
import Wall.StrategyIsolation

/-!
# Backtests

`app/backtest_runner.cpp`: the events of a log are replayed through a runtime, whose counters and results are summed
up.  The portfolio has seen the fills of the run and the prices of the log (`portfolioCalls`), so the result of a
backtest from a fresh runtime is what its trades have earned: the instruments that were traded, each at the last price
that the log has for it, less what was paid for them.
-/

namespace Wall

open KeyedMap PortfolioService

/-- What the handler of one event reads besides it. -/
structure Readings where
  strategyClock : Nat → Int
  now : Nat → Int
  paused : Nat → Bool

/-- The event, at these readings. -/
def Readings.input (readings : Readings) (event : EngineEvent) : RuntimeInput where
  event := event
  strategyClock := readings.strategyClock
  now := readings.now
  paused := readings.paused

/-- The events one after another, the event number `n` at the readings number `n`. -/
def readAt (readings : Nat → Readings) (events : List EngineEvent) : List RuntimeInput :=
  events.zipIdx.map fun entry => (readings entry.2).input entry.1

structure BacktestSummary where
  replayStats : ReplayStats := {}
  riskApproved : Nat := 0
  riskRejected : Nat := 0
  fillsApplied : Nat := 0
  resultingPositions : Nat := 0
  configuredStrategies : Nat := 0
  activeStrategies : Nat := 0
  pausedStrategies : Nat := 0
  strategyFailures : Nat := 0
  totalRealizedPnl : ℚ := 0
  totalUnrealizedPnl : ℚ := 0
  strategyStats : List StrategyRuntimeStats := []

variable {σ : Type*}

namespace StrategyCoordinator

def strategyCount (coordinator : StrategyCoordinator σ) : Nat := coordinator.strategies.length

def activeStrategyCount (coordinator : StrategyCoordinator σ) : Nat :=
  coordinator.strategies.countP fun slot => !slot.stats.paused

end StrategyCoordinator

/-- The summary of a runtime that a log has been replayed through. -/
def backtestSummary (stats : ReplayStats) (runtime : SimulationRuntime σ) : BacktestSummary :=
  let positions := runtime.portfolioService.allPositions
  let strategyStats := runtime.strategyCoordinator.allStats
  { replayStats := stats
    riskApproved := runtime.riskApprovedCount
    riskRejected := runtime.riskRejectedCount
    fillsApplied := runtime.appliedFillCount
    resultingPositions := positions.length
    configuredStrategies := runtime.strategyCoordinator.strategyCount
    activeStrategies := runtime.strategyCoordinator.activeStrategyCount
    pausedStrategies := strategyStats.countP StrategyRuntimeStats.paused
    strategyFailures := (strategyStats.map StrategyRuntimeStats.failures).sum
    totalRealizedPnl := (positions.map Position.realizedPnl).sum
    totalUnrealizedPnl := (positions.map Position.unrealizedPnl).sum
    strategyStats := strategyStats }

/-- `BacktestRunner::run` on a log with this text. -/
def runBacktest (service : ReplayService) (log : Option String) (readings : Nat → Readings)
    (runtime : SimulationRuntime σ) : SimulationRuntime σ × BacktestSummary :=
  let replayed := service.replay log
  let runtime := SimulationRuntime.machine.run runtime (readAt readings replayed.1)
  (runtime, backtestSummary replayed.2 runtime)

/-! ### What the portfolio sees of a run -/

namespace TradingCore

/-- The mark that a call sets. -/
def markOf : TradingOp → Option PortfolioCall
  | .market event => if event.price > 0 then some (.setMarkPrice event.instrument.instrumentId event.price) else none
  | .submit _ => none

/-- The calls that the portfolio gets in a run: the fills of each call, then its mark. -/
def portfolioCalls : TradingCore → List TradingOp → List PortfolioCall
  | _, [] => []
  | core, op :: ops =>
    (MatchingEngine.machine.step core.engine op.engineOp).2.fills.map .applyFill ++ (markOf op).toList ++
      portfolioCalls (core.step op) ops

private theorem run_applyFills (portfolio : PortfolioService) (fills : List FillEvent) :
    PortfolioService.machine.run portfolio (fills.map .applyFill) = fills.foldl applyFill portfolio := by
  induction fills generalizing portfolio with
  | nil => rfl
  | cons fill fills ih => exact ih (portfolio.applyFill fill)

private theorem portfolio_step (core : TradingCore) (op : TradingOp) : (core.step op).portfolio =
    PortfolioService.machine.run core.portfolio
      ((MatchingEngine.machine.step core.engine op.engineOp).2.fills.map .applyFill ++ (markOf op).toList) := by
  rw [Machine.run_append, run_applyFills]
  cases op with
  | market event =>
    show (core.onMarket event).portfolio = _
    unfold onMarket markOf
    dsimp only
    split <;> rfl
  | submit request => rfl

private theorem portfolio_run (core : TradingCore) (ops : List TradingOp) :
    (machine.run core ops).portfolio = PortfolioService.machine.run core.portfolio (core.portfolioCalls ops) := by
  induction ops generalizing core with
  | nil => rfl
  | cons op ops ih =>
    rw [portfolioCalls, Machine.run_append, ← portfolio_step]
    exact ih (core.step op)

private theorem fillsOf_portfolioCalls (core : TradingCore) (ops : List TradingOp) :
    fillsOf (core.portfolioCalls ops) = core.fills ops := by
  induction ops generalizing core with
  | nil => rfl
  | cons op ops ih =>
    have hfills (fills : List FillEvent) : fillsOf (fills.map .applyFill) = fills := by
      simp [fillsOf, List.filterMap_map]
    have hmark : fillsOf (markOf op).toList = [] := by
      cases op with
      | market event =>
        by_cases hprice : event.price > 0 <;> simp [markOf, hprice, fillsOf]
      | submit request => rfl
    rw [portfolioCalls, fills, ← ih]
    conv_lhs => rw [fillsOf, List.filterMap_append, List.filterMap_append]
    rw [← fillsOf, ← fillsOf, ← fillsOf, hfills, hmark, List.append_nil]

private theorem filterMap_markOf_submitOps (riskConfig : RiskConfig) (store : MarketStateStore) (input : RuntimeInput)
    (k : Nat) (requests : List OrderRequest) :
    (SimulationRuntime.submitOps riskConfig store input k requests).filterMap markOf = [] := by
  induction requests generalizing k with
  | nil => rfl
  | cons request requests ih =>
    rw [SimulationRuntime.submitOps, List.filterMap_append, ih, List.append_nil]
    split <;> rfl

/-- The last mark of the calls is the last mark that an operation sets. -/
private theorem lastMark_portfolioCalls (i : String) (core : TradingCore) (ops : List TradingOp) :
    lastMark i (core.portfolioCalls ops) = lastMark i (ops.filterMap markOf) := by
  have hfills (fills : List FillEvent) (calls : List PortfolioCall) :
      lastMark i (fills.map .applyFill ++ calls) = lastMark i calls := by
    unfold lastMark
    rw [List.filterMap_append, List.filterMap_map]
    congr 1
    simp
  have hcongr (mark : List PortfolioCall) {calls calls' : List PortfolioCall}
      (h : lastMark i calls = lastMark i calls') : lastMark i (mark ++ calls) = lastMark i (mark ++ calls') := by
    unfold lastMark at h ⊢
    rw [List.filterMap_append, List.filterMap_append, List.getLast?_append, List.getLast?_append, h]
  induction ops generalizing core with
  | nil => rfl
  | cons op ops ih =>
    rw [portfolioCalls, List.append_assoc, hfills, hcongr _ (ih (core.step op)), List.filterMap_cons]
    cases markOf op <;> rfl

end TradingCore

/-- The last positive price that the events have for an instrument. -/
def lastPrice (i : String) (events : List EngineEvent) : Option ℚ :=
  (events.filterMap fun
    | .market event => if event.instrument.instrumentId = i ∧ event.price > 0 then some event.price else none
    | _ => none).getLast?

namespace SimulationRuntime

private theorem filterMap_markOf_callsOf (runtime : SimulationRuntime σ) (inputs : List RuntimeInput) :
    (runtime.callsOf inputs).filterMap TradingCore.markOf =
      ((inputs.map RuntimeInput.event).flatMap marketOps).filterMap TradingCore.markOf := by
  induction inputs generalizing runtime with
  | nil => rfl
  | cons input inputs ih =>
    rw [callsOf, List.filterMap_append, ih, tradingOps, List.filterMap_append,
      TradingCore.filterMap_markOf_submitOps, List.append_nil, List.map_cons, List.flatMap_cons, List.filterMap_append]

private theorem lastMark_marketOps (i : String) (events : List EngineEvent) :
    lastMark i ((events.flatMap marketOps).filterMap TradingCore.markOf) = lastPrice i events := by
  unfold lastMark lastPrice
  congr 1
  induction events with
  | nil => rfl
  | cons event events ih =>
    rw [List.flatMap_cons, List.filterMap_append, List.filterMap_append, ih]
    cases event with
    | market event =>
      by_cases hprice : event.price > 0
      · by_cases hi : event.instrument.instrumentId = i <;> simp [marketOps, TradingCore.markOf, hprice, hi]
      · simp [marketOps, TradingCore.markOf, hprice]
    | timer => rfl
    | transaction => rfl

/-- The portfolio of a run from a fresh runtime has the accounts of the fills that were logged, as many as were counted,
and of the prices of the events. -/
private theorem fresh_run_accounts (riskConfig : RiskConfig) (config : SimulationRuntimeConfig σ)
    (inputs : List RuntimeInput) :
    let runtime := machine.run (fresh riskConfig { config with fillRepository := some {} }) inputs
    ∃ fills calls, runtime.fillRepository = some ⟨fills⟩ ∧ runtime.appliedFillCount = fills.length ∧
      Accounts calls runtime.portfolioService ∧ fillsOf calls = fills ∧
      ∀ i, lastMark i calls = lastPrice i (inputs.map RuntimeInput.event) := by
  intro runtime
  let start : SimulationRuntime σ := fresh riskConfig { config with fillRepository := some {} }
  have hportfolio : runtime.portfolioService =
      PortfolioService.machine.run {} (start.core.portfolioCalls (start.callsOf inputs)) := by
    show runtime.core.portfolio = _
    rw [run_core, TradingCore.portfolio_run]
    rfl
  have hfills : runtime.fillRepository = some ⟨[] ++ start.core.fills (start.callsOf inputs)⟩ :=
    run_appends start inputs {} rfl
  have haudited : runtime.Audited := by
    have hfresh : start.Audited := ⟨{}, rfl, ⟨fun _ => rfl, rfl⟩, rfl⟩
    exact Machine.invariant_of_step (P := Audited) (fun _ input h => h.onEvent input) hfresh inputs
  obtain ⟨repository, hrepository, -, hcount⟩ := haudited
  rw [hfills, Option.some.injEq] at hrepository
  refine ⟨_, _, hfills, ?_, ?_, TradingCore.fillsOf_portfolioCalls _ _, fun i => ?_⟩
  · rw [hcount, ← hrepository]
  · rw [hportfolio]
    exact machine_run_accounts _
  · rw [TradingCore.lastMark_portfolioCalls, filterMap_markOf_callsOf, lastMark_marketOps]

/-- A slot has failed once if it is paused, and never if it is not. -/
def FailsOnce (slot : StrategySlot σ) : Prop := slot.stats.failures = if slot.stats.paused then 1 else 0

private theorem failsOnce_onEvent {slot : StrategySlot σ} (h : FailsOnce slot) (event : EngineEvent)
    (context : StrategyContext) : FailsOnce (slot.onEvent event context).1 := by
  unfold FailsOnce StrategySlot.onEvent at *
  by_cases hpaused : slot.stats.paused = true
  · rw [if_pos hpaused]
    exact h
  · rw [if_neg hpaused] at h ⊢
    split
    · dsimp only
      rw [if_neg hpaused]
      exact h
    · exact congrArg (· + 1) h

/-- The strategies that the runtime was made with, of which those that are paused have failed, once each. -/
def FailsSafely (count : Nat) (runtime : SimulationRuntime σ) : Prop :=
  runtime.strategyCoordinator.strategies.length = count ∧
    ∀ slot ∈ runtime.strategyCoordinator.strategies, FailsOnce slot

private theorem failsSafely_run {count : Nat} {runtime : SimulationRuntime σ} (h : FailsSafely count runtime)
    (inputs : List RuntimeInput) : FailsSafely count (machine.run runtime inputs) := by
  refine Machine.invariant_of_step ?_ h inputs
  rintro runtime input ⟨hlength, hslots⟩
  show FailsSafely count (runtime.onEvent input)
  unfold FailsSafely
  rw [(onEvent_frame runtime input).2.1]
  unfold StrategyCoordinator.onEvent
  dsimp only
  rw [List.length_map, List.length_map, List.map_map]
  refine ⟨hlength, fun slot hslot => ?_⟩
  obtain ⟨before, hbefore, rfl⟩ := List.mem_map.1 hslot
  exact failsOnce_onEvent (hslots before hbefore) _ _

private theorem sum_failures {slots : List (StrategySlot σ)} (h : ∀ slot ∈ slots, FailsOnce slot) :
    ((slots.map StrategySlot.stats).map StrategyRuntimeStats.failures).sum =
      (slots.map StrategySlot.stats).countP StrategyRuntimeStats.paused := by
  induction slots with
  | nil => rfl
  | cons slot slots ih =>
    obtain ⟨hslot, hslots⟩ := List.forall_mem_cons.1 h
    rw [List.map_cons, List.map_cons, List.sum_cons, ih hslots, List.countP_cons, hslot, Nat.add_comm]

end SimulationRuntime

/-! ### The log -/

private theorem replay_counts (service : ReplayService) (log : Option String) :
    (service.replay log).2.replayedRecords = (service.replay log).1.length ∧
      (service.replay log).2.totalRecords =
        (service.replay log).2.replayedRecords + (service.replay log).2.skippedRecords := by
  cases log with
  | none => exact ⟨rfl, rfl⟩
  | some text =>
    suffices h : ∀ (lines : List String) (replayed : List EngineEvent × ReplayStats),
        replayed.2.replayedRecords = replayed.1.length →
        replayed.2.totalRecords = replayed.2.replayedRecords + replayed.2.skippedRecords →
        (lines.foldl service.replayLine replayed).2.replayedRecords =
          (lines.foldl service.replayLine replayed).1.length ∧
        (lines.foldl service.replayLine replayed).2.totalRecords =
          (lines.foldl service.replayLine replayed).2.replayedRecords +
            (lines.foldl service.replayLine replayed).2.skippedRecords from h _ ([], {}) rfl rfl
    intro lines
    induction lines with
    | nil => exact fun replayed hreplayed htotal => ⟨hreplayed, htotal⟩
    | cons line lines ih =>
      intro replayed hreplayed htotal
      refine ih (service.replayLine replayed line) ?_ ?_
      · unfold ReplayService.replayLine
        dsimp only
        split
        · rw [List.length_append, List.length_singleton, hreplayed]
        · exact hreplayed
      · unfold ReplayService.replayLine
        dsimp only
        split
        · dsimp only
          omega
        · dsimp only
          omega

private theorem map_event_readAt (readings : Nat → Readings) (events : List EngineEvent) :
    (readAt readings events).map RuntimeInput.event = events := by
  rw [readAt, List.map_map]
  exact List.zipIdx_map_fst 0 events

/-! ### The summary -/

/-- The instruments of fills. -/
def traded (fills : List FillEvent) : Finset String := (fills.map fun fill => fill.instrument.instrumentId).toFinset

/-- What trades have earned at these prices: the value of what they have left less what was paid for it. -/
def earned (fills : List FillEvent) (price : String → ℚ) : ℚ :=
  ∑ i ∈ traded fills, signedFills i fills * price i - (fills.map fun f => f.side.signed f.quantity * f.price).sum

/-- The positions of a portfolio with these accounts. -/
private theorem accounts_summed {calls : List PortfolioCall} {portfolio : PortfolioService}
    (h : Accounts calls portfolio) :
    (portfolio.allPositions.map Position.realizedPnl).sum + (portfolio.allPositions.map Position.unrealizedPnl).sum =
        earned (fillsOf calls) (fun i => valuation i calls) ∧
      portfolio.allPositions.length = (traded (fillsOf calls)).card := by
  have hkeys : ∀ i, i ∈ traded (fillsOf calls) ↔ ∃ p, portfolio.positions[i]? = some p := by
    intro i
    rw [h.opened i, traded, List.mem_toFinset, List.mem_map]
  have hall {M : Type} [AddCommMonoid M] (f : Position → M) :
      (portfolio.allPositions.map f).sum = sumOver f portfolio.positions := by
    rw [allPositions, List.map_map]
    rfl
  constructor
  · have hvalue : sumOver (fun p : Position => p.realizedPnl + p.unrealizedPnl + cost p) portfolio.positions =
        ∑ i ∈ traded (fillsOf calls), signedFills i (fillsOf calls) * valuation i calls := by
      refine sumOver_eq_sum hkeys fun i p hp => ?_
      have hok := h.position i p hp
      rw [← hok.net_eq, hok.unrealized_eq, cost]
      ring
    rw [sumOver_add, sumOver_add, h.cost_eq] at hvalue
    rw [hall, hall, earned]
    linarith
  · have hone := sumOver_eq_sum hkeys (f := fun _ : Position => 1) (g := fun _ => 1) fun _ _ _ => rfl
    rw [← hall, List.map_const', List.sum_replicate] at hone
    simpa using hone

/-- A backtest through a fresh runtime.  The lines of the log are replayed or skipped; the fills that the summary
counts are the ones in the fill log, on as many instruments as there are positions; the strategies are active or
paused, and those that are paused have failed once each.  The realized and the unrealized result add up to what the
trades have earned: each instrument that was traded at the last positive price that the log has for it, or at the
price of its last trade if the log has none, less what was paid. -/
theorem backtest_result (service : ReplayService) (log : Option String) (readings : Nat → Readings)
    (riskConfig : RiskConfig) (config : SimulationRuntimeConfig σ) (members : List (Strategy σ × σ)) :
    let start := SimulationRuntime.fresh riskConfig
      { config with strategyCoordinator := .ofStrategies members, fillRepository := some {} }
    let result := runBacktest service log readings start
    let events := (service.replay log).1
    ∃ fills, result.1.fillRepository = some ⟨fills⟩ ∧
      result.2.totalRealizedPnl + result.2.totalUnrealizedPnl =
        earned fills (fun i => (lastPrice i events).getD ((lastFillPrice i fills).getD 0)) ∧
      result.2.fillsApplied = fills.length ∧ result.2.resultingPositions = (traded fills).card ∧
      result.2.replayStats.replayedRecords = events.length ∧
      result.2.replayStats.totalRecords = events.length + result.2.replayStats.skippedRecords ∧
      result.2.configuredStrategies = members.length ∧
      result.2.activeStrategies + result.2.pausedStrategies = members.length ∧
      result.2.strategyFailures = result.2.pausedStrategies := by
  intro start result events
  obtain ⟨fills, calls, hfills, hcount, haccounts, hof, hmarks⟩ := SimulationRuntime.fresh_run_accounts riskConfig
    { config with strategyCoordinator := .ofStrategies members } (readAt readings events)
  rw [map_event_readAt] at hmarks
  obtain ⟨hpnl, hpositions⟩ := accounts_summed haccounts
  obtain ⟨hreplayed, htotal⟩ := replay_counts service log
  have hstart : start.FailsSafely members.length := by
    unfold SimulationRuntime.FailsSafely
    show (StrategyCoordinator.ofStrategies members).strategies.length = _ ∧
      ∀ slot ∈ (StrategyCoordinator.ofStrategies members).strategies, SimulationRuntime.FailsOnce slot
    rw [StrategyCoordinator.strategies_ofStrategies, List.length_map]
    exact ⟨rfl, List.forall_mem_map.2 fun member _ => rfl⟩
  obtain ⟨hlength, hslots⟩ := SimulationRuntime.failsSafely_run hstart (readAt readings events)
  have hprice : (fun i => valuation i calls) =
      fun i => (lastPrice i events).getD ((lastFillPrice i fills).getD 0) := by
    funext i
    rw [valuation, hmarks, hof]
  rw [hof, hprice] at hpnl
  rw [hof] at hpositions
  refine ⟨fills, hfills, hpnl, hcount, hpositions, hreplayed, ?_, hlength, ?_, SimulationRuntime.sum_failures hslots⟩
  · rw [← hreplayed]
    exact htotal
  · rw [← hlength]
    show StrategyCoordinator.activeStrategyCount _ + List.countP _ (List.map StrategySlot.stats _) = _
    rw [StrategyCoordinator.activeStrategyCount, List.countP_map, Nat.add_comm]
    -- a strategy is either paused or active, so the two counts add up
    have hcounts := List.length_eq_countP_add_countP (StrategyRuntimeStats.paused ∘ StrategySlot.stats)
      (l := result.1.strategyCoordinator.strategies)
    simp only [Function.comp_apply, Bool.not_eq_true, Bool.decide_eq_false] at hcounts
    exact hcounts.symm

end Wall
