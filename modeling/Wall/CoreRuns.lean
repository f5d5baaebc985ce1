import Wall.TradingCore
import Wall.Conservation

/-!
# Runs of the trading core

The runtime never restores an order by itself, so its engine stays `Steady`: the books and the records are in step,
and no id that is still to be issued is tracked.  A call on a steady core is fresh, and what it does to positions is
its fills (`netOf_step`).

What can be asked of a request before it is submitted is whether it would match an order that rests in the engine's
own book (`MatchesLocally`).  A run of the runtime in which the calls satisfy such a condition is
`SimulationRuntime.CallsSatisfy`.
-/

namespace Wall

open KeyedMap

namespace MatchingEngine

/-- In step, and with no id tracked that `submit` has yet to issue. -/
structure Steady (engine : MatchingEngine) : Prop where
  sync : engine.Sync
  unissued : ∀ n, engine.nextOrderId ≤ n → engine.orders[matchOrderId n]? = none

theorem empty_steady : ({} : MatchingEngine).Steady := ⟨empty_sync, fun _ _ => rfl⟩

namespace Steady

variable {engine : MatchingEngine} (h : engine.Steady) {op : EngineOp} (hop : op.isRestore = false)
include h

theorem issued_untracked : engine.orders[engine.issuedOrderId]? = none := h.unissued _ (le_refl _)

include hop

theorem fresh : op.Fresh engine := by
  intro id hid
  cases op with
  | submit request =>
    cases hid
    exact h.issued_untracked
  | cancel => cases hid
  | processMarketEvent => cases hid
  | restoreOpenOrder => cases hop

/-- A call that restores nothing keeps the engine steady. -/
theorem step : (machine.step engine op).1.Steady := by
  have hf := h.fresh hop
  refine ⟨h.sync.step hf, fun n hn => h.sync.untracked_step hf ?_ ?_⟩
  · exact h.unissued n ((nextOrderId_le_step engine op).trans hn)
  · intro hnew
    cases op with
    | submit request =>
      -- `submit` has moved the counter past the id it took
      have hlt : engine.nextOrderId + 1 ≤ n := submit_nextOrderId engine request ▸ hn
      rw [← matchOrderId_injective (Option.some.inj hnew)] at hlt
      exact absurd hlt (Nat.not_succ_le_self _)
    | cancel => cases hnew
    | processMarketEvent => cases hnew
    | restoreOpenOrder => cases hop

end Steady

/-! ### Requests that match locally -/

/-- The request passes the checks of `submit`, and the matching loop finds a resting order that it crosses. -/
def MatchesLocally (engine : MatchingEngine) (request : OrderRequest) : Prop :=
  request.Acceptable ∧ kQuantityTolerance < request.quantity ∧
    ∃ o ∈ (engine.bookFor request.instrument).bestOrder request.side.opposite, crosses request o = true

instance (engine : MatchingEngine) (request : OrderRequest) : Decidable (engine.MatchesLocally request) :=
  inferInstanceAs (Decidable (_ ∧ _ ∧ _))

/-- Without a match the loop leaves everything as it starts. -/
theorem submitLoop_of_not_matches {engine : MatchingEngine} {request : OrderRequest} (hacc : request.Acceptable)
    (h : ¬ engine.MatchesLocally request) : (engine.submitLoop request).1 = engine.submitStart request := by
  unfold submitLoop loopFuel
  rw [fillLoop]
  split
  · rename_i hq
    split
    · rfl
    · rename_i resting hbest
      split
      · rfl
      · rename_i hstop
        refine absurd ⟨hacc, hq, resting, hbest, ?_⟩ h
        simpa [submitRule] using hstop
  · rfl

/-- Without a match there are no fills. -/
theorem submit_fills_of_not_matches {engine : MatchingEngine} (hs : engine.Steady) {request : OrderRequest}
    (h : ¬ engine.MatchesLocally request) : (engine.submit request).2.fills = [] := by
  rcases engine.submit_cases request with ⟨reason, heq, -⟩ | ⟨-, hacc⟩
  · rw [heq]
    rfl
  · obtain ⟨es, fills, hsub⟩ := hs.sync.submit_spec hs.issued_untracked hacc
    rw [hsub.eq, acceptedResult, submitLoop_of_not_matches hacc h]
    rfl

end MatchingEngine

/-! ### Calls of the core -/

namespace TradingCore

/-- A call moves the net quantities by its fills. -/
theorem netOf_step (core : TradingCore) (op : TradingOp) (i : String) :
    (core.step op).portfolio.netOf i =
      core.portfolio.netOf i + signedFills i (MatchingEngine.machine.step core.engine op.engineOp).2.fills := by
  cases op with
  | market event =>
    have hfills : (core.step (.market event)).portfolio.netOf i =
        ((core.engine.processMarketEvent event).2.fills.foldl PortfolioService.applyFill core.portfolio).netOf i := by
      show (core.onMarket event).portfolio.netOf i = _
      unfold onMarket
      dsimp only
      split
      · exact PortfolioService.netOf_setMarkPrice _ _ _ _
      · rfl
    rw [hfills]
    exact PortfolioService.netOf_applyFills _ _ _
  | submit request => exact PortfolioService.netOf_applyFills _ _ _

theorem isRestore_engineOp (op : TradingOp) : op.engineOp.isRestore = false := by cases op <;> rfl

/-- The call is not a request that matches a resting order of the engine. -/
def NoLocalMatch (core : TradingCore) : TradingOp → Prop
  | .market _ => True
  | .submit request => ¬ core.engine.MatchesLocally request

instance (core : TradingCore) : DecidablePred core.NoLocalMatch
  | .market _ => instDecidableTrue
  | .submit request => inferInstanceAs (Decidable (¬ core.engine.MatchesLocally request))

theorem steady_step {core : TradingCore} (h : core.engine.Steady) (op : TradingOp) : (core.step op).engine.Steady := by
  rw [step_engine]
  exact h.step (isRestore_engineOp op)

end TradingCore

/-! ### Conditions on the calls of a run -/

namespace SimulationRuntime

variable {σ : Type*}

/-- Every call of an event satisfies `ok` in the state of the core that it is made in. -/
def CallsSatisfy (runtime : SimulationRuntime σ) (ok : TradingCore → TradingOp → Prop) (input : RuntimeInput) : Prop :=
  TradingCore.machine.Admissible ok runtime.core (runtime.tradingOps input)

instance (ok : TradingCore → TradingOp → Prop) [∀ core op, Decidable (ok core op)] (runtime : SimulationRuntime σ)
    (input : RuntimeInput) : Decidable (runtime.CallsSatisfy ok input) :=
  inferInstanceAs (Decidable (TradingCore.machine.Admissible ok _ _))

/-- What every call on a steady core that satisfies `ok` keeps, every event of a run from a fresh runtime whose calls
all satisfy `ok` leaves. -/
theorem invariant_from_fresh {ok : TradingCore → TradingOp → Prop} {P : TradingCore → Prop}
    (hstep : ∀ core op, core.engine.Steady → ok core op → P core → P (core.step op))
    {riskConfig : RiskConfig} {config : SimulationRuntimeConfig σ} {inputs : List RuntimeInput}
    (h : machine.Admissible (fun runtime input => runtime.CallsSatisfy ok input) (fresh riskConfig config) inputs)
    (hP : P (fresh riskConfig config).core) {pre : List RuntimeInput} (hpre : pre <+: inputs) :
    P (machine.run (fresh riskConfig config) pre).core := by
  obtain ⟨post, rfl⟩ := hpre
  have hboth : ∀ core op, ok core op → core.engine.Steady ∧ P core →
      (TradingCore.step core op).engine.Steady ∧ P (core.step op) := by
    rintro core op hok ⟨hs, hP⟩
    exact ⟨TradingCore.steady_step hs op, hstep core op hs hok hP⟩
  have hinv := invariant_run (P := fun core => core.engine.Steady ∧ P core) hboth (machine.admissible_append.1 h).1
    ⟨MatchingEngine.empty_steady, hP⟩
  exact hinv.2

/-! ### A runtime for the runs on fixed inputs -/

/-- A strategy that emits the same requests at every event. -/
def exampleStrategy (requests : List OrderRequest) : Strategy Unit where
  strategyId := "example"
  onEvent _ _ _ := ((), some requests)

/-- A fresh runtime with that strategy, an empty order repository and a position limit. -/
def exampleRuntime (maxPositionQuantity : ℚ) (requests : List OrderRequest) : SimulationRuntime Unit :=
  fresh
    { maxOrderQuantity := 10, maxOrderNotional := 1000, maxPositionQuantity := maxPositionQuantity
      staleAfterMs := 1000 }
    { strategyCoordinator := StrategyCoordinator.addStrategy {} (exampleStrategy requests) ()
      orderRepository := some {} }

/-- A ticker with ask levels, read while the clock stands at its time. -/
def exampleInput (askLevels : List BookLevel) : RuntimeInput where
  event := .market
    { eventId := "event-1", type := .ticker, instrument := (MatchingEngine.exampleRequest .buy 1 100).instrument
      price := 100, askLevels := askLevels, processTimestamp := 1000 }
  strategyClock _ := 1000
  now _ := 1000
  paused _ := false

end SimulationRuntime

end Wall
