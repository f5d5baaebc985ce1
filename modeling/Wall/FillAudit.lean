import Wall.PortfolioAccounts
import Wall.RuntimeFrames
import Wall.StoredFills

/-!
# The fill log as an audit trail

The fills of the market events and of the approved requests reach the portfolio in the order in which they are
appended to the fill repository.  Marks come between them, but a mark changes no more of a position than its
unrealized result, and nothing else in a portfolio depends on that (`SameAccounts`).  So the log, replayed on an empty
portfolio, gives the runtime's quantities, entry prices, realized results and balances.
-/

namespace Wall

open KeyedMap

namespace PortfolioService

/-- A position without its unrealized result. -/
def unmarked (position : Position) : Position := { position with unrealizedPnl := 0 }

/-- The portfolios agree in everything but the marks and what they value. -/
structure SameAccounts (portfolio portfolio' : PortfolioService) : Prop where
  positions : ∀ i : String, (portfolio.getPosition i).map unmarked = (portfolio'.getPosition i).map unmarked
  balances : portfolio.balances = portfolio'.balances

private theorem unmarked_updateUnrealized (position : Position) (price : ℚ) :
    unmarked (updateUnrealized position price) = unmarked position := by
  rw [updateUnrealized_eq]
  rfl

/-- What a fill makes of a position, its unrealized result apart, does not depend on the marks or on that result. -/
private theorem unmarked_filled (markPrices : StringMap ℚ) (position : Position) (fill : FillEvent) :
    unmarked (applyFillToPosition markPrices (openPosition position fill) fill) =
      unmarked (executeFill (openPosition (unmarked position) fill) fill) := by
  rw [applyFillToPosition_eq, unmarked_updateUnrealized]
  unfold executeFill openPosition unmarked
  dsimp only
  split <;> split <;> rfl

namespace SameAccounts

variable {portfolio portfolio' : PortfolioService}

theorem refl (portfolio : PortfolioService) : SameAccounts portfolio portfolio := ⟨fun _ => rfl, rfl⟩

theorem trans {portfolio'' : PortfolioService} (h : SameAccounts portfolio portfolio')
    (h' : SameAccounts portfolio' portfolio'') : SameAccounts portfolio portfolio'' :=
  ⟨fun i => (h.positions i).trans (h'.positions i), h.balances.trans h'.balances⟩

/-- One fill on both sides. -/
theorem applyFill (h : SameAccounts portfolio portfolio') (fill : FillEvent) :
    SameAccounts (portfolio.applyFill fill) (portfolio'.applyFill fill) where
  positions i := by
    have hsame : ∀ old old' : Option Position, old.map unmarked = old'.map unmarked →
        unmarked (old.getD default) = unmarked (old'.getD default) := by
      rintro (_ | old) (_ | old') heq
      · rfl
      · cases heq
      · cases heq
      · exact Option.some.inj heq
    have hfound := hsame _ _ (h.positions fill.instrument.instrumentId)
    unfold getPosition at hfound
    unfold getPosition PortfolioService.applyFill
    dsimp only
    rw [getElem?_modifyD, getElem?_modifyD]
    by_cases hi : fill.instrument.instrumentId = i
    · rw [if_pos hi, if_pos hi, Option.map_some, Option.map_some, unmarked_filled, unmarked_filled, hfound]
    · rw [if_neg hi, if_neg hi]
      exact h.positions i
  balances := congrArg (applyFillToBalances · fill) h.balances

theorem applyFills (h : SameAccounts portfolio portfolio') (fills : List FillEvent) :
    SameAccounts (fills.foldl PortfolioService.applyFill portfolio)
      (fills.foldl PortfolioService.applyFill portfolio') := by
  induction fills generalizing portfolio portfolio' with
  | nil => exact h
  | cons fill fills ih => exact ih (h.applyFill fill)

/-- A mark on one side. -/
theorem setMarkPrice (h : SameAccounts portfolio portfolio') (j : String) (price : ℚ) :
    SameAccounts (portfolio.setMarkPrice j price) portfolio' where
  positions i := by
    rw [getPosition, getElem?_setMarkPrice, ← h.positions i, getPosition]
    by_cases hi : j = i
    · rw [if_pos hi, Option.map_map]
      exact congrArg (Option.map · _) (funext fun position => unmarked_updateUnrealized position price)
    · rw [if_neg hi]
  balances := h.balances

end SameAccounts

end PortfolioService

open PortfolioService

namespace SimulationRuntime

variable {σ : Type*}

theorem sameAccounts_marked {portfolio portfolio' : PortfolioService} (h : SameAccounts portfolio portfolio')
    (event : MarketEvent) : SameAccounts (marked portfolio event) portfolio' := by
  unfold marked
  split
  · exact h.setMarkPrice _ _
  · exact h

/-- The runtime has a fill log, which replays to its accounts and counts its fills. -/
def Audited (runtime : SimulationRuntime σ) : Prop :=
  ∃ repository, runtime.fillRepository = some repository ∧
    SameAccounts runtime.portfolioService (repository.fills.foldl PortfolioService.applyFill {}) ∧
    runtime.appliedFillCount = repository.fills.length

namespace Audited

variable {runtime : SimulationRuntime σ}

/-- Nothing else of the runtime matters. -/
theorem congr (h : runtime.Audited) (runtime' : SimulationRuntime σ)
    (hrepository : runtime'.fillRepository = runtime.fillRepository)
    (hportfolio : runtime'.portfolioService = runtime.portfolioService)
    (hcount : runtime'.appliedFillCount = runtime.appliedFillCount) :
    runtime'.Audited := by
  unfold Audited
  rw [hrepository, hportfolio, hcount]
  exact h

theorem handleExecutionResult (h : runtime.Audited) (result : ExecutionResult) :
    (runtime.handleExecutionResult result).Audited := by
  obtain ⟨repository, hrepository, hsame, hcount⟩ := h
  refine ⟨⟨repository.fills ++ result.fills⟩, handleExecutionResult_appends runtime result repository hrepository,
    ?_, ?_⟩
  · rw [List.foldl_append]
    exact hsame.applyFills result.fills
  · rw [List.length_append, ← hcount]
    rfl

theorem marketPhase (h : runtime.Audited) (event : EngineEvent) : (runtime.marketPhase event).Audited := by
  cases event with
  | market event =>
    show (runtime.onMarketEvent event).Audited
    rw [onMarketEvent_eq]
    have hstart := h.congr { runtime with
      marketStateStore := runtime.marketStateStore.apply event
      marketStateCache := runtime.marketStateCache.map fun cache : InMemoryMarketStateCache =>
        cache.upsertSnapshot (marketSnapshot event)
      executionEngine := (runtime.executionEngine.processMarketEvent event).1 } rfl rfl rfl
    obtain ⟨repository, hrepository, hsame, hcount⟩ :=
      hstart.handleExecutionResult (runtime.executionEngine.processMarketEvent event).2
    exact ⟨repository, hrepository, sameAccounts_marked hsame event, hcount⟩
  | timer => exact h
  | transaction => exact h

theorem handleRequest (h : runtime.Audited) (input : RuntimeInput) (k : Nat) (request : OrderRequest) :
    (runtime.handleRequest (input.paused k) (input.now k) request).Audited := by
  rcases handleRequest_cases runtime input k request with ⟨-, heq⟩ | ⟨-, heq⟩
  · rw [heq]
    exact (h.congr (runtime.submitted request) rfl rfl rfl).handleExecutionResult _
  · rw [heq]
    exact h.congr _ rfl rfl rfl

theorem handleRequests (h : runtime.Audited) (input : RuntimeInput) (k : Nat) (requests : List OrderRequest) :
    (handleRequests input k requests runtime).Audited := by
  induction requests generalizing k runtime with
  | nil => exact h
  | cons request requests ih => exact ih (h.handleRequest input k request) (k + 1)

theorem onEvent (h : runtime.Audited) (input : RuntimeInput) : (runtime.onEvent input).Audited := by
  rw [onEvent_eq]
  exact ((h.marketPhase input.event).congr (runtime.beforeRequests input) rfl rfl rfl).handleRequests input 0 _

end Audited

/-- After any run of a fresh runtime with an empty fill repository, applying the stored fills in order to an empty
portfolio gives the runtime's net quantity, entry price and realized result for every instrument and its balance for
every asset, and the runtime has counted as many fills as are stored. -/
theorem fill_log_replays (riskConfig : RiskConfig) (config : SimulationRuntimeConfig σ) (inputs : List RuntimeInput) :
    let runtime := machine.run (fresh riskConfig { config with fillRepository := some {} }) inputs
    ∃ repository, runtime.fillRepository = some repository ∧
      let replayed := repository.fills.foldl PortfolioService.applyFill {}
      (∀ i, (runtime.portfolioService.getPosition i).map (fun p => (p.netQuantity, p.averageEntryPrice, p.realizedPnl)) =
        (replayed.getPosition i).map fun p => (p.netQuantity, p.averageEntryPrice, p.realizedPnl)) ∧
      (∀ asset, runtime.portfolioService.getBalance asset = replayed.getBalance asset) ∧
      runtime.appliedFillCount = repository.fills.length := by
  intro runtime
  have hok : machine.Admissible (fun _ _ => True) (fresh riskConfig { config with fillRepository := some {} }) inputs :=
    Machine.admissible_of_forall (fun _ _ _ => trivial) _
  have hfresh : (fresh riskConfig { config with fillRepository := some {} }).Audited :=
    ⟨{}, rfl, ⟨fun _ => rfl, rfl⟩, rfl⟩
  obtain ⟨repository, hrepository, hsame, hcount⟩ : runtime.Audited :=
    Machine.invariant (P := Audited) (fun _ input _ h => h.onEvent input) hok hfresh
  refine ⟨repository, hrepository, fun i => ?_, fun asset => ?_, hcount⟩
  · have hi := congrArg (Option.map fun p : Position => (p.netQuantity, p.averageEntryPrice, p.realizedPnl))
      (hsame.positions i)
    rw [Option.map_map, Option.map_map] at hi
    exact hi
  · rw [getBalance, hsame.balances, getBalance]

end SimulationRuntime

end Wall
