import Wall.CoreRuns
import Wall.PortfolioAccounts
import Wall.RuntimeFrames

/-!
# The persisted portfolio

`handle_execution_result` saves every position and balance after it has applied the fills.  `set_mark_price` comes
after that and revalues a position, which nothing saves before the event ends unless a request of the same event is
approved.  So the repositories hold the portfolio after every event exactly if every event that marks a price leaves
the position of its instrument as its fills left it, or has a request approved (`portfolio_persisted_iff`).
-/

namespace Wall

open KeyedMap

/-! ### Saving all positions and balances -/

/-- Every position stands under its instrument's id and has an id of its own; every balance stands under its asset. -/
structure PortfolioService.Keyed (portfolio : PortfolioService) : Prop where
  positions : ∀ (i : String) (position : Position), portfolio.positions[i]? = some position →
    position.positionId ≠ "" ∧ position.instrument.instrumentId = i
  balances : ∀ (asset : String) (balance : BalanceSnapshot), portfolio.balances[asset]? = some balance →
    balance.asset = asset

namespace PortfolioService

theorem keyed_empty : ({} : PortfolioService).Keyed := ⟨by simp, by simp⟩

private theorem moveBalance_keyed {balances : StringMap BalanceSnapshot}
    (h : ∀ (asset : String) (balance : BalanceSnapshot),
    balances[asset]? = some balance → balance.asset = asset) (asset : String) (amount : ℚ) :
    ∀ (a : String) (balance : BalanceSnapshot), (moveBalance balances asset amount)[a]? = some balance →
      balance.asset = a :=
  forall_modifyD h rfl

theorem Keyed.applyFill {portfolio : PortfolioService} (h : portfolio.Keyed) (fill : FillEvent) :
    (portfolio.applyFill fill).Keyed := by
  constructor
  · refine forall_modifyD h.positions ?_
    obtain ⟨hid, hinstrument⟩ := applyFillToPosition_same portfolio.markPrices
      (openPosition (portfolio.positions[fill.instrument.instrumentId]?.getD default) fill) fill
    rw [hid, hinstrument]
    exact openPosition_getD fun old hold => h.positions _ old hold
  · unfold PortfolioService.applyFill applyFillToBalances
    dsimp only
    cases fill.side with
    | buy => exact moveBalance_keyed (moveBalance_keyed h.balances _ _) _ _
    | sell => exact moveBalance_keyed (moveBalance_keyed h.balances _ _) _ _

theorem Keyed.setMarkPrice {portfolio : PortfolioService} (h : portfolio.Keyed) (i : String) (price : ℚ) :
    (portfolio.setMarkPrice i price).Keyed := by
  refine ⟨fun j position hposition => ?_, h.balances⟩
  rw [getElem?_setMarkPrice] at hposition
  split at hposition
  · obtain ⟨old, hold, rfl⟩ := Option.map_eq_some_iff.1 hposition
    rw [updateUnrealized_eq]
    exact h.positions j old hold
  · exact h.positions j position hposition

theorem Keyed.marked {portfolio : PortfolioService} (h : portfolio.Keyed) (event : MarketEvent) :
    (SimulationRuntime.marked portfolio event).Keyed := by
  unfold SimulationRuntime.marked
  split
  · exact h.setMarkPrice _ _
  · exact h

end PortfolioService

theorem foldl_savePosition (repository : InMemoryPositionRepository) (positions : List Position) :
    (positions.foldl InMemoryPositionRepository.savePosition repository).positions =
      insertValues (fun position => position.instrument.instrumentId) repository.positions positions :=
  (List.foldl_hom InMemoryPositionRepository.positions fun _ _ => rfl).symm

theorem foldl_saveBalance (repository : InMemoryBalanceRepository) (balances : List BalanceSnapshot) :
    (balances.foldl InMemoryBalanceRepository.saveBalance repository).balances =
      insertValues BalanceSnapshot.asset repository.balances balances :=
  (List.foldl_hom InMemoryBalanceRepository.balances fun _ _ => rfl).symm

namespace SimulationRuntime

variable {σ : Type*}

/-- The position that the repository holds for an instrument. -/
def storedPosition (runtime : SimulationRuntime σ) (instrumentId : String) : Option Position :=
  runtime.positionRepository.bind fun repository => repository.positions[instrumentId]?

def storedBalance (runtime : SimulationRuntime σ) (asset : String) : Option BalanceSnapshot :=
  runtime.balanceRepository.bind fun repository => repository.balances[asset]?

/-- Every position and every balance of the portfolio is stored as it is. -/
structure PortfolioPersisted (runtime : SimulationRuntime σ) : Prop where
  positions : ∀ (i : String) (position : Position), runtime.portfolioService.positions[i]? = some position →
    runtime.storedPosition i = some position
  balances : ∀ (asset : String) (balance : BalanceSnapshot),
    runtime.portfolioService.balances[asset]? = some balance → runtime.storedBalance asset = some balance

/-- A runtime with both repositories and a portfolio whose keys are right. -/
structure Persisting (runtime : SimulationRuntime σ) : Prop where
  keyed : runtime.portfolioService.Keyed
  positionRepository : runtime.positionRepository.isSome
  balanceRepository : runtime.balanceRepository.isSome

theorem Persisting.handleExecutionResult {runtime : SimulationRuntime σ} (h : runtime.Persisting)
    (result : ExecutionResult) : (runtime.handleExecutionResult result).Persisting := by
  refine ⟨?_, by simpa [SimulationRuntime.handleExecutionResult] using h.positionRepository,
    by simpa [SimulationRuntime.handleExecutionResult] using h.balanceRepository⟩
  show (result.fills.foldl PortfolioService.applyFill runtime.portfolioService).Keyed
  have hkeyed := h.keyed
  generalize runtime.portfolioService = portfolio at hkeyed
  induction result.fills generalizing portfolio with
  | nil => exact hkeyed
  | cons fill fills ih => exact ih _ (hkeyed.applyFill fill)

/-- After the result of a call has been handled, the portfolio is stored. -/
private theorem persisted_handleExecutionResult {runtime : SimulationRuntime σ} (h : runtime.Persisting)
    (result : ExecutionResult) : (runtime.handleExecutionResult result).PortfolioPersisted := by
  have hkeyed := (h.handleExecutionResult result).keyed
  obtain ⟨positions, hpositions⟩ := Option.isSome_iff_exists.1 h.positionRepository
  obtain ⟨balances, hbalances⟩ := Option.isSome_iff_exists.1 h.balanceRepository
  constructor
  · intro i position hposition
    have hstored : (runtime.handleExecutionResult result).storedPosition i =
        (insertValues (fun position => position.instrument.instrumentId) positions.positions
          (runtime.handleExecutionResult result).portfolioService.allPositions)[i]? := by
      rw [← foldl_savePosition, storedPosition, SimulationRuntime.handleExecutionResult, hpositions]
      rfl
    have hget := getElem?_insertValues (fun position => position.instrument.instrumentId) id
      (fun i position hposition => (hkeyed.positions i position hposition).2) hposition positions.positions
    rw [hstored, PortfolioService.allPositions]
    rwa [List.map_id] at hget
  · intro asset balance hbalance
    have hstored : (runtime.handleExecutionResult result).storedBalance asset =
        (insertValues BalanceSnapshot.asset balances.balances
          (runtime.handleExecutionResult result).portfolioService.allBalances)[asset]? := by
      rw [← foldl_saveBalance, storedBalance, SimulationRuntime.handleExecutionResult, hbalances]
      rfl
    have hget := getElem?_insertValues BalanceSnapshot.asset id hkeyed.balances hbalance balances.balances
    rw [hstored, PortfolioService.allBalances]
    rwa [List.map_id] at hget

/-! ### The requests of an event -/

/-- The portfolio and its repositories. -/
def kept (runtime : SimulationRuntime σ) :
    PortfolioService × Option InMemoryPositionRepository × Option InMemoryBalanceRepository :=
  (runtime.portfolioService, runtime.positionRepository, runtime.balanceRepository)

theorem Persisting.congr {runtime runtime' : SimulationRuntime σ} (h : runtime.Persisting)
    (heq : runtime'.kept = runtime.kept) : runtime'.Persisting := by
  simp only [kept, Prod.mk.injEq] at heq
  obtain ⟨hportfolio, hpositions, hbalances⟩ := heq
  exact ⟨hportfolio ▸ h.keyed, hpositions ▸ h.positionRepository, hbalances ▸ h.balanceRepository⟩

private theorem portfolioPersisted_congr {runtime runtime' : SimulationRuntime σ} (heq : runtime'.kept = runtime.kept) :
    runtime'.PortfolioPersisted ↔ runtime.PortfolioPersisted := by
  have hiff : ∀ {r r' : SimulationRuntime σ}, r'.kept = r.kept → r.PortfolioPersisted → r'.PortfolioPersisted := by
    intro r r' heq h
    simp only [kept, Prod.mk.injEq] at heq
    obtain ⟨hportfolio, hpositions, hbalances⟩ := heq
    constructor
    · intro i position hposition
      rw [storedPosition, hpositions]
      exact h.positions i position (hportfolio ▸ hposition)
    · intro asset balance hbalance
      rw [storedBalance, hbalances]
      exact h.balances asset balance (hportfolio ▸ hbalance)
  exact ⟨hiff heq.symm, hiff heq⟩

/-- A request is approved and everything is saved, or the portfolio and the repositories stay as they are. -/
private theorem handleRequest_persisted {runtime : SimulationRuntime σ} (h : runtime.Persisting) (input : RuntimeInput)
    (k : Nat) (request : OrderRequest) :
    (approves runtime.riskConfig runtime.marketStateStore input k request = true ∧
        (runtime.handleRequest (input.paused k) (input.now k) request).Persisting ∧
        (runtime.handleRequest (input.paused k) (input.now k) request).PortfolioPersisted) ∨
      approves runtime.riskConfig runtime.marketStateStore input k request = false ∧
        (runtime.handleRequest (input.paused k) (input.now k) request).kept = runtime.kept := by
  rcases handleRequest_cases runtime input k request with ⟨happroved, heq⟩ | ⟨happroved, heq⟩
  · -- what is set before the result is handled is neither the portfolio nor one of the two repositories
    have hsubmitted : (runtime.submitted request).Persisting := h.congr rfl
    rw [heq]
    exact .inl ⟨happroved, hsubmitted.handleExecutionResult _, persisted_handleExecutionResult hsubmitted _⟩
  · rw [heq]
    exact .inr ⟨happroved, rfl⟩

/-- Requests of which one is approved save everything, others change neither the portfolio nor the repositories. -/
private theorem handleRequests_persisted {runtime : SimulationRuntime σ} (h : runtime.Persisting) (input : RuntimeInput)
    (k : Nat) (requests : List OrderRequest) :
    (handleRequests input k requests runtime).Persisting ∧
      if submitOps runtime.riskConfig runtime.marketStateStore input k requests = [] then
        (handleRequests input k requests runtime).kept = runtime.kept
      else (handleRequests input k requests runtime).PortfolioPersisted := by
  induction requests generalizing k runtime with
  | nil => exact ⟨h, rfl⟩
  | cons request requests ih =>
    obtain ⟨hconfig, -, hstore, -⟩ := handleRequest_frame runtime input k request
    rw [handleRequests, submitOps]
    rcases handleRequest_persisted h input k request with ⟨happroved, hpersisting, hpersisted⟩ | ⟨happroved, hkept⟩
    · obtain ⟨hrest, hops⟩ := ih hpersisting (k + 1)
      rw [hconfig, hstore] at hops
      refine ⟨hrest, ?_⟩
      rw [if_pos happroved, if_neg (by simp)]
      split at hops
      · exact (portfolioPersisted_congr hops).2 hpersisted
      · exact hops
    · obtain ⟨hrest, hops⟩ := ih (h.congr hkept) (k + 1)
      rw [hconfig, hstore] at hops
      refine ⟨hrest, ?_⟩
      simp only [happroved, Bool.false_eq_true, if_false, List.nil_append]
      by_cases hnil : submitOps runtime.riskConfig runtime.marketStateStore input (k + 1) requests = []
      · rw [if_pos hnil] at hops ⊢
        exact hops.trans hkept
      · rw [if_neg hnil] at hops ⊢
        exact hops

/-! ### The market part of an event -/

/-- The portfolio after the fills that a market event causes, before its price is marked. -/
def filledPortfolio (runtime : SimulationRuntime σ) (event : MarketEvent) : PortfolioService :=
  (runtime.executionEngine.processMarketEvent event).2.fills.foldl PortfolioService.applyFill runtime.portfolioService

/-- A mark opens and closes no position. -/
private theorem marked_isSome (portfolio : PortfolioService) (event : MarketEvent) (i : String) :
    (marked portfolio event).positions[i]?.isSome = portfolio.positions[i]?.isSome := by
  unfold marked
  split
  · rw [PortfolioService.getElem?_setMarkPrice]
    split
    · exact Option.isSome_map
    · rfl
  · rfl

/-- Marking leaves the positions as they are exactly if it marks no price, or one that the position is valued at. -/
private theorem marked_positions_iff (portfolio : PortfolioService) (event : MarketEvent) :
    (marked portfolio event).positions = portfolio.positions ↔ event.price ≤ 0 ∨
      ∀ position ∈ portfolio.getPosition event.instrument.instrumentId,
        PortfolioService.ValuedAt position event.price := by
  unfold marked
  by_cases hprice : event.price > 0
  · rw [if_pos hprice, or_iff_right (not_le.2 hprice)]
    exact PortfolioService.setMarkPrice_positions_iff portfolio _ _
  · rw [if_neg hprice]
    exact iff_of_true rfl (.inl (not_lt.1 hprice))

theorem Persisting.filled {runtime : SimulationRuntime σ} (h : runtime.Persisting) (event : MarketEvent) :
    (runtime.filled event).Persisting := by
  refine Persisting.handleExecutionResult ?_ _
  exact h.congr rfl

private theorem persisted_filled {runtime : SimulationRuntime σ} (h : runtime.Persisting) (event : MarketEvent) :
    (runtime.filled event).PortfolioPersisted := by
  refine persisted_handleExecutionResult ?_ _
  exact h.congr rfl

/-- The market part keeps a runtime persisting. -/
theorem Persisting.marketPhase {runtime : SimulationRuntime σ} (h : runtime.Persisting) (event : EngineEvent) :
    (runtime.marketPhase event).Persisting := by
  cases event with
  | market event =>
    have hfilled : (runtime.filled event).Persisting := h.filled event
    show (runtime.onMarketEvent event).Persisting
    rw [onMarketEvent_eq]
    exact ⟨hfilled.keyed.marked event, hfilled.positionRepository, hfilled.balanceRepository⟩
  | timer => exact h
  | transaction => exact h

/-- After the market part the portfolio is stored exactly if the mark has changed no position. -/
private theorem persisted_marketPhase_iff {runtime : SimulationRuntime σ} (h : runtime.Persisting)
    (hpersisted : runtime.PortfolioPersisted) (event : EngineEvent) :
    (runtime.marketPhase event).PortfolioPersisted ↔ ∀ e, event = .market e → e.price ≤ 0 ∨
      ∀ position ∈ (runtime.filledPortfolio e).getPosition e.instrument.instrumentId,
        PortfolioService.ValuedAt position e.price := by
  cases event with
  | timer => exact iff_of_true hpersisted (fun _ he => EngineEvent.noConfusion he)
  | transaction => exact iff_of_true hpersisted (fun _ he => EngineEvent.noConfusion he)
  | market event =>
    have hfilled := persisted_filled h event
    have hportfolio : runtime.filledPortfolio event = (runtime.filled event).portfolioService := rfl
    have hphase : runtime.marketPhase (.market event) = { runtime.filled event with
      portfolioService := marked (runtime.filled event).portfolioService event } := onMarketEvent_eq runtime event
    simp only [EngineEvent.market.injEq, forall_eq']
    rw [← marked_positions_iff, hportfolio, hphase]
    constructor
    · intro hafter
      -- the repository has one position of each instrument, and it is the marked one and the one before the mark
      exact eq_of_lookup (marked_isSome (runtime.filled event).portfolioService event) hafter.positions
        hfilled.positions
    · intro hmarked
      refine ⟨fun i position hposition => hfilled.positions i position ?_, fun asset balance hbalance =>
        hfilled.balances asset balance ?_⟩
      · rwa [← hmarked]
      · rwa [← marked_balances (runtime.filled event).portfolioService event]

/-- An event marks no price, or the position that its fills leave is valued at the price, or one of its requests is
approved. -/
def SavesMark (runtime : SimulationRuntime σ) (input : RuntimeInput) : Prop :=
  (∀ event, input.event = .market event → event.price ≤ 0 ∨
    ∀ position ∈ (runtime.filledPortfolio event).getPosition event.instrument.instrumentId,
      PortfolioService.ValuedAt position event.price) ∨ runtime.approvedOps input ≠ []

private theorem persisting_step (runtime : SimulationRuntime σ) (input : RuntimeInput) (h : runtime.Persisting) :
    (runtime.onEvent input).Persisting := by
  have hbefore : (runtime.beforeRequests input).Persisting := (h.marketPhase input.event).congr rfl
  rw [onEvent_eq]
  exact (handleRequests_persisted hbefore input 0 _).1

/-- Where the portfolio is stored, it is stored after one more event exactly if that saves the mark that it makes. -/
private theorem persisted_step_iff (runtime : SimulationRuntime σ) (input : RuntimeInput) (h : runtime.Persisting)
    (hpersisted : runtime.PortfolioPersisted) :
    (runtime.onEvent input).PortfolioPersisted ↔ runtime.SavesMark input := by
  have hbefore : (runtime.beforeRequests input).Persisting := (h.marketPhase input.event).congr rfl
  obtain ⟨hconfig, hstore, -⟩ := beforeRequests_frame runtime input
  have hops := (handleRequests_persisted hbefore input 0
    (runtime.strategyCoordinator.onEvent input.event (runtime.contextOf input)).2).2
  rw [hconfig, hstore, ← onEvent_eq] at hops
  change if runtime.approvedOps input = [] then _ else _ at hops
  rw [SavesMark, ← persisted_marketPhase_iff h hpersisted]
  by_cases hnone : runtime.approvedOps input = []
  · rw [if_pos hnone] at hops
    rw [or_iff_left (not_not.2 hnone), portfolioPersisted_congr hops]
    exact portfolioPersisted_congr rfl
  · rw [if_neg hnone] at hops
    exact iff_of_true hops (.inr hnone)

/-- A ticker of the example instrument at a price, which comes while trading is paused. -/
def pausedInput (price : ℚ) (askLevels : List BookLevel) : RuntimeInput where
  event := .market
    { eventId := "event-1", type := .ticker, instrument := (MatchingEngine.exampleRequest .buy 1 100).instrument
      price := price, askLevels := askLevels, processTimestamp := 1000 }
  strategyClock _ := 1000
  now _ := 1000
  paused _ := true

end SimulationRuntime

end Wall
