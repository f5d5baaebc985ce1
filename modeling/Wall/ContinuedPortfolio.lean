import Wall.FillAudit
import Wall.PersistedPortfolio
import Wall.RestoredMarks

/-!
# The portfolio across restarts

A process that starts again has an empty portfolio, into which the recovery puts the stored positions and balances.
What is stored lags behind by the marks, and the recovery marks the positions anew; neither changes more of a position
than its unrealized result.  So the portfolio of every life continues the one before: up to the marks it is what the
fill log gives, replayed from the very first fill, and so is what is stored (`portfolio_continues`).
-/

namespace Wall

open KeyedMap PortfolioService

/-! ### The fills of a log -/

namespace PortfolioService

/-- Positions that differ in their unrealized results only have one id and one instrument. -/
theorem same_of_unmarked {position position' : Position} (h : unmarked position = unmarked position') :
    position.positionId = position'.positionId ∧ position.instrument = position'.instrument := by
  unfold unmarked at h
  rw [Position.mk.injEq] at h
  exact ⟨h.1, h.2.1⟩

theorem SameAccounts.keyed {portfolio portfolio' : PortfolioService} (h : SameAccounts portfolio portfolio')
    (hkeyed : portfolio'.Keyed) : portfolio.Keyed := by
  refine ⟨fun i position hposition => ?_, fun asset balance hbalance => ?_⟩
  · have hi := h.positions i
    rw [getPosition, getPosition, hposition, Option.map_some, eq_comm, Option.map_eq_some_iff] at hi
    obtain ⟨position', hposition', hsame⟩ := hi
    have hkey := hkeyed.positions i position' hposition'
    obtain ⟨hid, hinstrument⟩ := same_of_unmarked hsame
    rwa [hid, hinstrument] at hkey
  · rw [h.balances] at hbalance
    exact hkeyed.balances asset balance hbalance

theorem Keyed.applyFills {portfolio : PortfolioService} (h : portfolio.Keyed) (fills : List FillEvent) :
    (fills.foldl PortfolioService.applyFill portfolio).Keyed := by
  induction fills generalizing portfolio with
  | nil => exact h
  | cons fill fills ih => exact ih (h.applyFill fill)

/-- Fills close no position. -/
theorem getPosition_of_applyFills {portfolio : PortfolioService} {fills : List FillEvent} {i : String}
    (h : (fills.foldl applyFill portfolio).getPosition i = none) : portfolio.getPosition i = none := by
  induction fills generalizing portfolio with
  | nil => exact h
  | cons fill fills ih =>
    have hi := ih h
    rw [getPosition, applyFill, getElem?_modifyD] at hi
    split at hi
    · cases hi
    · exact hi

private theorem getElem?_of_moveBalance {balances : StringMap BalanceSnapshot} {asset a : String} {amount : ℚ}
    (h : (moveBalance balances asset amount)[a]? = none) : balances[a]? = none := by
  rw [moveBalance, getElem?_modifyD] at h
  split at h
  · cases h
  · exact h

theorem getBalance_of_applyFills {portfolio : PortfolioService} {fills : List FillEvent} {asset : String}
    (h : (fills.foldl applyFill portfolio).balances[asset]? = none) : portfolio.balances[asset]? = none := by
  induction fills generalizing portfolio with
  | nil => exact h
  | cons fill fills ih =>
    have hasset := ih h
    unfold applyFill applyFillToBalances at hasset
    dsimp only at hasset
    cases hside : fill.side with
    | buy =>
      rw [hside] at hasset
      exact getElem?_of_moveBalance (getElem?_of_moveBalance hasset)
    | sell =>
      rw [hside] at hasset
      exact getElem?_of_moveBalance (getElem?_of_moveBalance hasset)

end PortfolioService

/-! ### What outlives a process -/

/-- The repositories that one process leaves to the next. -/
structure Durable where
  orderRepository : InMemoryOrderRepository := {}
  fillRepository : InMemoryFillRepository := {}
  positionRepository : InMemoryPositionRepository := {}
  balanceRepository : InMemoryBalanceRepository := {}

namespace Durable

/-- All positions and balances of a portfolio are saved. -/
def saved (durable : Durable) (portfolio : PortfolioService) : Durable :=
  { durable with
    positionRepository := portfolio.allPositions.foldl InMemoryPositionRepository.savePosition
      durable.positionRepository
    balanceRepository := portfolio.allBalances.foldl InMemoryBalanceRepository.saveBalance
      durable.balanceRepository }

/-- The portfolio that the stored fills give, replayed from the first one. -/
def ledger (durable : Durable) : PortfolioService := durable.fillRepository.fills.foldl applyFill {}

private theorem ledger_keyed (durable : Durable) : durable.ledger.Keyed := keyed_empty.applyFills _

/-- The stored positions and balances are those of a portfolio; the marks may be others. -/
structure Holds (durable : Durable) (portfolio : PortfolioService) : Prop where
  positions : ∀ i : String,
    durable.positionRepository.positions[i]?.map unmarked = (portfolio.getPosition i).map unmarked
  balances : ∀ asset : String, durable.balanceRepository.balances[asset]? = portfolio.balances[asset]?

namespace Holds

theorem empty : ({} : Durable).Holds {} := ⟨fun _ => by simp [getPosition], fun _ => by simp⟩

variable {durable : Durable} {ledger : PortfolioService} (h : durable.Holds ledger)
include h

private theorem position_key (hkeyed : ledger.Keyed) (i : String) (position : Position)
    (hposition : durable.positionRepository.positions[i]? = some position) : position.key = i := by
  have hi := h.positions i
  rw [hposition, Option.map_some, eq_comm, Option.map_eq_some_iff] at hi
  obtain ⟨position', hposition', hsame⟩ := hi
  rw [Position.key, ← (same_of_unmarked hsame).2]
  exact (hkeyed.positions i position' hposition').2

private theorem balance_asset (hkeyed : ledger.Keyed) (asset : String) (balance : BalanceSnapshot)
    (hbalance : durable.balanceRepository.balances[asset]? = some balance) : balance.asset = asset := by
  rw [h.balances] at hbalance
  exact hkeyed.balances asset balance hbalance

variable {portfolio : PortfolioService} {fills : List FillEvent} (hkeyed : ledger.Keyed)
  (haccounts : SameAccounts portfolio (fills.foldl applyFill ledger))
include hkeyed haccounts

/-- An instrument without a position in the portfolio has had none before, so none is stored. -/
private theorem saved_positions (i : String) :
    (durable.saved portfolio).positionRepository.positions[i]? = portfolio.getPosition i := by
  have hportfolio := haccounts.keyed (hkeyed.applyFills fills)
  have hstored : (durable.saved portfolio).positionRepository.positions[i]? =
      (portfolio.getPosition i).or durable.positionRepository.positions[i]? := by
    rw [saved]
    dsimp only
    rw [foldl_savePosition]
    exact getElem?_insertValues_of_perm (fun i position hposition => (hportfolio.positions i position hposition).2)
      (.refl _) durable.positionRepository.positions i
  rw [hstored]
  cases hposition : portfolio.getPosition i with
  | some position => rfl
  | none =>
    have hnone := haccounts.positions i
    rw [hposition, Option.map_none, eq_comm, Option.map_eq_none_iff] at hnone
    have hold := h.positions i
    rwa [getPosition_of_applyFills hnone, Option.map_none, Option.map_eq_none_iff] at hold

private theorem saved_balances (asset : String) :
    (durable.saved portfolio).balanceRepository.balances[asset]? = portfolio.balances[asset]? := by
  have hportfolio := haccounts.keyed (hkeyed.applyFills fills)
  have hstored : (durable.saved portfolio).balanceRepository.balances[asset]? =
      portfolio.balances[asset]?.or durable.balanceRepository.balances[asset]? := by
    rw [saved]
    dsimp only
    rw [foldl_saveBalance]
    exact getElem?_insertValues_of_perm hportfolio.balances (.refl _) durable.balanceRepository.balances asset
  rw [hstored]
  cases hbalance : portfolio.balances[asset]? with
  | some balance => rfl
  | none =>
    have hnone := hbalance
    rw [haccounts.balances] at hnone
    rw [h.balances, getBalance_of_applyFills hnone]
    rfl

/-- After fills, saving the portfolio brings what is stored up to them. -/
theorem saved : (durable.saved portfolio).Holds (fills.foldl applyFill ledger) where
  positions i := by
    rw [h.saved_positions hkeyed haccounts, haccounts.positions]
  balances asset := by
    rw [h.saved_balances hkeyed haccounts, haccounts.balances]

end Holds

end Durable

namespace SimulationRuntime

variable {σ : Type*}

/-- What the runtime has stored. -/
def durable (runtime : SimulationRuntime σ) : Durable where
  orderRepository := runtime.orderRepository.getD {}
  fillRepository := runtime.fillRepository.getD {}
  positionRepository := runtime.positionRepository.getD {}
  balanceRepository := runtime.balanceRepository.getD {}

/-- The runtime stores what it does, and the portfolio and what is stored are both what the fill log gives. -/
structure Booked (runtime : SimulationRuntime σ) : Prop where
  fillRepository : runtime.fillRepository.isSome
  positionRepository : runtime.positionRepository.isSome
  balanceRepository : runtime.balanceRepository.isSome
  accounts : SameAccounts runtime.portfolioService runtime.durable.ledger
  holds : runtime.durable.Holds runtime.durable.ledger

namespace Booked

variable {runtime : SimulationRuntime σ}

/-- Nothing else of the runtime matters. -/
theorem congr (h : runtime.Booked) (runtime' : SimulationRuntime σ) (hkept : runtime'.kept = runtime.kept)
    (hfills : runtime'.fillRepository = runtime.fillRepository) : runtime'.Booked := by
  simp only [kept, Prod.mk.injEq] at hkept
  obtain ⟨hportfolio, hpositions, hbalances⟩ := hkept
  have hledger : runtime'.durable.ledger = runtime.durable.ledger := by
    simp only [Durable.ledger, SimulationRuntime.durable, hfills]
  refine ⟨hfills ▸ h.fillRepository, hpositions ▸ h.positionRepository, hbalances ▸ h.balanceRepository, ?_, ?_, ?_⟩
  · rw [hportfolio, hledger]
    exact h.accounts
  · rw [hledger]
    simpa only [SimulationRuntime.durable, hpositions] using h.holds.positions
  · rw [hledger]
    simpa only [SimulationRuntime.durable, hbalances] using h.holds.balances

/-- The fills of a result are applied and appended, and then everything is saved. -/
theorem handleExecutionResult (h : runtime.Booked) (result : ExecutionResult) :
    (runtime.handleExecutionResult result).Booked := by
  obtain ⟨log, hlog⟩ := Option.isSome_iff_exists.1 h.fillRepository
  obtain ⟨positions, hpositions⟩ := Option.isSome_iff_exists.1 h.positionRepository
  obtain ⟨balances, hbalances⟩ := Option.isSome_iff_exists.1 h.balanceRepository
  have happended := handleExecutionResult_appends runtime result log hlog
  have hledger : (runtime.handleExecutionResult result).durable.ledger =
      result.fills.foldl applyFill runtime.durable.ledger := by
    simp only [Durable.ledger, SimulationRuntime.durable, happended, hlog, Option.getD_some, List.foldl_append]
  have hsaved : (runtime.handleExecutionResult result).durable =
      { runtime.durable.saved (result.fills.foldl applyFill runtime.portfolioService) with
        orderRepository := (runtime.handleExecutionResult result).orderRepository.getD {}
        fillRepository := ⟨log.fills ++ result.fills⟩ } := by
    simp only [SimulationRuntime.durable, Durable.saved, happended, hpositions, hbalances, Option.getD_some]
    rw [SimulationRuntime.handleExecutionResult, hpositions, hbalances]
    rfl
  have haccounts : SameAccounts (runtime.handleExecutionResult result).portfolioService
      (result.fills.foldl applyFill runtime.durable.ledger) := h.accounts.applyFills result.fills
  have hholds := h.holds.saved (Durable.ledger_keyed _) haccounts
  refine ⟨?_, ?_, ?_, hledger ▸ haccounts, ?_⟩
  · rw [happended, Option.isSome_some]
  · simpa [SimulationRuntime.handleExecutionResult] using h.positionRepository
  · simpa [SimulationRuntime.handleExecutionResult] using h.balanceRepository
  · rw [hledger, hsaved]
    exact ⟨hholds.positions, hholds.balances⟩

theorem marketPhase (h : runtime.Booked) (event : EngineEvent) : (runtime.marketPhase event).Booked := by
  cases event with
  | market event =>
    show (runtime.onMarketEvent event).Booked
    rw [onMarketEvent_eq]
    have hstart := h.congr { runtime with
      marketStateStore := runtime.marketStateStore.apply event
      marketStateCache := runtime.marketStateCache.map fun cache : InMemoryMarketStateCache =>
        cache.upsertSnapshot (marketSnapshot event)
      executionEngine := (runtime.executionEngine.processMarketEvent event).1 } rfl rfl
    have hfilled := hstart.handleExecutionResult (runtime.executionEngine.processMarketEvent event).2
    exact { hfilled with accounts := sameAccounts_marked hfilled.accounts event }
  | timer => exact h
  | transaction => exact h

theorem handleRequest (h : runtime.Booked) (input : RuntimeInput) (k : Nat) (request : OrderRequest) :
    (runtime.handleRequest (input.paused k) (input.now k) request).Booked := by
  rcases handleRequest_cases runtime input k request with ⟨-, heq⟩ | ⟨-, heq⟩
  · rw [heq]
    exact (h.congr (runtime.submitted request) rfl rfl).handleExecutionResult _
  · rw [heq]
    exact h.congr _ rfl rfl

theorem handleRequests (h : runtime.Booked) (input : RuntimeInput) (k : Nat) (requests : List OrderRequest) :
    (handleRequests input k requests runtime).Booked := by
  induction requests generalizing k runtime with
  | nil => exact h
  | cons request requests ih => exact ih (h.handleRequest input k request) (k + 1)

theorem onEvent (h : runtime.Booked) (input : RuntimeInput) : (runtime.onEvent input).Booked := by
  rw [onEvent_eq]
  exact ((h.marketPhase input.event).congr (runtime.beforeRequests input) rfl rfl).handleRequests input 0 _

theorem run (h : runtime.Booked) (inputs : List RuntimeInput) : (machine.run runtime inputs).Booked :=
  Machine.invariant (P := Booked) (fun _ input _ h => h.onEvent input)
    (Machine.admissible_of_forall (fun _ _ _ => trivial) _ : machine.Admissible (fun _ _ => True) runtime inputs) h

end Booked

end SimulationRuntime

/-! ### Starting again -/

namespace RecoveryService

variable {σ : Type*} (service : RecoveryService)

private theorem restoreMark_accounts {runtime : SimulationRuntime σ} {portfolio : PortfolioService}
    (h : SameAccounts runtime.portfolioService portfolio) (position : Position) :
    SameAccounts (service.restoreMark runtime position).portfolioService portfolio := by
  unfold restoreMark
  split
  · unfold SimulationRuntime.restoreMarketSnapshot
    dsimp only
    split
    · exact h.setMarkPrice _ _
    · exact h
  · exact h

private theorem restoreMarks_accounts {runtime : SimulationRuntime σ} {portfolio : PortfolioService}
    (h : SameAccounts runtime.portfolioService portfolio) (positions : List Position) :
    SameAccounts (positions.foldl service.restoreMark runtime).portfolioService portfolio := by
  induction positions generalizing runtime with
  | nil => exact h
  | cons position positions ih => exact ih (service.restoreMark_accounts h position)

/-- Before it is marked, the restored portfolio has the positions and the balances of the snapshot over its own. -/
theorem restoreRuntime_accounts (snapshot : RecoverySnapshot) (runtime : SimulationRuntime σ)
    {portfolio : PortfolioService}
    (hpositions : ∀ i : String, (insertValues Position.key runtime.portfolioService.positions
      snapshot.positions)[i]?.map unmarked = (portfolio.getPosition i).map unmarked)
    (hbalances : insertValues BalanceSnapshot.asset runtime.portfolioService.balances snapshot.balances =
      portfolio.balances) :
    SameAccounts (service.restoreRuntime snapshot runtime).portfolioService portfolio := by
  refine service.restoreMarks_accounts ?_ snapshot.positions
  let positionsOf := fun runtime : SimulationRuntime σ => runtime.portfolioService.positions
  let balancesOf := fun runtime : SimulationRuntime σ => runtime.portfolioService.balances
  have hsaved : positionsOf (snapshot.positions.foldl SimulationRuntime.restorePosition runtime) =
      insertValues Position.key (positionsOf runtime) snapshot.positions :=
    (List.foldl_hom positionsOf fun _ _ => rfl).symm
  have hcredited : ∀ r, balancesOf (snapshot.balances.foldl SimulationRuntime.restoreBalance r) =
      insertValues BalanceSnapshot.asset (balancesOf r) snapshot.balances :=
    fun _ => (List.foldl_hom balancesOf fun _ _ => rfl).symm
  constructor
  · intro i
    show (positionsOf _)[i]?.map unmarked = _
    rw [foldl_frame (f := SimulationRuntime.restoreOpenOrder) (g := positionsOf) (fun _ _ => rfl),
      foldl_frame (f := SimulationRuntime.restoreBalance) (g := positionsOf) (fun _ _ => rfl), hsaved]
    exact hpositions i
  · show balancesOf _ = _
    rw [foldl_frame (f := SimulationRuntime.restoreOpenOrder) (g := balancesOf) (fun _ _ => rfl), hcredited,
      foldl_frame (f := SimulationRuntime.restorePosition) (g := balancesOf) (fun _ _ => rfl)]
    exact hbalances

/-- The recovery of a runtime changes none of its repositories. -/
private theorem restoreRuntime_stored (snapshot : RecoverySnapshot) (runtime : SimulationRuntime σ) :
    (service.restoreRuntime snapshot runtime).fillRepository = runtime.fillRepository ∧
      (service.restoreRuntime snapshot runtime).positionRepository = runtime.positionRepository ∧
      (service.restoreRuntime snapshot runtime).balanceRepository = runtime.balanceRepository := by
  have h := restoreRuntime_image service snapshot runtime
    (g := fun runtime => (runtime.fillRepository, runtime.positionRepository, runtime.balanceRepository))
    (f := fun repositories _ => repositories) (fun _ _ => rfl) (fun _ _ => rfl) (fun _ _ => rfl)
    fun runtime snapshot => by
      unfold SimulationRuntime.restoreMarketSnapshot
      dsimp only
      split <;> rfl
  simpa only [Prod.mk.injEq, id] using h.trans (foldl_frame (g := id) (fun _ _ => rfl) _ _)

end RecoveryService

/-- One life of a process, less the repositories that it shares with the lives before and after it. -/
structure Life (σ : Type*) where
  riskConfig : RiskConfig
  strategyCoordinator : StrategyCoordinator σ
  marketStateCache : Option InMemoryMarketStateCache := none
  transactionRepository : PostgresTransactionRepository := {}
  marketCache : InMemoryMarketStateCache := {}
  transactionCache : InMemoryTransactionCache := {}
  iteration (service : RecoveryService) : service.Iteration
  exchangeSnapshots : List MarketSnapshot := []
  inputs : List RuntimeInput

namespace Life

variable {σ : Type*} (life : Life σ) (durable : Durable)

def service : RecoveryService where
  transactionRepository := life.transactionRepository
  orderRepository := durable.orderRepository
  positionRepository := durable.positionRepository
  balanceRepository := durable.balanceRepository
  marketCache := life.marketCache
  transactionCache := life.transactionCache

/-- The recovery reads the repositories, and the runtime writes to them. -/
def session : Session σ where
  riskConfig := life.riskConfig
  config :=
    { strategyCoordinator := life.strategyCoordinator
      orderRepository := some durable.orderRepository
      fillRepository := some durable.fillRepository
      positionRepository := some durable.positionRepository
      balanceRepository := some durable.balanceRepository
      marketStateCache := life.marketStateCache }
  service := life.service durable
  iteration := life.iteration (life.service durable)
  exchangeSnapshots := life.exchangeSnapshots
  inputs := life.inputs

/-- A recovered runtime has stored what it has recovered from. -/
private theorem start_stored :
    (life.session durable).start.fillRepository = some durable.fillRepository ∧
      (life.session durable).start.positionRepository = some durable.positionRepository ∧
      (life.session durable).start.balanceRepository = some durable.balanceRepository :=
  RecoveryService.restoreRuntime_stored _ _ _

variable {durable}

/-- The recovery brings the portfolio back, up to the marks, whatever the configuration of the runtime is. -/
private theorem start_accounts {ledger : PortfolioService} (h : durable.Holds ledger) (hkeyed : ledger.Keyed)
    (config : SimulationRuntimeConfig σ) :
    SameAccounts { life.session durable with config := config }.start.portfolioService ledger := by
  refine RecoveryService.restoreRuntime_accounts _ _ _ (fun i => ?_) (Std.ExtTreeMap.ext_getElem? fun asset => ?_)
  · rw [← h.positions i]
    congr 1
    refine (getElem?_insertValues_of_perm (h.position_key hkeyed)
      (life.iteration (life.service durable)).positions_perm _ i).trans ?_
    simp [SimulationRuntime.fresh]
  · rw [← h.balances asset]
    refine (getElem?_insertValues_of_perm (h.balance_asset hkeyed)
      (life.iteration (life.service durable)).balances_perm _ asset).trans ?_
    simp [SimulationRuntime.fresh]

variable (h : durable.Holds durable.ledger)
include h

private theorem start_booked : (life.session durable).start.Booked := by
  obtain ⟨hfills, hpositions, hbalances⟩ := life.start_stored durable
  have hledger : (life.session durable).start.durable.ledger = durable.ledger := by
    simp only [Durable.ledger, SimulationRuntime.durable, hfills, Option.getD_some]
  refine ⟨by simp [hfills], by simp [hpositions], by simp [hbalances], ?_, ?_, ?_⟩
  · rw [hledger]
    exact life.start_accounts h durable.ledger_keyed _
  · rw [hledger]
    simpa only [SimulationRuntime.durable, hpositions, Option.getD_some] using h.positions
  · rw [hledger]
    simpa only [SimulationRuntime.durable, hbalances, Option.getD_some] using h.balances

/-- The accounts of a life are those of the log to its end. -/
private theorem finish_booked : (life.session durable).finish.Booked := (life.start_booked h).run life.inputs

omit h in
/-- A life only appends to the fill log. -/
private theorem finish_appends : ∃ fills, (life.session durable).finish.fillRepository =
    some ⟨durable.fillRepository.fills ++ fills⟩ :=
  ⟨_, SimulationRuntime.run_appends _ life.inputs _ (life.start_stored durable).1⟩

end Life

namespace Durable

variable {σ : Type*}

/-- What is durable after one more life. -/
def live (durable : Durable) (life : Life σ) : Durable := (life.session durable).finish.durable

private theorem holds_lives {durable : Durable} (h : durable.Holds durable.ledger) (lives : List (Life σ)) :
    (lives.foldl live durable).Holds (lives.foldl live durable).ledger := by
  induction lives generalizing durable with
  | nil => exact h
  | cons life lives ih => exact ih (life.finish_booked h).holds

end Durable

/-- However often a process with empty repositories has started again, and whatever it has met in its lives, the
fills of the earlier lives stand first in the fill log, and for every instrument the position of the portfolio and the
stored one are, their unrealized results apart, the position that the whole log gives when it is applied to an empty
portfolio; the balances and the stored balances are those of the log too. -/
theorem portfolio_continues {σ : Type*} (lives : List (Life σ)) (life : Life σ) :
    let durable := lives.foldl Durable.live {}
    let runtime := (life.session durable).finish
    ∃ fills, runtime.fillRepository = some ⟨fills⟩ ∧ durable.fillRepository.fills <+: fills ∧
      let replayed : PortfolioService := fills.foldl applyFill {}
      (∀ i, (runtime.portfolioService.getPosition i).map unmarked = (replayed.getPosition i).map unmarked ∧
        (runtime.storedPosition i).map unmarked = (replayed.getPosition i).map unmarked) ∧
      ∀ asset, runtime.portfolioService.balances[asset]? = replayed.balances[asset]? ∧
        runtime.storedBalance asset = replayed.balances[asset]? := by
  intro durable runtime
  have hbooked : runtime.Booked := life.finish_booked (Durable.holds_lives .empty lives)
  obtain ⟨fills, hfills⟩ : ∃ fills, runtime.fillRepository = some ⟨durable.fillRepository.fills ++ fills⟩ :=
    life.finish_appends
  obtain ⟨positions, hpositions⟩ := Option.isSome_iff_exists.1 hbooked.positionRepository
  obtain ⟨balances, hbalances⟩ := Option.isSome_iff_exists.1 hbooked.balanceRepository
  have hledger : runtime.durable.ledger = (durable.fillRepository.fills ++ fills).foldl applyFill {} := by
    simp only [Durable.ledger, SimulationRuntime.durable, hfills, Option.getD_some]
  refine ⟨_, hfills, List.prefix_append _ _, fun i => ?_, fun asset => ?_⟩
  · rw [← hledger]
    refine ⟨hbooked.accounts.positions i, ?_⟩
    rw [← hbooked.holds.positions i]
    simp only [SimulationRuntime.storedPosition, SimulationRuntime.durable, hpositions, Option.bind_some,
      Option.getD_some]
  · rw [← hledger]
    refine ⟨congrArg (·[asset]?) hbooked.accounts.balances, ?_⟩
    rw [← hbooked.holds.balances asset]
    simp only [SimulationRuntime.storedBalance, SimulationRuntime.durable, hbalances, Option.bind_some,
      Option.getD_some]

end Wall
