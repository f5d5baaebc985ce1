import Wall.ContinuedPortfolio
import Wall.LibpqRepositories

/-!
# Runs of the application

`Application::run` gives its runtime no repositories.  It recovers from the database, runs the controller once, and then
saves the positions and the balances of the portfolio itself.  So no order is ever stored and every run starts with an
empty matching engine, and yet the portfolio goes on from run to run, with every number as `std::to_string` prints and
`std::stod` reads it (`application_runs`).
-/

namespace Wall

open CString KeyedMap PortfolioService

namespace TradingCore

/-- The portfolio after a call is the one after its fills, up to the marks. -/
theorem accounts_step (core : TradingCore) (op : TradingOp) : SameAccounts (core.step op).portfolio
    ((MatchingEngine.machine.step core.engine op.engineOp).2.fills.foldl applyFill core.portfolio) := by
  cases op with
  | market event =>
    show SameAccounts (core.onMarket event).portfolio
      ((core.engine.processMarketEvent event).2.fills.foldl applyFill core.portfolio)
    unfold onMarket
    dsimp only
    split
    · exact (SameAccounts.refl _).setMarkPrice _ _
    · exact .refl _
  | submit request => exact .refl _

private theorem accounts_run (core : TradingCore) (ops : List TradingOp) {portfolio : PortfolioService}
    (h : SameAccounts core.portfolio portfolio) :
    SameAccounts (machine.run core ops).portfolio ((core.fills ops).foldl applyFill portfolio) := by
  induction ops generalizing core portfolio with
  | nil => exact h
  | cons op ops ih =>
    rw [fills, List.foldl_append]
    refine ih (core.step op) ?_
    exact (core.accounts_step op).trans (h.applyFills (MatchingEngine.machine.step core.engine op.engineOp).2.fills)

end TradingCore

/-! ### Portfolios whose numbers have been read back -/

namespace PortfolioService

/-- The positions and balances with their numbers changed. -/
def convert (f : ℚ → ℚ) (portfolio : PortfolioService) : PortfolioService where
  positions := portfolio.positions.map fun _ => Position.convert f
  balances := portfolio.balances.map fun _ => BalanceSnapshot.convert f

/-- No text of the portfolio has a NUL. -/
structure NulFree (portfolio : PortfolioService) : Prop where
  positions : ∀ (i : String) (position : Position), portfolio.positions[i]? = some position →
    ∀ text ∈ position.texts, '\x00' ∉ text.toList
  balances : ∀ (asset : String) (balance : BalanceSnapshot), portfolio.balances[asset]? = some balance →
    '\x00' ∉ balance.asset.toList

variable {f : ℚ → ℚ} {portfolio portfolio' : PortfolioService}

private theorem getElem?_convert_positions (i : String) :
    (portfolio.convert f).positions[i]? = portfolio.positions[i]?.map (Position.convert f) :=
  Std.ExtTreeMap.getElem?_map

private theorem getElem?_convert_balances (asset : String) :
    (portfolio.convert f).balances[asset]? = portfolio.balances[asset]?.map (BalanceSnapshot.convert f) :=
  Std.ExtTreeMap.getElem?_map

theorem SameAccounts.convert (hzero : f 0 = 0) (h : SameAccounts portfolio portfolio') :
    SameAccounts (portfolio.convert f) (portfolio'.convert f) where
  positions i := by
    have hunmarked (position : Position) : unmarked (position.convert f) = (unmarked position).convert f := by
      simp only [unmarked, Position.convert, hzero]
    have hi := congrArg (Option.map (Position.convert f)) (h.positions i)
    rw [getPosition, getPosition] at hi ⊢
    simpa only [getElem?_convert_positions, Option.map_map, Function.comp_def, hunmarked] using hi
  balances := congrArg (Std.ExtTreeMap.map fun _ => BalanceSnapshot.convert f) h.balances

theorem Keyed.convert (h : portfolio.Keyed) : (portfolio.convert f).Keyed := by
  refine ⟨fun i position hposition => ?_, fun asset balance hbalance => ?_⟩
  · rw [getElem?_convert_positions, Option.map_eq_some_iff] at hposition
    obtain ⟨old, hold, rfl⟩ := hposition
    exact h.positions i old hold
  · rw [getElem?_convert_balances, Option.map_eq_some_iff] at hbalance
    obtain ⟨old, hold, rfl⟩ := hbalance
    exact h.balances asset old hold

theorem NulFree.convert (h : portfolio.NulFree) : (portfolio.convert f).NulFree := by
  refine ⟨fun i position hposition => ?_, fun asset balance hbalance => ?_⟩
  · rw [getElem?_convert_positions, Option.map_eq_some_iff] at hposition
    obtain ⟨old, hold, rfl⟩ := hposition
    exact h.positions i old hold
  · rw [getElem?_convert_balances, Option.map_eq_some_iff] at hbalance
    obtain ⟨old, hold, rfl⟩ := hbalance
    exact h.balances asset old hold

private theorem SameAccounts.nulFree (h : SameAccounts portfolio portfolio') (hfree : portfolio'.NulFree) :
    portfolio.NulFree := by
  refine ⟨fun i position hposition => ?_, fun asset balance hbalance => ?_⟩
  · have hi := h.positions i
    rw [getPosition, getPosition, hposition, Option.map_some, eq_comm, Option.map_eq_some_iff] at hi
    obtain ⟨position', hposition', hsame⟩ := hi
    have htexts : position.texts = position'.texts := by
      obtain ⟨hid, hinstrument⟩ := same_of_unmarked hsame
      rw [Position.texts, Position.texts, hid, hinstrument]
    exact htexts ▸ hfree.positions i position' hposition'
  · rw [h.balances] at hbalance
    exact hfree.balances asset balance hbalance

private theorem moveBalance_nulFree {balances : StringMap BalanceSnapshot}
    (h : ∀ (a : String) (balance : BalanceSnapshot), balances[a]? = some balance → '\x00' ∉ balance.asset.toList)
    {asset : String} (hasset : '\x00' ∉ asset.toList) (amount : ℚ) :
    ∀ (a : String) (balance : BalanceSnapshot), (moveBalance balances asset amount)[a]? = some balance →
      '\x00' ∉ balance.asset.toList :=
  forall_modifyD h hasset

private theorem openPosition_nulFree {position : Position} {fill : FillEvent}
    (h : position.positionId ≠ "" → ∀ text ∈ position.texts, '\x00' ∉ text.toList)
    (hfill : ∀ text ∈ fill.instrument.texts, '\x00' ∉ text.toList) :
    ∀ text ∈ (openPosition position fill).texts, '\x00' ∉ text.toList := by
  by_cases hid : position.positionId = ""
  · rw [openPosition, if_pos hid]
    refine List.forall_mem_cons.2 ⟨?_, hfill⟩
    have hinstrument := hfill fill.instrument.instrumentId (List.mem_cons_self ..)
    rw [String.toList_append, List.mem_append, not_or]
    exact ⟨by decide, hinstrument⟩
  · rw [openPosition, if_neg hid]
    exact h hid

theorem NulFree.applyFill (h : portfolio.NulFree) {fill : FillEvent}
    (hfill : ∀ text ∈ fill.instrument.texts, '\x00' ∉ text.toList) : (portfolio.applyFill fill).NulFree := by
  constructor
  · refine forall_modifyD h.positions ?_
    obtain ⟨hid, hinstrument⟩ := applyFillToPosition_same portfolio.markPrices
      (openPosition (portfolio.positions[fill.instrument.instrumentId]?.getD default) fill) fill
    rw [Position.texts, hid, hinstrument]
    refine openPosition_nulFree (fun hid => ?_) hfill
    cases hold : portfolio.positions[fill.instrument.instrumentId]? with
    | none =>
      rw [hold] at hid
      exact absurd rfl hid
    | some position => exact h.positions _ position hold
  · have hbase : '\x00' ∉ fill.instrument.baseAsset.toList := hfill _ (by simp [Instrument.texts])
    have hquote : '\x00' ∉ fill.instrument.quoteAsset.toList := hfill _ (by simp [Instrument.texts])
    unfold PortfolioService.applyFill applyFillToBalances
    dsimp only
    cases fill.side with
    | buy => exact moveBalance_nulFree (moveBalance_nulFree h.balances hbase _) hquote _
    | sell => exact moveBalance_nulFree (moveBalance_nulFree h.balances hbase _) hquote _

theorem NulFree.applyFills (h : portfolio.NulFree) {fills : List FillEvent}
    (hfills : ∀ fill ∈ fills, ∀ text ∈ fill.instrument.texts, '\x00' ∉ text.toList) :
    (fills.foldl PortfolioService.applyFill portfolio).NulFree := by
  induction fills generalizing portfolio with
  | nil => exact h
  | cons fill fills ih =>
    rw [List.forall_mem_cons] at hfills
    exact ih (h.applyFill hfills.1) hfills.2

end PortfolioService

/-! ### One run -/

/-- A run of the application on the database, with the orders in which the rows of its queries come. -/
structure ApplicationRun (σ : Type*) where
  riskConfig : RiskConfig
  strategyCoordinator : StrategyCoordinator σ
  marketCache : InMemoryMarketStateCache := {}
  exchangeSnapshots : List MarketSnapshot := []
  inputs : List RuntimeInput
  openOrderRows : List OrderRecord → List OrderRecord := id
  openOrderRows_perm : ∀ rows, (openOrderRows rows).Perm rows := by exact fun _ => .refl _
  positionRows : List Position → List Position := id
  positionRows_perm : ∀ rows, (positionRows rows).Perm rows := by exact fun _ => .refl _
  balanceRows : List BalanceSnapshot → List BalanceSnapshot := id
  balanceRows_perm : ∀ rows, (balanceRows rows).Perm rows := by exact fun _ => .refl _

/-- `save_position` and `save_balance` for all of a portfolio. -/
def closingSaves (portfolio : PortfolioService) : List StorageCall :=
  portfolio.allPositions.map .savePosition ++ portfolio.allBalances.map .saveBalance

namespace ApplicationRun

variable {σ : Type*} (run : ApplicationRun σ)

/-- What `RecoveryService::recover` returns. -/
def recovered (database : LibpqDatabase) : Option RecoverySnapshot := do
  let snapshot ← database.recoverySnapshot
  return { snapshot with
    openOrders := run.openOrderRows snapshot.openOrders
    positions := run.positionRows snapshot.positions
    balances := run.balanceRows snapshot.balances }

/-- The runtime with the snapshot put into it. -/
def restored (snapshot : RecoverySnapshot) : SimulationRuntime σ :=
  let service : RecoveryService :=
    { marketCache := (RecoveryService.warmSnapshots run.exchangeSnapshots snapshot.positions).foldl
        InMemoryMarketStateCache.upsertSnapshot run.marketCache }
  service.restoreRuntime snapshot
    (SimulationRuntime.fresh run.riskConfig { strategyCoordinator := run.strategyCoordinator })

/-- The recovered runtime; none where the recovery throws. -/
def start (database : LibpqDatabase) : Option (SimulationRuntime σ) := (run.recovered database).map run.restored

/-- The runtime at the end. -/
def finish (runtime : SimulationRuntime σ) : SimulationRuntime σ := SimulationRuntime.machine.run runtime run.inputs

/-- The database after the run. -/
def after (database : LibpqDatabase) : Option LibpqDatabase :=
  (run.start database).map fun runtime =>
    (closingSaves (run.finish runtime).portfolioService).foldl LibpqDatabase.call database

/-- The fills of the run, in order. -/
def fills (database : LibpqDatabase) : List FillEvent :=
  match run.start database with
  | some runtime => runtime.core.fills (runtime.callsOf run.inputs)
  | none => []

/-- The fills of each run, where every run finds what the one before has left. -/
def fillsOf : LibpqDatabase → List (ApplicationRun σ) → List (List FillEvent)
  | _, [] => []
  | database, run :: runs =>
    run.fills database ::
      match run.after database with
      | some database => fillsOf database runs
      | none => []

end ApplicationRun

/-- The portfolio after some runs with these fills, each of which starts from the portfolio at the end of the one before
with the numbers changed. -/
def continuedFrom (f : ℚ → ℚ) (portfolio : PortfolioService) (fills : List (List FillEvent)) : PortfolioService :=
  fills.foldl (fun portfolio fills => fills.foldl applyFill (portfolio.convert f)) portfolio

/-! ### What a run leaves -/

/-- Repositories that hold the positions and balances of a portfolio and nothing else. -/
def PortfolioService.stored (portfolio : PortfolioService) : RecoveryService where
  positionRepository := { positions := portfolio.positions }
  balanceRepository := { balances := portfolio.balances }

private theorem foldl_savePosition_call (service : RecoveryService) (positions : List Position) :
    (positions.map StorageCall.savePosition).foldl RecoveryService.call service =
      { service with
        positionRepository := positions.foldl InMemoryPositionRepository.savePosition service.positionRepository } := by
  induction positions generalizing service with
  | nil => rfl
  | cons position positions ih => exact ih _

private theorem foldl_saveBalance_call (service : RecoveryService) (balances : List BalanceSnapshot) :
    (balances.map StorageCall.saveBalance).foldl RecoveryService.call service =
      { service with
        balanceRepository := balances.foldl InMemoryBalanceRepository.saveBalance service.balanceRepository } := by
  induction balances generalizing service with
  | nil => rfl
  | cons balance balances ih => exact ih _

/-- Texts without a NUL are stored as they are. -/
private theorem map_cut_closingSaves {portfolio : PortfolioService} (h : portfolio.NulFree) :
    (closingSaves portfolio).map StorageCall.cut = closingSaves portfolio := by
  have hposition : ∀ position ∈ portfolio.allPositions,
      (StorageCall.savePosition position).cut = .savePosition position := by
    intro position hposition
    obtain ⟨⟨i, _⟩, hmem, rfl⟩ := List.mem_map.1 hposition
    have hfree := h.positions i _ (Std.ExtTreeMap.mem_toList_iff_getElem?_eq_some.1 hmem)
    simp only [Position.texts, Instrument.texts, List.forall_mem_cons] at hfree
    simp [StorageCall.cut, Instrument.cut, cString_of_notMem, hfree]
  have hbalance : ∀ balance ∈ portfolio.allBalances, (StorageCall.saveBalance balance).cut = .saveBalance balance := by
    intro balance hbalance
    obtain ⟨⟨asset, _⟩, hmem, rfl⟩ := List.mem_map.1 hbalance
    have hfree := h.balances asset _ (Std.ExtTreeMap.mem_toList_iff_getElem?_eq_some.1 hmem)
    simp [StorageCall.cut, cString_of_notMem hfree]
  rw [closingSaves, List.map_append, List.map_map, List.map_map]
  exact congrArg₂ _ (List.map_congr_left hposition) (List.map_congr_left hbalance)

/-- The closing saves of a portfolio that has every position and balance of what is stored leave that portfolio. -/
private theorem foldl_closingSaves {stored portfolio : PortfolioService} (hkeyed : portfolio.Keyed)
    (hpositions : ∀ i, portfolio.getPosition i = none → stored.getPosition i = none)
    (hbalances : ∀ asset : String, portfolio.balances[asset]? = none → stored.balances[asset]? = none) :
    (closingSaves portfolio).foldl RecoveryService.call stored.stored = portfolio.stored := by
  have hsavedPositions : (portfolio.allPositions.foldl InMemoryPositionRepository.savePosition
      stored.stored.positionRepository).positions = portfolio.positions := by
    rw [foldl_savePosition]
    exact insertValues_of_perm (fun i position hposition => (hkeyed.positions i position hposition).2) (.refl _)
      hpositions
  have hsavedBalances : (portfolio.allBalances.foldl InMemoryBalanceRepository.saveBalance
      stored.stored.balanceRepository).balances = portfolio.balances := by
    rw [foldl_saveBalance]
    exact insertValues_of_perm hkeyed.balances (.refl _) hbalances
  rw [closingSaves, List.foldl_append, foldl_savePosition_call, foldl_saveBalance_call]
  dsimp only [PortfolioService.stored]
  rw [← hsavedPositions, ← hsavedBalances]
  rfl

/-- The database holds a portfolio whose texts have no NUL, and no order. -/
structure Left (numbers : LibpqNumbers) (database : LibpqDatabase) (portfolio : PortfolioService) : Prop where
  numbers_eq : database.numbers = numbers
  stores : Stores database portfolio.stored
  keyed : portfolio.Keyed
  nulFree : portfolio.NulFree

namespace Left

variable {numbers : LibpqNumbers} {print rnd : ℚ → ℚ} (hnumbers : numbers.Documented print rnd)
  {database : LibpqDatabase} {portfolio : PortfolioService} (h : Left numbers database portfolio)
  {σ : Type*} (run : ApplicationRun σ)

theorem empty : Left numbers { numbers := numbers } {} :=
  ⟨rfl, stores_empty numbers, keyed_empty, by simp, by simp⟩

include hnumbers h

/-- The next run recovers no order and, up to the marks, the portfolio with its numbers read back. -/
private theorem start_eq : ∃ start, run.start database = some start ∧ start.executionEngine = {} ∧
    SameAccounts start.portfolioService (portfolio.convert fun x => rnd (print x)) := by
  obtain ⟨iteration, -, hrecovered⟩ := h.stores.recovers (h.numbers_eq ▸ hnumbers)
  let f : ℚ → ℚ := fun x => rnd (print x)
  let snapshot := ((portfolio.stored.recover iteration []).1.convert f)
  let read : RecoverySnapshot := { snapshot with
    openOrders := run.openOrderRows snapshot.openOrders
    positions := run.positionRows snapshot.positions
    balances := run.balanceRows snapshot.balances }
  have hread : run.recovered database = some read := by
    rw [ApplicationRun.recovered, hrecovered []]
    rfl
  refine ⟨run.restored read, by rw [ApplicationRun.start, hread, Option.map_some], ?_, ?_⟩
  -- no order is ever stored, so none comes back, in whatever order the rows are read
  · have hnone : iteration.openOrders = [] := by
      have hperm := iteration.openOrders_perm
      have hempty : portfolio.stored.orderRepository.allOpenOrders = [] := by
        simp [PortfolioService.stored, InMemoryOrderRepository.allOpenOrders]
      exact List.perm_nil.1 (hempty ▸ hperm)
    have horders : read.openOrders = [] := by
      refine List.perm_nil.1 ((run.openOrderRows_perm _).trans ?_)
      show (iteration.openOrders.map (OrderRecord.convert f)).Perm []
      rw [hnone, List.map_nil]
    rw [ApplicationRun.restored, RecoveryService.restoreRuntime_executionEngine, horders]
    rfl
  · have hpositions : read.positions.Perm ((portfolio.convert f).positions.toList.map Prod.snd) := by
      refine (run.positionRows_perm _).trans ((iteration.positions_perm.map (Position.convert f)).trans ?_)
      rw [PortfolioService.convert, Std.ExtTreeMap.toList_map, InMemoryPositionRepository.allPositions, List.map_map,
        List.map_map]
      exact .refl _
    have hbalances : read.balances.Perm ((portfolio.convert f).balances.toList.map Prod.snd) := by
      refine (run.balanceRows_perm _).trans ((iteration.balances_perm.map (BalanceSnapshot.convert f)).trans ?_)
      rw [PortfolioService.convert, Std.ExtTreeMap.toList_map, InMemoryBalanceRepository.allBalances, List.map_map,
        List.map_map]
      exact .refl _
    -- positions and balances are keyed by themselves, so the order of the rows does not matter
    have hkeyed := h.keyed.convert (f := f)
    refine RecoveryService.restoreRuntime_accounts _ _ _ (fun i => ?_) ?_
    · have hrestored : insertValues Position.key ∅ read.positions = (portfolio.convert f).positions :=
        insertValues_of_perm (fun i position hposition => (hkeyed.positions i position hposition).2) hpositions
          fun _ _ => Std.ExtTreeMap.getElem?_empty
      exact congrArg (fun positions : StringMap Position => positions[i]?.map unmarked) hrestored
    · exact insertValues_of_perm hkeyed.balances hbalances fun _ _ => Std.ExtTreeMap.getElem?_empty

/-- At the end of the next run the portfolio is what the run's fills make of that, up to the marks, and the database
holds it. -/
private theorem after_run (hfills : ∀ fill ∈ run.fills database, ∀ text ∈ fill.instrument.texts, '\x00' ∉ text.toList) :
    ∃ start after, run.start database = some start ∧ run.after database = some after ∧
      start.executionEngine = {} ∧ Left numbers after (run.finish start).portfolioService ∧
      SameAccounts (run.finish start).portfolioService
        ((run.fills database).foldl applyFill (portfolio.convert fun x => rnd (print x))) := by
  obtain ⟨start, hstart, hengine, haccounts⟩ := h.start_eq hnumbers run
  have hrun : run.fills database = start.core.fills (start.callsOf run.inputs) := by
    rw [ApplicationRun.fills, hstart]
  have hfinish : SameAccounts (run.finish start).portfolioService
      ((run.fills database).foldl applyFill (portfolio.convert fun x => rnd (print x))) := by
    have hcore := start.core.accounts_run (start.callsOf run.inputs) haccounts
    rw [← SimulationRuntime.run_core] at hcore
    rwa [hrun]
  have hkeyed := hfinish.keyed (h.keyed.convert.applyFills (run.fills database))
  have hfree := hfinish.nulFree (h.nulFree.convert.applyFills hfills)
  refine ⟨start, _, hstart, by rw [ApplicationRun.after, hstart, Option.map_some], hengine, ⟨?_, ?_, hkeyed, hfree⟩,
    hfinish⟩
  · rw [foldl_frame (g := LibpqDatabase.numbers) LibpqDatabase.call_numbers, h.numbers_eq]
  · have hstores := h.stores.calls (closingSaves (run.finish start).portfolioService)
    rw [map_cut_closingSaves hfree, foldl_closingSaves hkeyed] at hstores
    · exact hstores
    · intro i hi
      have hnone := hfinish.positions i
      rw [hi, Option.map_none, eq_comm, Option.map_eq_none_iff] at hnone
      have hold := getPosition_of_applyFills hnone
      rwa [getPosition, getElem?_convert_positions, Option.map_eq_none_iff] at hold
    · intro asset hasset
      rw [hfinish.balances] at hasset
      have hold := getBalance_of_applyFills hasset
      rwa [getElem?_convert_balances, Option.map_eq_none_iff] at hold

/-- Some runs leave, up to the marks, the portfolio that their fills give. -/
private theorem after_runs {ledger : PortfolioService} (haccounts : SameAccounts portfolio ledger)
    (runs : List (ApplicationRun σ))
    (htexts : ∀ fills ∈ ApplicationRun.fillsOf database runs, ∀ fill ∈ fills, ∀ text ∈ fill.instrument.texts,
      '\x00' ∉ text.toList) :
    ∃ database' portfolio', runs.foldlM (fun database run => run.after database) database = some database' ∧
      Left numbers database' portfolio' ∧ SameAccounts portfolio'
        (continuedFrom (fun x => rnd (print x)) ledger (ApplicationRun.fillsOf database runs)) := by
  induction runs generalizing database portfolio ledger with
  | nil => exact ⟨database, portfolio, rfl, h, haccounts⟩
  | cons run runs ih =>
    rw [ApplicationRun.fillsOf, List.forall_mem_cons] at htexts
    obtain ⟨start, after, -, hafter, -, hleft, hfinish⟩ := h.after_run hnumbers run htexts.1
    rw [hafter] at htexts
    have hledger := hfinish.trans ((haccounts.convert hnumbers.zero).applyFills (run.fills database))
    obtain ⟨database', portfolio', hruns, hleft', haccounts'⟩ := ih hleft hledger htexts.2
    refine ⟨database', portfolio', ?_, hleft', ?_⟩
    · rw [List.foldlM_cons, hafter]
      exact hruns
    · rw [ApplicationRun.fillsOf, hafter]
      exact haccounts'

end Left

private theorem ApplicationRun.fillsOf_prefix {σ : Type*} (database : LibpqDatabase) (runs : List (ApplicationRun σ))
    (run : ApplicationRun σ) : fillsOf database runs <+: fillsOf database (runs ++ [run]) := by
  induction runs generalizing database with
  | nil => exact List.nil_prefix
  | cons first runs ih =>
    rw [List.cons_append, fillsOf, fillsOf, List.cons_prefix_cons]
    refine ⟨rfl, ?_⟩
    cases first.after database with
    | none => exact List.prefix_refl []
    | some after => exact ih after

private theorem ApplicationRun.fillsOf_concat {σ : Type*} {runs : List (ApplicationRun σ)} (run : ApplicationRun σ)
    {database database' : LibpqDatabase}
    (h : runs.foldlM (fun database run => run.after database) database = some database') :
    fillsOf database (runs ++ [run]) = fillsOf database runs ++ [run.fills database'] := by
  induction runs generalizing database with
  | nil =>
    cases h
    rw [List.nil_append, fillsOf, fillsOf, List.nil_append]
    cases run.after database' <;> rfl
  | cons first runs ih =>
    rw [List.foldlM_cons] at h
    obtain ⟨after, hafter, hruns⟩ := Option.bind_eq_some_iff.1 h
    rw [List.cons_append, fillsOf, fillsOf, hafter]
    exact congrArg (first.fills database :: ·) (ih hruns)

/-- However often the application has run on a database that was empty at first, with fills of instruments whose texts
have no NUL, no run throws in its recovery, the next one starts with an empty matching engine, and no order is stored
after it.  Every stored position and balance is that of the portfolio at the end of the run, marks included, with the
numbers as `std::to_string` prints and `std::stod` reads them.  Up to the marks this portfolio is what the fills of the
run give when they are applied to the portfolio at the end of the run before, read back in that way. -/
theorem application_runs {numbers : LibpqNumbers} {print rnd : ℚ → ℚ} (hnumbers : numbers.Documented print rnd)
    {σ : Type*} (runs : List (ApplicationRun σ)) (run : ApplicationRun σ)
    (htexts : ∀ fills ∈ ApplicationRun.fillsOf { numbers := numbers } (runs ++ [run]), ∀ fill ∈ fills,
      ∀ text ∈ fill.instrument.texts, '\x00' ∉ text.toList) :
    let stored := fun x => rnd (print x)
    let replayed := continuedFrom stored {} (ApplicationRun.fillsOf { numbers := numbers } (runs ++ [run]))
    ∃ database start after, runs.foldlM (fun database run => run.after database) { numbers := numbers } =
        some database ∧
      run.start database = some start ∧ run.after database = some after ∧
      start.executionEngine = {} ∧ after.allOpenOrders = some [] ∧
      (∀ i, after.getPosition i =
          some (((run.finish start).portfolioService.getPosition (cString i)).map (Position.convert stored)) ∧
        ((run.finish start).portfolioService.getPosition i).map unmarked = (replayed.getPosition i).map unmarked) ∧
      ∀ asset : String, after.getBalance asset =
          some ((run.finish start).portfolioService.balances[cString asset]?.map (BalanceSnapshot.convert stored)) ∧
        (run.finish start).portfolioService.balances[asset]? = replayed.balances[asset]? := by
  intro stored replayed
  obtain ⟨database, portfolio, hruns, hleft, haccounts⟩ := Left.empty.after_runs hnumbers (.refl {}) runs
    fun fills hfills => htexts fills ((ApplicationRun.fillsOf_prefix _ runs run).subset hfills)
  have hfills := ApplicationRun.fillsOf_concat run hruns
  rw [hfills, List.forall_mem_append, List.forall_mem_singleton] at htexts
  obtain ⟨start, after, hstart, hafter, hengine, hend, hfinish⟩ := hleft.after_run hnumbers run htexts.2
  have haccounts' : SameAccounts (run.finish start).portfolioService replayed := by
    have hreplayed := hfinish.trans ((haccounts.convert hnumbers.zero).applyFills (run.fills database))
    simpa only [replayed, hfills, continuedFrom, List.foldl_append, List.foldl_cons, List.foldl_nil] using hreplayed
  have hread : after.numbers.Documented print rnd := hend.numbers_eq ▸ hnumbers
  refine ⟨database, start, after, hruns, hstart, hafter, hengine, ?_, fun i => ⟨?_, ?_⟩, fun asset => ⟨?_, ?_⟩⟩
  · have hnone : after.orderRecords.rows = [] := by
      have hperm : after.orderRecords.rows.Perm ((∅ : StringMap OrderRecord).toList.map Prod.snd) :=
        hend.stores.orders.perm
      exact List.perm_nil.1 hperm
    rw [LibpqDatabase.allOpenOrders, hnone]
    rfl
  · exact hend.stores.getPosition hread i
  · exact haccounts'.positions i
  · exact hend.stores.getBalance hread asset
  · rw [haccounts'.balances]

/-- A run whose strategy buys at every event, and which gets an ask for its first order at its second event. -/
def exampleApplicationRun : ApplicationRun Unit where
  riskConfig := { maxOrderQuantity := 10, maxOrderNotional := 1000, maxPositionQuantity := 10, staleAfterMs := 1000 }
  strategyCoordinator := StrategyCoordinator.addStrategy {}
    (SimulationRuntime.exampleStrategy [MatchingEngine.exampleRequest .buy 1 100]) ()
  inputs := [SimulationRuntime.exampleInput [], SimulationRuntime.exampleInput [{ price := 100, quantity := 1 }]]

/-- Two such runs have bought twice. -/
theorem application_runs_exampleApplicationRun :
    ∃ database after, [exampleApplicationRun].foldlM (fun database run => run.after database)
        { numbers := .decimal } = some database ∧
      exampleApplicationRun.after database = some after ∧
      (after.getPosition "btc-usdt").map (Option.map Position.netQuantity) = some (some 2) := by
  obtain ⟨database, start, after, hruns, -, hafter, -, -, hpositions, -⟩ :=
    application_runs LibpqNumbers.decimal_documented [exampleApplicationRun] exampleApplicationRun (by decide +kernel)
  obtain ⟨hstored, haccounts⟩ := hpositions "btc-usdt"
  refine ⟨database, after, hruns, hafter, ?_⟩
  have hbought := congrArg (Option.map Position.netQuantity) haccounts
  rw [Option.map_map, Option.map_map] at hbought
  have hcut : cString "btc-usdt" = "btc-usdt" := by decide +kernel
  rw [hstored, hcut, Option.map_some, Option.map_map]
  show some (Option.map ((fun x => toDouble (Rounding.roundTo ((10 : ℚ) ^ (-6 : ℤ)) x)) ∘ Position.netQuantity) _) = _
  rw [← Option.map_map]
  refine congrArg some ((congrArg (Option.map _) hbought).trans ?_)
  decide +kernel

end Wall
