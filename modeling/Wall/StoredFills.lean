import Wall.LibpqSession
import Wall.Restarts
import Wall.Lib.DistinctLog

/-!
# Stored fills across restarts

`LibpqFillRepository::append_fill` inserts a row with `ON CONFLICT (fill_id) DO NOTHING`, and the fill ids come from a
counter of the matching engine that starts at one in every process.  So the fills of a process have distinct ids
(`fillIds_run`), and the fills of two processes have not: the table drops the first fills of the second one.  What the
table holds is read back as it was appended exactly if its texts have no NUL and its numbers at most six decimals
(`Storable`).
-/

namespace Wall

open CString

/-! ### The table of fills -/

/-- The table behind `LibpqFillRepository`, its rows in the order of `sequence_id`; they hold the numbers as
`append_fill` has them, `numbers` is how these are read. -/
structure LibpqFillRepository where
  numbers : LibpqNumbers
  rows : List FillEvent := []

namespace LibpqFillRepository

/-- The texts of a row have passed `exec_params`. -/
def fillRow (fill : FillEvent) : FillEvent :=
  { fill with
    fillId := cString fill.fillId
    orderId := cString fill.orderId
    instrument := { fill.instrument with
      instrumentId := cString fill.instrument.instrumentId
      exchange := cString fill.instrument.exchange
      symbol := cString fill.instrument.symbol
      baseAsset := cString fill.instrument.baseAsset
      quoteAsset := cString fill.instrument.quoteAsset } }

def appendFill (repository : LibpqFillRepository) (fill : FillEvent) : LibpqFillRepository :=
  { repository with rows := DistinctLog.append FillEvent.fillId repository.rows (fillRow fill) }

def readFill (numbers : LibpqNumbers) (row : FillEvent) : Option FillEvent := do
  let tickSize ← numbers.read row.instrument.tickSize
  let lotSize ← numbers.read row.instrument.lotSize
  let price ← numbers.read row.price
  let quantity ← numbers.read row.quantity
  let fee ← numbers.read row.fee
  return { row with
    instrument := { row.instrument with tickSize := tickSize, lotSize := lotSize }
    price := price
    quantity := quantity
    fee := fee }

/-- None where `std::stod` throws. -/
def allFills (repository : LibpqFillRepository) : Option (List FillEvent) :=
  repository.rows.mapM (readFill repository.numbers)

/-- The fill's texts have no NUL, and its numbers at most six decimals. -/
structure Storable (rnd : ℚ → ℚ) (fill : FillEvent) : Prop where
  texts : ∀ text ∈ [fill.fillId, fill.orderId, fill.instrument.instrumentId, fill.instrument.exchange,
    fill.instrument.symbol, fill.instrument.baseAsset, fill.instrument.quoteAsset], '\x00' ∉ text.toList
  numbers : ∀ x ∈ [fill.instrument.tickSize, fill.instrument.lotSize, fill.price, fill.quantity, fill.fee],
    x ∈ sixDecimals rnd

/-- A row with its numbers changed by the way through the table. -/
def convert (f : ℚ → ℚ) (row : FillEvent) : FillEvent :=
  { row with
    instrument := { row.instrument with tickSize := f row.instrument.tickSize, lotSize := f row.instrument.lotSize }
    price := f row.price
    quantity := f row.quantity
    fee := f row.fee }

private theorem foldl_appendFill (repository : LibpqFillRepository) (fills : List FillEvent) :
    fills.foldl appendFill repository =
      { repository with rows := (fills.map fillRow).foldl (DistinctLog.append FillEvent.fillId) repository.rows } := by
  induction fills generalizing repository with
  | nil => rfl
  | cons fill fills ih => exact ih _

section Documented

variable {numbers : LibpqNumbers} {print rnd : ℚ → ℚ} (h : numbers.Documented print rnd)
include h

private theorem readFill_eq (row : FillEvent) :
    readFill numbers row = some (convert (fun x => rnd (print x)) row) := by
  simp only [readFill, h.read_eq]
  rfl

private theorem convert_fillRow_iff (fill : FillEvent) :
    convert (fun x => rnd (print x)) (fillRow fill) = fill ↔ Storable rnd fill := by
  rcases fill with ⟨fillId, orderId, ⟨instrumentId, exchange, symbol, base, quote, tick, lot⟩, side, price, quantity,
    fee⟩
  simp only [convert, fillRow, FillEvent.mk.injEq, Instrument.mk.injEq, cString_eq_iff, h.kept_iff]
  constructor
  · rintro ⟨h₁, h₂, ⟨h₃, h₄, h₅, h₆, h₇, h₈, h₉⟩, -, h₁₀, h₁₁, h₁₂⟩
    exact ⟨by simp [*], by simp [*]⟩
  · rintro ⟨htexts, hnumbers⟩
    simp only [List.forall_mem_cons] at htexts hnumbers
    tauto

/-- Fills that are appended to an empty table are all read back exactly if their ids are distinct and each is
storable. -/
private theorem allFills_eq_iff (fills : List FillEvent) :
    (fills.foldl appendFill { numbers := numbers }).allFills = some fills ↔
      (fills.map FillEvent.fillId).Nodup ∧ ∀ fill ∈ fills, Storable rnd fill := by
  have hread : readFill numbers = fun row => pure (convert (fun x => rnd (print x)) row) := funext (readFill_eq h)
  have hkeys : ∀ fill, (fillRow (convert (fun x => rnd (print x)) (fillRow fill))).fillId = (fillRow fill).fillId :=
    fun fill => cString_cString fill.fillId
  have hlog : ((fills.map fillRow).foldl (DistinctLog.append FillEvent.fillId) []).map
      (convert fun x => rnd (print x)) = fills ↔ _ := DistinctLog.map_foldl_eq_iff FillEvent.fillId hkeys
  rw [allFills, foldl_appendFill, hread, List.mapM_pure]
  simp only [convert_fillRow_iff h] at hlog
  have hids (hstorable : ∀ fill ∈ fills, Storable rnd fill) :
      fills.map (fun fill => (fillRow fill).fillId) = fills.map FillEvent.fillId :=
    List.map_congr_left fun fill hfill =>
      cString_of_notMem ((hstorable fill hfill).texts _ (List.mem_cons_self ..))
  refine Option.some_inj.trans (hlog.trans (and_congr_left fun hstorable => ?_))
  rw [hids hstorable]

end Documented

end LibpqFillRepository

/-! ### The ids of the fills -/

private theorem fillId_injective {m n : Nat} (h : fillId m = fillId n) : m = n :=
  Decimal.repr_injective ((String.append_right_inj "match-fill-").1 h)

/-- The fills are numbered one by one from `first`, and `next` is the number after the last one. -/
structure Numbered (first next : Nat) (fills : List FillEvent) : Prop where
  next_eq : next = first + fills.length
  ids : fills.map FillEvent.fillId = (List.range' first fills.length).map fillId

namespace Numbered

theorem nil (first : Nat) : Numbered first first [] := ⟨rfl, rfl⟩

theorem append {first middle next : Nat} {fills fills' : List FillEvent} (h : Numbered first middle fills)
    (h' : Numbered middle next fills') : Numbered first next (fills ++ fills') := by
  refine ⟨?_, ?_⟩
  · rw [h'.next_eq, h.next_eq, List.length_append, add_assoc]
  · rw [List.map_append, h.ids, h'.ids, h.next_eq, List.length_append, ← List.range'_append_1, List.map_append]

theorem nodup {first next : Nat} {fills : List FillEvent} (h : Numbered first next fills) :
    (fills.map FillEvent.fillId).Nodup := by
  rw [h.ids]
  have hrange : (List.range' first fills.length).Nodup := List.nodup_range'
  exact hrange.map fun _ _ => fillId_injective

end Numbered

private theorem fillLoop_numbered (rule : FillRule) (hrule : ∀ n resting executed,
    (rule.fill n resting executed).fillId = fillId n) (fuel : Nat) (loop : FillLoop) :
    ∃ fills, (fillLoop rule fuel loop).1.fills = loop.fills ++ fills ∧
      Numbered loop.nextFillId (fillLoop rule fuel loop).1.nextFillId fills := by
  have stopped : ∃ fills, loop.fills = loop.fills ++ fills ∧ Numbered loop.nextFillId loop.nextFillId fills :=
    ⟨[], (List.append_nil _).symm, .nil _⟩
  induction fuel generalizing loop with
  | zero => exact stopped
  | succ fuel ih =>
    rw [fillLoop]
    split
    · split
      · exact stopped
      · rename_i resting _
        split
        · exact stopped
        · dsimp only
          split
          · exact stopped
          · rename_i book' _
            obtain ⟨fills, hfills, hnumbered⟩ :=
              ih (loop.afterFill rule resting (min loop.quantity resting.remainingQuantity) book')
                ⟨[], (List.append_nil _).symm, .nil _⟩
            refine ⟨[rule.fill loop.nextFillId resting (min loop.quantity resting.remainingQuantity)] ++ fills, ?_, ?_⟩
            · rw [hfills, ← List.append_assoc]
              rfl
            · have hfirst : Numbered loop.nextFillId (loop.nextFillId + 1)
                  [rule.fill loop.nextFillId resting (min loop.quantity resting.remainingQuantity)] :=
                ⟨rfl, by rw [List.map_singleton, hrule]; rfl⟩
              exact hfirst.append hnumbered
    · exact stopped

private theorem processLevels_numbered (rule : BookLevel → FillRule) (hrule : ∀ level n resting executed,
    ((rule level).fill n resting executed).fillId = fillId n) (levels : List BookLevel) (loop : FillLoop) :
    ∃ fills, (processLevels rule levels loop).1.fills = loop.fills ++ fills ∧
      Numbered loop.nextFillId (processLevels rule levels loop).1.nextFillId fills := by
  induction levels generalizing loop with
  | nil => exact ⟨[], (List.append_nil _).symm, .nil _⟩
  | cons level levels ih =>
    obtain ⟨fills, hfills, hnumbered⟩ :=
      fillLoop_numbered (rule level) (hrule level) (loopFuel level.quantity) { loop with quantity := level.quantity }
    obtain ⟨fills', hfills', hnumbered'⟩ :=
      ih (fillLoop (rule level) (loopFuel level.quantity) { loop with quantity := level.quantity }).1
    refine ⟨fills ++ fills', ?_, hnumbered.append hnumbered'⟩
    rw [← List.append_assoc, ← hfills]
    exact hfills'

namespace MatchingEngine

theorem submit_numbered (engine : MatchingEngine) (request : OrderRequest) :
    Numbered engine.nextFillId (engine.submit request).1.nextFillId (engine.submit request).2.fills := by
  rcases engine.submit_cases request with ⟨reason, heq, -⟩ | ⟨heq, -⟩
  · rw [heq]
    exact .nil _
  · obtain ⟨-, -, hnext, hfills⟩ := engine.matchAndRest_frame request
    obtain ⟨fills, hloop, hnumbered⟩ := fillLoop_numbered (submitRule request engine.issuedOrderId)
      (fun _ _ _ => rfl) (loopFuel request.quantity) (engine.submitStart request)
    rw [heq, hnext, hfills, submitLoop, hloop]
    exact hnumbered

theorem market_numbered (engine : MatchingEngine) (event : MarketEvent) :
    Numbered engine.nextFillId (engine.processMarketEvent event).1.nextFillId
      (engine.processMarketEvent event).2.fills := by
  unfold processMarketEvent
  split
  · exact .nil _
  · rename_i book _
    obtain ⟨fills, hfills, hnumbered⟩ := processLevels_numbered (processBuyRestingOrders event)
      (fun _ _ _ _ => rfl) event.askLevels
      { book := book, orders := engine.orders, nextFillId := engine.nextFillId, quantity := 0 }
    obtain ⟨fills', hfills', hnumbered'⟩ := processLevels_numbered (processSellRestingOrders event)
      (fun _ _ _ _ => rfl) event.bidLevels
      (processLevels (processBuyRestingOrders event) event.askLevels
        { book := book, orders := engine.orders, nextFillId := engine.nextFillId, quantity := 0 }).1
    have hboth : (engine.marketLoops event book).1.fills = fills ++ fills' := by
      rw [← List.nil_append fills, ← hfills]
      exact hfills'
    show Numbered engine.nextFillId (engine.marketLoops event book).1.nextFillId (engine.marketLoops event book).1.fills
    rw [hboth]
    exact hnumbered.append hnumbered'

end MatchingEngine

/-! ### The fills of a run -/

namespace TradingCore

/-- The fills of a run of calls, in order. -/
def fills : TradingCore → List TradingOp → List FillEvent
  | _, [] => []
  | core, op :: ops => (MatchingEngine.machine.step core.engine op.engineOp).2.fills ++ fills (core.step op) ops

theorem fills_append (core : TradingCore) (ops ops' : List TradingOp) :
    core.fills (ops ++ ops') = core.fills ops ++ (machine.run core ops).fills ops' := by
  induction ops generalizing core with
  | nil => rfl
  | cons op ops ih =>
    rw [List.cons_append, fills, ih, fills, List.append_assoc]
    rfl

theorem fillIds_run (core : TradingCore) (ops : List TradingOp) :
    Numbered core.engine.nextFillId (machine.run core ops).engine.nextFillId (core.fills ops) := by
  induction ops generalizing core with
  | nil => exact .nil _
  | cons op ops ih =>
    have hop : Numbered core.engine.nextFillId (core.step op).engine.nextFillId
        (MatchingEngine.machine.step core.engine op.engineOp).2.fills := by
      rw [step_engine]
      cases op with
      | market event => exact core.engine.market_numbered event
      | submit request => exact core.engine.submit_numbered request
    exact hop.append (ih (core.step op))

end TradingCore

private theorem InMemoryFillRepository.foldl_appendFill (repository : InMemoryFillRepository) (fills : List FillEvent) :
    fills.foldl InMemoryFillRepository.appendFill repository = ⟨repository.fills ++ fills⟩ := by
  induction fills generalizing repository with
  | nil => rw [List.append_nil, List.foldl_nil]
  | cons fill fills ih => rw [List.foldl_cons, ih, appendFill, List.append_assoc, List.singleton_append]

namespace SimulationRuntime

variable {σ : Type*}

/-- Between the two runtimes the fills were appended to the fill repository. -/
def Appends (runtime runtime' : SimulationRuntime σ) (fills : List FillEvent) : Prop :=
  ∀ repository, runtime.fillRepository = some repository →
    runtime'.fillRepository = some ⟨repository.fills ++ fills⟩

theorem Appends.nil {runtime runtime' : SimulationRuntime σ} (h : runtime'.fillRepository = runtime.fillRepository) :
    Appends runtime runtime' [] := by
  intro repository hrepository
  rw [h, hrepository, List.append_nil]

theorem Appends.append {runtime runtime' runtime'' : SimulationRuntime σ} {fills fills' : List FillEvent}
    (h : Appends runtime runtime' fills) (h' : Appends runtime' runtime'' fills') :
    Appends runtime runtime'' (fills ++ fills') := by
  intro repository hrepository
  rw [h' _ (h repository hrepository), List.append_assoc]

theorem handleExecutionResult_appends (runtime : SimulationRuntime σ) (result : ExecutionResult) :
    Appends runtime (runtime.handleExecutionResult result) result.fills := by
  intro repository hrepository
  rw [handleExecutionResult, hrepository, Option.map_some, InMemoryFillRepository.foldl_appendFill]

private theorem handleRequest_appends (runtime : SimulationRuntime σ) (input : RuntimeInput) (k : Nat)
    (request : OrderRequest) : Appends runtime (runtime.handleRequest (input.paused k) (input.now k) request)
      (runtime.core.fills
        (if approves runtime.riskConfig runtime.marketStateStore input k request then [.submit request] else [])) := by
  rcases handleRequest_cases runtime input k request with ⟨happroved, heq⟩ | ⟨happroved, heq⟩
  · rw [happroved, heq, if_pos rfl, TradingCore.fills, TradingCore.fills, List.append_nil]
    exact handleExecutionResult_appends _ _
  · rw [happroved, heq]
    exact .nil rfl

private theorem handleRequests_appends (input : RuntimeInput) (k : Nat) (requests : List OrderRequest)
    (runtime : SimulationRuntime σ) : Appends runtime (handleRequests input k requests runtime)
      (runtime.core.fills (submitOps runtime.riskConfig runtime.marketStateStore input k requests)) := by
  induction requests generalizing k runtime with
  | nil => exact .nil rfl
  | cons request requests ih =>
    obtain ⟨hconfig, -, hstore, -⟩ := handleRequest_frame runtime input k request
    have hrest := ih (k + 1) (runtime.handleRequest (input.paused k) (input.now k) request)
    rw [hconfig, hstore, handleRequest_core] at hrest
    rw [submitOps, TradingCore.fills_append]
    exact (handleRequest_appends runtime input k request).append hrest

private theorem marketPhase_appends (runtime : SimulationRuntime σ) (event : EngineEvent) :
    Appends runtime (runtime.marketPhase event) (runtime.core.fills (marketOps event)) := by
  cases event with
  | market event =>
    show Appends runtime (runtime.onMarketEvent event) _
    rw [onMarketEvent_eq, marketOps, TradingCore.fills, TradingCore.fills, List.append_nil]
    exact handleExecutionResult_appends _ _
  | timer => exact .nil rfl
  | transaction => exact .nil rfl

private theorem onEvent_appends (runtime : SimulationRuntime σ) (input : RuntimeInput) :
    Appends runtime (runtime.onEvent input) (runtime.core.fills (runtime.tradingOps input)) := by
  obtain ⟨hmarket, hconfig⟩ := marketPhase_core runtime input.event
  rw [tradingOps, TradingCore.fills_append, ← hmarket, ← hconfig]
  refine (marketPhase_appends runtime input.event).append ?_
  unfold onEvent
  dsimp only
  exact handleRequests_appends input 0 (runtime.requestsOf input)
    { runtime.marketPhase input.event with
      strategyCoordinator := ((runtime.marketPhase input.event).strategyCoordinator.onEvent input.event
        { marketStateStore := (runtime.marketPhase input.event).marketStateStore,
          clock := input.strategyClock }).1 }

/-- A run of events appends the fills of its calls. -/
theorem run_appends (runtime : SimulationRuntime σ) (inputs : List RuntimeInput) :
    Appends runtime (machine.run runtime inputs) (runtime.core.fills (runtime.callsOf inputs)) := by
  induction inputs generalizing runtime with
  | nil => exact .nil rfl
  | cons input inputs ih =>
    rw [callsOf, TradingCore.fills_append, ← (onEvent_core runtime input).1]
    exact (onEvent_appends runtime input).append (ih _)

end SimulationRuntime

/-! ### Sessions on one table -/

namespace Session

variable {σ : Type*}

/-- The fills that the session passes to `append_fill`: what an empty in-memory repository in the table's place holds
at the end. -/
def appendedFills (session : Session σ) : List FillEvent :=
  let observed := { session with config := { session.config with fillRepository := some {} } }
  (observed.finish.fillRepository.getD {}).fills

/-- The table after the sessions. -/
def fillsAfter (numbers : LibpqNumbers) (sessions : List (Session σ)) : LibpqFillRepository :=
  sessions.foldl (fun repository session => session.appendedFills.foldl LibpqFillRepository.appendFill repository)
    { numbers := numbers }

/-- The fills of a session are numbered from one. -/
private theorem appendedFills_numbered (session : Session σ) : ∃ next, Numbered 1 next session.appendedFills := by
  let observed := { session with config := { session.config with fillRepository := some {} } }
  have hempty : observed.start.fillRepository = some {} := observed.start_fillRepository
  have hfinish : observed.finish.fillRepository = some ⟨[] ++ observed.start.core.fills observed.calls⟩ :=
    SimulationRuntime.run_appends observed.start observed.inputs _ hempty
  have hfills : session.appendedFills = observed.start.core.fills observed.calls := by
    show (observed.finish.fillRepository.getD {}).fills = _
    rw [hfinish]
    rfl
  have hfirst : observed.start.core.engine.nextFillId = 1 := observed.start_counters.2
  rw [hfills, ← hfirst]
  exact ⟨_, TradingCore.fillIds_run _ _⟩

private theorem fillsAfter_eq (numbers : LibpqNumbers) (sessions : List (Session σ)) : fillsAfter numbers sessions =
    (sessions.flatMap appendedFills).foldl LibpqFillRepository.appendFill { numbers := numbers } := by
  rw [List.foldl_flatMap]
  rfl

/-- Fills of two sessions have no id in common when one of the sessions has no fills. -/
private theorem disjoint_fillIds {first next next' : Nat} {fills fills' : List FillEvent}
    (h : Numbered first next fills) (h' : Numbered first next' fills') :
    (fills.map FillEvent.fillId).Disjoint (fills'.map FillEvent.fillId) ↔ fills = [] ∨ fills' = [] := by
  constructor
  · intro hdisjoint
    by_contra hno
    push Not at hno
    have hmem : ∀ {next : Nat} {fills : List FillEvent}, Numbered first next fills → fills ≠ [] →
        fillId first ∈ fills.map FillEvent.fillId := by
      intro next fills h hne
      rw [h.ids]
      refine List.mem_map_of_mem (List.mem_range'_1.2 ⟨le_refl _, ?_⟩)
      exact Nat.lt_add_of_pos_right (List.length_pos_of_ne_nil hne)
    exact hdisjoint (hmem h hno.1) (hmem h' hno.2)
  · rintro (rfl | rfl)
    · exact List.disjoint_nil_left _
    · exact List.disjoint_nil_right _

end Session

end Wall
