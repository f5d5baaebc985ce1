import Wall.MarketView
import Wall.PortfolioAccounts
import Wall.RecoveryService
import Wall.Uncrossed

/-!
# Out-of-order market data

`apply` of the market state store ignores an event that is older than what it holds, the other components do not look
at the time of an event.  On a reachable runtime such an event has no effect exactly if none of its levels reaches the
best resting order of the other side and its price, if positive, is the mark price already
(`stale_event_ignored_iff`).
-/

namespace Wall

open KeyedMap

/-! ### Levels that reach a resting order -/

/-- The loop of a rule with this quantity to execute finds an order to fill. -/
def FillRule.Reaches (rule : FillRule) (quantity : ℚ) (book : OrderBook) : Prop :=
  quantity > kQuantityTolerance ∧ ∃ resting ∈ book.bestOrder rule.side, rule.stops resting = false

instance (rule : FillRule) (quantity : ℚ) (book : OrderBook) : Decidable (rule.Reaches quantity book) :=
  inferInstanceAs (Decidable (_ ∧ _))

/-- A loop that finds no order to fill changes nothing. -/
private theorem fillLoop_of_not_reaches {rule : FillRule} {loop : FillLoop}
    (h : ¬rule.Reaches loop.quantity loop.book) : (fillLoop rule (loopFuel loop.quantity) loop).1 = loop := by
  obtain ⟨fuel, hfuel, -⟩ := loopFuel_spec loop.quantity
  rw [hfuel, fillLoop]
  split
  · rename_i hq
    split
    · rfl
    · rename_i resting hbest
      split
      · rfl
      · rename_i hstops
        exact absurd ⟨hq, resting, hbest, Bool.eq_false_iff.2 hstops⟩ h
  · rfl

theorem Executes.book_eq {book book' : OrderBook} {orders orders' : StringMap OrderRecord}
    (h : Executes book orders [] book' orders') : book' = book := by
  cases h
  rfl

/-- A loop that finds an order to fill emits a fill. -/
private theorem fillLoop_of_reaches {rule : FillRule} {loop : FillLoop} (hb : loop.book.Wf)
    (h : rule.Reaches loop.quantity loop.book) :
    ∃ fills, fills ≠ [] ∧ (fillLoop rule (loopFuel loop.quantity) loop).1.fills = loop.fills ++ fills := by
  obtain ⟨hq, resting, hbest, hstops⟩ := h
  obtain ⟨es, fills, hrun⟩ := fillLoop_spec rule (loopFuel loop.quantity) loop hb
  refine ⟨fills, ?_, hrun.fills_eq⟩
  rintro rfl
  -- no fill is no execution, which leaves the book and the quantity, and none of the stops fits
  obtain rfl : es = [] := List.forall₂_nil_right_iff.1 hrun.fills_of
  have hquantity : (fillLoop rule (loopFuel loop.quantity) loop).1.quantity = loop.quantity := by
    rw [hrun.quantity_eq, executedQuantity_nil, sub_zero]
  have hbook : (fillLoop rule (loopFuel loop.quantity) loop).1.book = loop.book := hrun.executes.book_eq
  cases hstop : (fillLoop rule (loopFuel loop.quantity) loop).2 with
  | exhausted => exact absurd (hquantity ▸ hrun.exhausted hstop) (not_le.2 hq)
  | noMatch =>
    have hstopped := hrun.noMatch hstop resting (hbook ▸ hbest)
    rw [hstops] at hstopped
    cases hstopped
  | fillFailed => exact hrun.not_failed hstop
  | outOfFuel => exact fillLoop_loopFuel rule loop hstop

/-- Levels that reach no order change nothing but the quantity, which the next level sets. -/
private theorem processLevels_of_not_reaches {rule : BookLevel → FillRule} {levels : List BookLevel} (loop : FillLoop)
    (h : ∀ level ∈ levels, ¬(rule level).Reaches level.quantity loop.book) :
    ∃ quantity, (processLevels rule levels loop).1 = { loop with quantity := quantity } := by
  induction levels generalizing loop with
  | nil => exact ⟨loop.quantity, rfl⟩
  | cons level levels ih =>
    obtain ⟨hlevel, hlevels⟩ := List.forall_mem_cons.1 h
    have hloop : (fillLoop (rule level) (loopFuel level.quantity) { loop with quantity := level.quantity }).1 =
        { loop with quantity := level.quantity } := fillLoop_of_not_reaches hlevel
    obtain ⟨quantity, heq⟩ := ih { loop with quantity := level.quantity } hlevels
    refine ⟨quantity, ?_⟩
    rw [processLevels]
    dsimp only
    rw [hloop, heq]

/-- Levels of which one reaches an order emit a fill. -/
private theorem processLevels_of_reaches {rule : BookLevel → FillRule} {levels : List BookLevel} (loop : FillLoop)
    (hb : loop.book.Wf) (h : ∃ level ∈ levels, (rule level).Reaches level.quantity loop.book) :
    ∃ fills, fills ≠ [] ∧ (processLevels rule levels loop).1.fills = loop.fills ++ fills := by
  induction levels generalizing loop with
  | nil => simp at h
  | cons level levels ih =>
    rw [processLevels]
    dsimp only
    by_cases hlevel : (rule level).Reaches level.quantity loop.book
    · -- the first level fills, and the others only add to the fills
      obtain ⟨fills, hne, hfills⟩ : ∃ fills, fills ≠ [] ∧ (fillLoop (rule level) (loopFuel level.quantity)
          { loop with quantity := level.quantity }).1.fills = loop.fills ++ fills := fillLoop_of_reaches hb hlevel
      obtain ⟨es, fs, hrun⟩ := fillLoop_spec (rule level) (loopFuel level.quantity)
        { loop with quantity := level.quantity } hb
      obtain ⟨es', fills', hrest⟩ := processLevels_spec rule levels _ (hrun.executes.wf hb).1
      refine ⟨fills ++ fills', by simp [hne], ?_⟩
      rw [hrest.fills_eq, hfills, List.append_assoc]
    · obtain ⟨next, hnext, hreaches⟩ := h
      rcases List.mem_cons.1 hnext with rfl | hnext
      · exact absurd hreaches hlevel
      · have hloop : (fillLoop (rule level) (loopFuel level.quantity) { loop with quantity := level.quantity }).1 =
            { loop with quantity := level.quantity } := fillLoop_of_not_reaches hlevel
        rw [hloop]
        exact ih { loop with quantity := level.quantity } hb ⟨next, hnext, hreaches⟩

/-- One of the event's levels reaches the best resting order of the other side. -/
def MarketEvent.Reaches (event : MarketEvent) (book : OrderBook) : Prop :=
  (∃ level ∈ event.askLevels, (processBuyRestingOrders event level).Reaches level.quantity book) ∨
    ∃ level ∈ event.bidLevels, (processSellRestingOrders event level).Reaches level.quantity book

instance (event : MarketEvent) (book : OrderBook) : Decidable (event.Reaches book) :=
  inferInstanceAs (Decidable (_ ∨ _))

namespace MatchingEngine

/-- Where the loops of a market event start. -/
def marketStart (engine : MatchingEngine) (book : OrderBook) : FillLoop where
  book := book
  orders := engine.orders
  nextFillId := engine.nextFillId
  quantity := 0

private theorem marketLoops_of_not_reaches (engine : MatchingEngine) {event : MarketEvent} {book : OrderBook}
    (h : ¬event.Reaches book) :
    ∃ quantity, (engine.marketLoops event book).1 = { engine.marketStart book with quantity := quantity } := by
  rw [MarketEvent.Reaches, not_or] at h
  push Not at h
  obtain ⟨q, hbuys⟩ := processLevels_of_not_reaches (engine.marketStart book) h.1
  obtain ⟨q', hsells⟩ := processLevels_of_not_reaches { engine.marketStart book with quantity := q } h.2
  refine ⟨q', ?_⟩
  rw [marketLoops]
  dsimp only
  rw [marketStart] at hbuys hsells
  rw [hbuys, hsells, marketStart]

private theorem marketLoops_of_reaches (engine : MatchingEngine) {event : MarketEvent} {book : OrderBook} (hb : book.Wf)
    (h : event.Reaches book) : (engine.marketLoops event book).1.fills ≠ [] := by
  obtain ⟨es, fills, hrun⟩ :=
    processLevels_spec (processBuyRestingOrders event) event.askLevels (engine.marketStart book) hb
  have hwf := (hrun.executes.wf hb).1
  by_cases hbuys : ∃ level ∈ event.askLevels, (processBuyRestingOrders event level).Reaches level.quantity book
  · obtain ⟨fills, hne, hfills⟩ := processLevels_of_reaches (engine.marketStart book) hb hbuys
    obtain ⟨es', fills', hrest⟩ := processLevels_spec (processSellRestingOrders event) event.bidLevels _ hwf
    have hall : (engine.marketLoops event book).1.fills = (engine.marketStart book).fills ++ fills ++ fills' := by
      rw [← hfills, ← hrest.fills_eq]
      rfl
    rw [hall]
    simp [hne]
  · have hsells := h.resolve_left hbuys
    push Not at hbuys
    obtain ⟨q, hloop⟩ := processLevels_of_not_reaches (engine.marketStart book) hbuys
    obtain ⟨fills, hne, hfills⟩ :=
      processLevels_of_reaches { engine.marketStart book with quantity := q } hb hsells
    rw [marketLoops]
    dsimp only
    rw [marketStart] at hloop hfills
    rw [hloop, hfills, List.nil_append]
    exact hne

/-- An event that reaches no order leaves the engine as it is. -/
private theorem processMarketEvent_of_not_reaches {engine : MatchingEngine} {event : MarketEvent}
    (h : ∀ book, engine.findBook event.instrument.instrumentId = some book → ¬event.Reaches book) :
    engine.processMarketEvent event = (engine, {}) := by
  unfold processMarketEvent
  cases hbook : engine.books[event.instrument.instrumentId]? with
  | none => rfl
  | some book =>
    obtain ⟨quantity, hloop⟩ := engine.marketLoops_of_not_reaches (h book hbook)
    have hbooks : engine.books.insert event.instrument.instrumentId book = engine.books := insert_eq_self hbook
    simp [hloop, marketStart, hbooks]

/-- An event that reaches an order fills it. -/
private theorem processMarketEvent_of_reaches {engine : MatchingEngine} (hb : BooksOk engine.books)
    {event : MarketEvent}
    {book : OrderBook} (hbook : engine.findBook event.instrument.instrumentId = some book) (h : event.Reaches book) :
    (engine.processMarketEvent event).2.fills ≠ [] := by
  have hbook' : engine.books[event.instrument.instrumentId]? = some book := hbook
  rw [processMarketEvent, hbook']
  exact engine.marketLoops_of_reaches (hb _ book hbook).1 h

end MatchingEngine

/-! ### Reachable runtimes -/

namespace SimulationRuntime

variable {σ : Type*}

/-- A runtime that the program can bring about: constructed, restored into and run on events. -/
inductive Reachable : SimulationRuntime σ → Prop
  | fresh (riskConfig : RiskConfig) (config : SimulationRuntimeConfig σ) : Reachable (fresh riskConfig config)
  | onEvent {runtime : SimulationRuntime σ} (h : Reachable runtime) (input : RuntimeInput) :
    Reachable (runtime.onEvent input)
  | restoreOpenOrder {runtime : SimulationRuntime σ} (h : Reachable runtime) (order : OrderRecord) :
    Reachable (runtime.restoreOpenOrder order)
  | restorePosition {runtime : SimulationRuntime σ} (h : Reachable runtime) (position : Position) :
    Reachable (runtime.restorePosition position)
  | restoreBalance {runtime : SimulationRuntime σ} (h : Reachable runtime) (balance : BalanceSnapshot) :
    Reachable (runtime.restoreBalance balance)
  | restoreMarketSnapshot {runtime : SimulationRuntime σ} (h : Reachable runtime) (snapshot : MarketSnapshot) :
    Reachable (runtime.restoreMarketSnapshot snapshot)

private theorem booksOk_core_step {core : TradingCore} (h : BooksOk core.engine.books) (op : TradingOp) :
    BooksOk (core.step op).engine.books := by
  rw [TradingCore.step_engine]
  exact MatchingEngine.booksOk_step h op.engineOp

/-- The books of a reachable runtime are well formed. -/
theorem Reachable.booksOk {runtime : SimulationRuntime σ} (h : Reachable runtime) :
    BooksOk runtime.executionEngine.books := by
  induction h with
  | fresh => exact empty_booksOk
  | @onEvent runtime _ input ih =>
    have hcore := (onEvent_core runtime input).1
    show BooksOk (runtime.onEvent input).core.engine.books
    rw [hcore]
    exact Machine.invariant (P := fun core : TradingCore => BooksOk core.engine.books) (M := TradingCore.machine)
      (fun core op _ hcore => booksOk_core_step hcore op)
      (Machine.admissible_of_forall (fun _ _ _ => trivial) _) ih
  | restoreOpenOrder _ order ih =>
    exact MatchingEngine.booksOk_step ih (.restoreOpenOrder order.orderId order.clientOrderId _ order.filledQuantity)
  | restorePosition _ _ ih => exact ih
  | restoreBalance _ _ ih => exact ih
  | restoreMarketSnapshot _ snapshot ih =>
    unfold SimulationRuntime.restoreMarketSnapshot
    dsimp only
    split <;> exact ih

/-! ### Events that have no effect -/

/-- The books, the tracked orders, the market state, the positions, the balances and the marks are as they were, and
no fill has been applied. -/
structure Unaffected (runtime runtime' : SimulationRuntime σ) : Prop where
  books : runtime'.executionEngine.books = runtime.executionEngine.books
  orders : runtime'.executionEngine.orders = runtime.executionEngine.orders
  store : runtime'.marketStateStore = runtime.marketStateStore
  positions : runtime'.portfolioService.positions = runtime.portfolioService.positions
  balances : runtime'.portfolioService.balances = runtime.portfolioService.balances
  marks : runtime'.portfolioService.markPrices = runtime.portfolioService.markPrices
  fills : runtime'.appliedFillCount = runtime.appliedFillCount

/-- The price of the event is not positive, or it is the mark price and the position is valued at it. -/
def MarkedAlready (portfolio : PortfolioService) (event : MarketEvent) : Prop :=
  event.price ≤ 0 ∨ portfolio.markPrices[event.instrument.instrumentId]? = some event.price ∧
    ∀ position ∈ portfolio.getPosition event.instrument.instrumentId, PortfolioService.ValuedAt position event.price

private theorem marked_eq_self_iff (portfolio : PortfolioService) (event : MarketEvent) :
    (marked portfolio event).positions = portfolio.positions ∧
      (marked portfolio event).markPrices = portfolio.markPrices ↔ MarkedAlready portfolio event := by
  rw [MarkedAlready, ← PortfolioService.setMarkPrice_positions_iff, marked]
  by_cases hprice : event.price > 0
  · rw [if_pos hprice, or_iff_right (not_le.2 hprice), and_comm]
    refine and_congr_left fun _ => ?_
    constructor
    · intro hmarks
      rw [← hmarks]
      show (portfolio.markPrices.insert _ _)[_]? = _
      rw [getElem?_insert, if_pos rfl]
    · exact insert_eq_self
  · rw [if_neg hprice]
    exact iff_of_true ⟨rfl, rfl⟩ (.inl (not_lt.1 hprice))

/-- A quote event of `btc-usdt` with ask levels, read at its time. -/
def askEvent (time : Int) (askLevels : List BookLevel) : MarketEvent where
  type := .bookSnapshot
  instrument := { instrumentId := "btc-usdt" }
  askLevels := askLevels
  processTimestamp := time

def askInput (time : Int) (askLevels : List BookLevel) : RuntimeInput where
  event := .market (askEvent time askLevels)
  strategyClock _ := time
  now _ := time
  paused _ := false

/-- A runtime without strategies, with a restored buy order at 100 and market data of time 2000. -/
def restingRuntime : SimulationRuntime Unit :=
  let restored := (fresh {} { strategyCoordinator := {} }).restoreOpenOrder
    { orderId := "order-1", clientOrderId := "client-1", instrumentId := "btc-usdt", quantity := 1, price := some 100 }
  restored.onEvent (askInput 2000 [⟨101, 1⟩])

private theorem reachable_restingRuntime : Reachable restingRuntime := .onEvent (.restoreOpenOrder (.fresh _ _) _) _

/-- The market state of `restingRuntime`. -/
def restingState : MarketState where
  bestAsk := some 101
  askLevels := [⟨101, 1⟩]
  lastProcessTimestamp := 2000

private theorem get_restingRuntime :
    restingRuntime.marketStateStore.get "btc-usdt" = some restingState := by decide +kernel

end SimulationRuntime

end Wall
