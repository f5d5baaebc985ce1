import Wall.GreedyMatching
import Wall.Uncrossed

/-!
# The levels of a market event

Each level of a market event walks along the queue that the levels before it have left.  A level gives out no more
than its quantity, it serves the resting orders in turn, and the orders that it leaves are out of its reach unless it
is used up (`Walks.levelServed`).  The levels after it only take orders away, so this still holds when all of them
are done, whatever their order (`processLevels_served`).
-/

namespace Wall

open Greedy

/-- A market level at price `level` does not reach an order resting on this side at price `p`. -/
def OrderSide.OutOfReach : OrderSide → ℚ → ℚ → Prop
  | .buy, level, p => p + kQuantityTolerance < level
  | .sell, level, p => level < p - kQuantityTolerance

private theorem OrderSide.OutOfReach.of_better {side : OrderSide} {level p p' : ℚ} (h : side.OutOfReach level p)
    (hp : side.Better p p') : side.OutOfReach level p' := by
  have htol := kQuantityTolerance_pos
  cases side with
  | buy =>
    have hp' : p' < p := hp
    have h' : p + kQuantityTolerance < level := h
    show p' + kQuantityTolerance < level
    linarith
  | sell =>
    have hp' : p < p' := hp
    have h' : level < p - kQuantityTolerance := h
    show level < p' - kQuantityTolerance
    linarith

/-- The loop for one level of an event, against the resting orders of `side`. -/
structure MarketRule (event : MarketEvent) (side : OrderSide) (level : BookLevel) (rule : FillRule) : Prop where
  side_eq : rule.side = side
  fill_eq : rule.fill = marketFill event level
  accepts_iff : ∀ o p, o.request.price = some p → (rule.accepts o = false ↔ side.OutOfReach level.price p)

private theorem processBuyRestingOrders_rule (event : MarketEvent) (level : BookLevel) :
    MarketRule event .buy level (processBuyRestingOrders event level) := by
  refine ⟨rfl, rfl, fun o p hp => ?_⟩
  have hstops : (processBuyRestingOrders event level).stops o = decide (p + kQuantityTolerance < level.price) := by
    show o.request.price.all _ = _
    rw [hp, Option.all_some]
  rw [FillRule.accepts, Bool.not_eq_false', hstops, decide_eq_true_iff]
  rfl

private theorem processSellRestingOrders_rule (event : MarketEvent) (level : BookLevel) :
    MarketRule event .sell level (processSellRestingOrders event level) := by
  refine ⟨rfl, rfl, fun o p hp => ?_⟩
  have hstops : (processSellRestingOrders event level).stops o = decide (p - kQuantityTolerance > level.price) := by
    show o.request.price.all _ = _
    rw [hp, Option.all_some]
  rw [FillRule.accepts, Bool.not_eq_false', hstops, decide_eq_true_iff]
  rfl

/-- What holds of a level and its fills when `book` is left: the fills are of orders of `side` at the level's price,
they do not exceed its quantity, and it is used up or reaches no order that still rests on the side. -/
structure LevelServed (side : OrderSide) (book : OrderBook) (level : BookLevel) (fills : List FillEvent) : Prop where
  fill : ∀ fill ∈ fills, fill.side = side ∧ fill.price = level.price
  total_le : (fills.map FillEvent.quantity).sum ≤ max 0 level.quantity
  used : level.quantity - (fills.map FillEvent.quantity).sum ≤ kQuantityTolerance ∨
    ∀ o ∈ book.resting, o.request.side = side → side.OutOfReach level.price o.price

/-- An order is filled in turn: each fill is of the first order of the queue. -/
def QueueServed (side : OrderSide) (book book' : OrderBook) (fills : List FillEvent) : Prop :=
  InTurn ((book.sideQueue side).map RestingOrder.orderId) (fills.map FillEvent.orderId)
    ((book'.sideQueue side).map RestingOrder.orderId)

/-- The fill is of an order that rests in the book, on its side, at a price that reaches it. -/
def FillsResting (book : OrderBook) (fill : FillEvent) : Prop :=
  ∃ o ∈ book.resting, o.orderId = fill.orderId ∧ o.request.side = fill.side ∧
    ¬ fill.side.OutOfReach fill.price o.price

private theorem FillsResting.of_executes {book book' : OrderBook} {orders orders' : StringMap OrderRecord}
    {es : List Execution} {fill : FillEvent} (h : FillsResting book' fill) (hb : book.Wf)
    (hexecutes : Executes book orders es book' orders') : FillsResting book fill := by
  obtain ⟨o', ho', hid, hside, hreach⟩ := h
  obtain ⟨o, ho, hid', hrequest⟩ := (hexecutes.resting_from hb).2 o' ho'
  refine ⟨o, ho, hid'.trans hid, by rw [hrequest, hside], ?_⟩
  rw [RestingOrder.price, hrequest]
  exact hreach

section Level

variable {event : MarketEvent} {side : OrderSide} {level : BookLevel} {rule : FillRule}

/-- A rule that accepts an order accepts the orders before it in the queue. -/
private theorem MarketRule.accepts_sorted (hrule : MarketRule event side level rule) {book : OrderBook} (hb : book.Wf) :
    (book.sideQueue side).Pairwise fun o o' => rule.accepts o' = true → rule.accepts o = true := by
  refine List.Pairwise.imp_of_mem ?_ (hb.sideQueue_sorted side)
  intro o o' ho ho' hprecedes haccepts
  have hprice := (hb.side_of_mem ho).2
  have hprice' := (hb.side_of_mem ho').2
  by_contra hno
  have hout := (hrule.accepts_iff o _ hprice).1 (Bool.eq_false_iff.2 hno)
  have hout' : side.OutOfReach level.price o'.price := by
    rcases hprecedes with hbetter | ⟨heq, -⟩
    · exact hout.of_better hbetter
    · exact heq ▸ hout
  exact Bool.false_ne_true (((hrule.accepts_iff o' _ hprice').2 hout').symm.trans haccepts)

private theorem Walks.fillsResting {loop loop' : FillLoop} {fills : List FillEvent}
    (h : Walks rule loop loop' (rule.walk (loop.book.sideQueue rule.side) level.quantity) fills)
    (hrule : MarketRule event side level rule) (hb : loop.book.Wf) :
    ∀ fill ∈ fills, FillsResting loop.book fill := by
  obtain ⟨rfl, hfill, haccepts⟩ := hrule
  intro fill hmem
  obtain ⟨t, ht, n, rfl⟩ := forall₂_exists_left h.fills_of hmem
  have htaken : (rule.walk (loop.book.sideQueue rule.side) level.quantity).taken.map Prod.fst <+:
      loop.book.sideQueue rule.side := walk_taken_prefix _ _
  have hqueue := htaken.subset (List.mem_map_of_mem ht)
  have haccepted : rule.accepts t.1 = true := walk_taken_accepted _ _ t ht
  obtain ⟨hside, hprice⟩ := hb.side_of_mem hqueue
  rw [hfill]
  refine ⟨t.1, (hb.mem_sideQueue_iff.1 hqueue).1, rfl, rfl, fun hout => ?_⟩
  have hout' : rule.side.OutOfReach level.price t.1.price := hside ▸ hout
  rw [(haccepts t.1 _ hprice).2 hout'] at haccepted
  cases haccepted

/-- The loop of a level serves it. -/
theorem Walks.levelServed {loop loop' : FillLoop} {fills : List FillEvent}
    (h : Walks rule loop loop' (rule.walk (loop.book.sideQueue rule.side) level.quantity) fills)
    (hrule : MarketRule event side level rule) (hb : loop.book.Wf) :
    LevelServed side loop'.book level fills ∧ QueueServed side loop.book loop'.book fills := by
  have hsorted := hrule.accepts_sorted hb
  obtain ⟨rfl, hfill, haccepts⟩ := hrule
  have htol := kQuantityTolerance_pos
  set walk := rule.walk (loop.book.sideQueue rule.side) level.quantity with hwalk
  have hids : fills.map FillEvent.orderId = walk.taken.map fun t => t.1.orderId :=
    h.map_fills fun _ _ _ => by rw [hfill]; rfl
  have htotal : walk.wanted = level.quantity - (fills.map FillEvent.quantity).sum := by
    have hquantities : fills.map FillEvent.quantity = walk.taken.map Prod.snd :=
      h.map_fills fun _ _ _ => by rw [hfill]; rfl
    rw [hquantities]
    exact walk_wanted _ _
  refine ⟨⟨fun fill hmem => ?_, ?_, ?_⟩, ?_⟩
  · obtain ⟨t, ht, n, rfl⟩ := forall₂_exists_left h.fills_of hmem
    have htaken : walk.taken.map Prod.fst <+: loop.book.sideQueue rule.side := walk_taken_prefix _ _
    have hqueue := htaken.subset (List.mem_map_of_mem ht)
    rw [hfill]
    exact ⟨(hb.side_of_mem hqueue).1, rfl⟩
  · by_cases hq : 0 ≤ level.quantity
    · have hnonneg : 0 ≤ walk.wanted := walk_wanted_nonneg _ hq
      rw [max_eq_right hq]
      linarith
    · -- a level of a negative quantity fills nothing
      have hnone : walk.wanted = level.quantity := by
        rw [hwalk, FillRule.walk, walk_of_le (by linarith)]
      exact le_max_of_le_left (by linarith)
  · rw [← htotal]
    refine (walk_complete htol.le hsorted level.quantity).imp_right fun hleft o ho hside => ?_
    have hqueue := h.wf.mem_sideQueue_iff.2 ⟨ho, hside⟩
    rw [h.queue_eq] at hqueue
    refine (haccepts o o.price ?_).1 (hleft o hqueue)
    exact (h.wf.side_of_mem (h.wf.mem_sideQueue_iff.2 ⟨ho, hside⟩)).2
  · rw [QueueServed, hids, h.queue_eq]
    exact walk_inTurn htol.le (fun _ _ => rfl) _ _

end Level

/-- A level stays served when executions take orders away. -/
private theorem LevelServed.of_executes {side : OrderSide} {book book' : OrderBook}
    {orders orders' : StringMap OrderRecord}
    {es : List Execution} {level : BookLevel} {fills : List FillEvent} (h : LevelServed side book level fills)
    (hb : book.Wf) (hexecutes : Executes book orders es book' orders') : LevelServed side book' level fills where
  fill := h.fill
  total_le := h.total_le
  used := by
    refine h.used.imp_right fun hout o ho hside => ?_
    obtain ⟨o₀, ho₀, -, hrequest⟩ := (hexecutes.resting_from hb).2 o ho
    rw [RestingOrder.price, ← hrequest]
    exact hout o₀ ho₀ (by rw [hrequest, hside])

/-- What the loops of the levels of one side leave. -/
structure LevelsServed (side : OrderSide) (levels : List BookLevel) (loop loop' : FillLoop) (stops : List LoopStop)
    (groups : List (List FillEvent)) : Prop where
  wf : loop'.book.Wf
  ended : .outOfFuel ∉ stops
  other_eq : loop'.book.sideQueue side.opposite = loop.book.sideQueue side.opposite
  fills_eq : loop'.fills = loop.fills ++ groups.flatten
  levels_of : List.Forall₂ (LevelServed side loop'.book) levels groups
  queue : QueueServed side loop.book loop'.book groups.flatten
  resting : ∀ fill ∈ groups.flatten, FillsResting loop.book fill

theorem processLevels_served {event : MarketEvent} {side : OrderSide} {rule : BookLevel → FillRule}
    (hrule : ∀ level, MarketRule event side level (rule level)) (levels : List BookLevel) (loop : FillLoop)
    (hb : loop.book.Wf) : ∃ groups,
      LevelsServed side levels loop (processLevels rule levels loop).1 (processLevels rule levels loop).2 groups := by
  induction levels generalizing loop with
  | nil =>
    exact ⟨[], hb, List.not_mem_nil, rfl, (List.append_nil _).symm, .nil, .nil _,
      fun _ h => absurd h List.not_mem_nil⟩
  | cons level levels ih =>
    have hfuel := fillLoop_loopFuel (rule level) { loop with quantity := level.quantity }
    obtain ⟨fills, hwalks⟩ := fillLoop_walk (rule level) _ { loop with quantity := level.quantity } hb hfuel
    obtain ⟨hlevel, hqueue⟩ := hwalks.levelServed (hrule level) hb
    obtain ⟨groups, hserved⟩ := ih _ hwalks.wf
    obtain ⟨es, fills', hrun⟩ := processLevels_spec rule levels _ hwalks.wf
    have hside := (hrule level).side_eq
    refine ⟨fills :: groups, hserved.wf, ?_, ?_, ?_, .cons (hlevel.of_executes hwalks.wf hrun.executes)
      hserved.levels_of, ?_, ?_⟩
    · intro hmem
      rcases List.mem_cons.1 hmem with hmem | hmem
      · exact hfuel hmem.symm
      · exact hserved.ended hmem
    · exact hserved.other_eq.trans (hside ▸ hwalks.other_eq)
    · rw [List.flatten_cons, ← List.append_assoc, ← hwalks.fills_eq]
      exact hserved.fills_eq
    · rw [QueueServed, List.flatten_cons, List.map_append]
      exact hqueue.append hserved.queue
    · intro fill hmem
      rw [List.flatten_cons] at hmem
      rcases List.mem_append.1 hmem with hmem | hmem
      · exact hwalks.fillsResting (hrule level) hb fill hmem
      · exact (hserved.resting fill hmem).of_executes hb hwalks.executes

namespace MatchingEngine

/-- What the loops of a market event leave of a book. -/
structure EventServed (event : MarketEvent) (book book' : OrderBook) (fills : List FillEvent)
    (askFills bidFills : List (List FillEvent)) : Prop where
  fills_eq : fills = askFills.flatten ++ bidFills.flatten
  asks : List.Forall₂ (LevelServed .buy book') event.askLevels askFills
  bids : List.Forall₂ (LevelServed .sell book') event.bidLevels bidFills
  buys : QueueServed .buy book book' askFills.flatten
  sells : QueueServed .sell book book' bidFills.flatten
  resting : ∀ fill ∈ fills, FillsResting book fill

/-- No level fills anything on a book without orders. -/
private theorem EventServed.of_empty (event : MarketEvent) {book : OrderBook} (hempty : book.resting = 0) :
    EventServed event book book [] (event.askLevels.map fun _ => []) (event.bidLevels.map fun _ => []) := by
  have hlevel : ∀ side level, LevelServed side book level [] := fun side level =>
    ⟨fun fill hfill => absurd hfill List.not_mem_nil, le_max_left _ _,
      .inr fun o ho => absurd (hempty ▸ ho) (Multiset.notMem_zero o)⟩
  have hlevels : ∀ side levels, List.Forall₂ (LevelServed side book) levels (levels.map fun _ => []) :=
    fun side levels => List.forall₂_map_right_iff.2 (List.forall₂_same.2 fun level _ => hlevel side level)
  have hflatten : ∀ levels : List BookLevel, (levels.map fun _ => ([] : List FillEvent)).flatten = [] := by
    intro levels
    simp
  refine ⟨?_, hlevels _ _, hlevels _ _, ?_, ?_, ?_⟩
  · rw [hflatten, hflatten, List.append_nil]
  · rw [QueueServed, hflatten]
    exact .nil _
  · rw [QueueServed, hflatten]
    exact .nil _
  · exact fun fill hfill => absurd hfill List.not_mem_nil

theorem marketLoops_served (engine : MatchingEngine) (event : MarketEvent) {book : OrderBook} (hb : book.Wf) :
    .outOfFuel ∉ (engine.marketLoops event book).2 ∧ ∃ askFills bidFills,
      EventServed event book (engine.marketLoops event book).1.book (engine.marketLoops event book).1.fills
        askFills bidFills := by
  obtain ⟨askFills, hasks⟩ := processLevels_served (processBuyRestingOrders_rule event) event.askLevels
    { book := book, orders := engine.orders, nextFillId := engine.nextFillId, quantity := 0 } hb
  obtain ⟨bidFills, hbids⟩ := processLevels_served (processSellRestingOrders_rule event) event.bidLevels _ hasks.wf
  obtain ⟨es, fills, hrun⟩ := processLevels_spec (processBuyRestingOrders event) event.askLevels
    { book := book, orders := engine.orders, nextFillId := engine.nextFillId, quantity := 0 } hb
  obtain ⟨es', fills', hrun'⟩ := processLevels_spec (processSellRestingOrders event) event.bidLevels _ hasks.wf
  have hfills : (engine.marketLoops event book).1.fills = askFills.flatten ++ bidFills.flatten := by
    rw [← List.nil_append askFills.flatten, ← hasks.fills_eq]
    exact hbids.fills_eq
  refine ⟨List.not_mem_append hasks.ended hbids.ended, askFills, bidFills, hfills, ?_, hbids.levels_of, ?_, ?_, ?_⟩
  · exact hasks.levels_of.imp fun level fills h => h.of_executes hasks.wf hrun'.executes
  · -- the bid levels leave the buys alone, and the ask levels the sells
    have hbuys := hbids.other_eq
    rw [QueueServed]
    exact hbuys ▸ hasks.queue
  · have hsells := hasks.other_eq
    have hqueue := hbids.queue
    rw [QueueServed] at hqueue ⊢
    exact hsells ▸ hqueue
  · intro fill hmem
    rw [hfills] at hmem
    rcases List.mem_append.1 hmem with hmem | hmem
    · exact hasks.resting fill hmem
    · exact (hbids.resting fill hmem).of_executes hb hrun.executes

/-- In every state that calls reach, `process_market_event` ends; the fills against each level are at its price, in
all at most its quantity (none if that is negative), and they serve the resting orders of their side in price-time
order; and in the end every level is used up or reaches no order that still rests, whatever the order of the levels. -/
theorem market_levels_served (ops : List EngineOp) (event : MarketEvent) :
    let engine := machine.run {} ops
    let next := engine.processMarketEvent event
    let book := engine.bookFor event.instrument
    (∀ b, engine.findBook event.instrument.instrumentId = some b → .outOfFuel ∉ (engine.marketLoops event b).2) ∧
    (∀ side, (book.sideQueue side : Multiset RestingOrder) = book.resting.filter (fun o => o.request.side = side) ∧
      (book.sideQueue side).Pairwise (RestingOrder.Precedes side)) ∧
    ∃ askFills bidFills,
      EventServed event book (next.1.bookFor event.instrument) next.2.fills askFills bidFills := by
  intro engine next book
  have hbooks := booksOk_run ops
  have hwf : book.Wf := (bookFor_ok hbooks event.instrument).1
  refine ⟨fun b hb => (marketLoops_served engine event (hbooks _ b hb).1).1,
    fun side => ⟨hwf.sideQueue_coe side, hwf.sideQueue_sorted side⟩, ?_⟩
  cases hbook : engine.books[event.instrument.instrumentId]? with
  | none =>
    have hnext : next = (engine, {}) := by
      show engine.processMarketEvent event = _
      rw [processMarketEvent, hbook]
    have hempty : book.resting = 0 := by
      show (engine.bookFor event.instrument).resting = 0
      rw [bookFor, hbook, Option.getD_none]
      rfl
    rw [hnext]
    exact ⟨_, _, .of_empty event hempty⟩
  | some b =>
    have hfor : book = b := bookFor_of_some hbook
    have hnext : next.1.bookFor event.instrument = (engine.marketLoops event b).1.book ∧
        next.2.fills = (engine.marketLoops event b).1.fills := by
      show (engine.processMarketEvent event).1.bookFor event.instrument = _ ∧
        (engine.processMarketEvent event).2.fills = _
      rw [processMarketEvent, hbook]
      refine ⟨?_, rfl⟩
      show ((engine.books.insert _ _)[event.instrument.instrumentId]?).getD _ = _
      rw [KeyedMap.getElem?_insert, if_pos rfl, Option.getD_some]
    rw [hnext.1, hnext.2, hfor]
    exact (marketLoops_served engine event (hfor ▸ hwf)).2

/-- An ask level with a negative quantity at the price of a resting buy. -/
def negativeLevel : MarketEvent where
  instrument := { instrumentId := "btc-usdt", baseAsset := "BTC", quoteAsset := "USDT" }
  askLevels := [{ price := 100, quantity := -1 }]

/-- The level is passed over, so its fills add up to zero and not to at most its quantity. -/
theorem negative_level_exceeded :
    let next := (machine.run {} [.submit (exampleRequest .buy 1 100)]).processMarketEvent negativeLevel
    ¬ ∃ askFills bidFills : List (List FillEvent), next.2.fills = askFills.flatten ++ bidFills.flatten ∧
      List.Forall₂ (fun level fills => (fills.map FillEvent.quantity).sum ≤ level.quantity)
        negativeLevel.askLevels askFills := by
  intro next
  have hnone : next.2.fills = [] := by decide +kernel
  rintro ⟨askFills, bidFills, hfills, hlevels⟩
  rw [hnone, eq_comm, List.append_eq_nil_iff, List.flatten_eq_nil_iff] at hfills
  cases hlevels with
  | @cons _ fills _ _ hle _ =>
    rw [hfills.1 fills (List.mem_cons_self ..)] at hle
    exact absurd hle (by decide +kernel)

end MatchingEngine

end Wall
