import Wall.ExecutedNotional

/-!
# Limit prices protect orders

`submit` compares the limits of two orders exactly and executes at the resting one's, so its fills are never beyond
the limit of the new order, and every order that it consumes gets its own limit price.  A market event lets a level
reach an order by the tolerance, so its fills may be beyond a limit by that much.  Either way a fill is of its order's
side and within its quantity (`fills_protected`).
-/

namespace Wall

open KeyedMap

/-- The price is within the limit of an order of this side, give or take a slack. -/
def OrderSide.Within (slack : ℚ) : OrderSide → ℚ → ℚ → Prop
  | .buy, price, limit => price ≤ limit + slack
  | .sell, price, limit => limit - slack ≤ price

private theorem OrderSide.within_of_not_outOfReach {side : OrderSide} {price limit : ℚ}
    (h : ¬ side.OutOfReach price limit) : side.Within kQuantityTolerance price limit := by
  cases side with
  | buy => exact not_lt.1 h
  | sell => exact not_lt.1 h

/-- The fill fits the record of its order: its side, its quantity, and its limit price with this slack. -/
structure OrderRecord.Protects (r : OrderRecord) (slack : ℚ) (fill : FillEvent) : Prop where
  side : fill.side = r.side
  tolerance_lt : kQuantityTolerance < fill.quantity
  quantity_le : fill.quantity ≤ r.quantity
  price : ∃ limit, r.price = some limit ∧ r.side.Within slack fill.price limit

/-- By how much a fill of the call may be beyond the limit of its order. -/
def EngineOp.slack : EngineOp → ℚ
  | .processMarketEvent _ => kQuantityTolerance
  | _ => 0

theorem Executes.quantity_le {book book' : OrderBook} {orders orders' : StringMap OrderRecord} {es : List Execution}
    (h : Executes book orders es book' orders') {e : Execution} (he : e ∈ es) : e.quantity ≤ executedQuantity es := by
  refine List.single_le_sum (fun x hx => ?_) _ (List.mem_map_of_mem he)
  obtain ⟨e', he', rfl⟩ := List.mem_map.1 hx
  exact (kQuantityTolerance_pos.trans (h.quantity_pos e' he')).le

private theorem quantity_le_filledOf {fills : List FillEvent} {fill : FillEvent} (hfill : fill ∈ fills)
    (h : ∀ f ∈ fills, f.orderId = fill.orderId → 0 < f.quantity) : fill.quantity ≤ filledOf fill.orderId fills := by
  have hmem : fill ∈ fills.filter fun f => decide (f.orderId = fill.orderId) :=
    List.mem_filter.2 ⟨hfill, decide_eq_true rfl⟩
  refine List.single_le_sum (fun x hx => ?_) _ (List.mem_map_of_mem hmem)
  obtain ⟨f, hf, rfl⟩ := List.mem_map.1 hx
  obtain ⟨hf, hid⟩ := List.mem_filter.1 hf
  exact (h f hf (of_decide_eq_true hid)).le

namespace MatchingEngine

/-! ### Fills of `submit` -/

/-- An order that a request crosses rests at a price within the request's limit. -/
private theorem within_of_crosses {request : OrderRequest} {o : RestingOrder} (h : crosses request o = true) {price : ℚ}
    (hprice : request.price = some price) : request.side.Within 0 o.price price := by
  have hgood := atLeastAsGood_of_crosses h hprice
  cases hside : request.side with
  | buy =>
    rw [hside] at hgood
    show o.price ≤ price + 0
    rwa [add_zero]
  | sell =>
    rw [hside] at hgood
    show price - 0 ≤ o.price
    rwa [sub_zero]

private theorem Submitted.protects {engine : MatchingEngine} {request : OrderRequest} {es : List Execution}
    {fills : List FillEvent} (h : engine.Submitted request es fills) (hacc : request.Acceptable) :
    ∀ fill ∈ fills, (engine.finalRecord request).Protects 0 fill := by
  intro fill hfill
  obtain ⟨e, he, n, rfl⟩ := forall₂_exists_left h.run.fills_of hfill
  obtain ⟨price, hprice, -⟩ := hacc.price
  obtain ⟨-, -, hside, hprice', hquantity⟩ := finalRecord_same engine request
  have hcrosses : crosses request e.resting = true := by
    have hgoes : (!crosses request e.resting) = false := (h.run.accepted e he).2
    rwa [Bool.not_eq_false'] at hgoes
  refine ⟨hside.symm, h.run.executes.quantity_pos e he, ?_, price, hprice'.trans hprice, ?_⟩
  · -- the loop executes no more than the request asks for
    have hle := h.run.executes.quantity_le he
    have hrest : (engine.submitLoop request).1.quantity = request.quantity - executedQuantity es := h.run.quantity_eq
    have hnonneg : 0 ≤ (engine.submitLoop request).1.quantity := h.run.quantity_nonneg hacc.quantity.le
    rw [hquantity]
    show e.quantity ≤ request.quantity
    linarith
  · rw [hside]
    exact within_of_crosses hcrosses hprice

private theorem Sync.submit_protects {engine : MatchingEngine} (h : engine.Sync) {request : OrderRequest}
    (hnew : engine.orders[engine.issuedOrderId]? = none) : ∀ fill ∈ (engine.submit request).2.fills,
      ∃ r, (engine.submit request).1.getOrder fill.orderId = some r ∧ r.Protects 0 fill := by
  intro fill hfill
  have hid := h.submit_fills hnew fill hfill
  rcases engine.submit_cases request with ⟨reason, heq, -⟩ | ⟨-, hacc⟩
  · rw [heq] at hfill
    exact absurd hfill List.not_mem_nil
  · obtain ⟨es, fills, hs⟩ := h.submit_spec hnew hacc
    rw [hs.eq, hs.fills_eq] at hfill
    refine ⟨engine.finalRecord request, ?_, hs.protects hacc fill hfill⟩
    rw [hs.eq, hid, getOrder, accepted_orders, getElem?_insert, if_pos rfl]

/-- `submit` consumes open orders of the other side, each once: its fills are theirs in turn, each at the order's own
limit price and with what its record gains; and it changes no other record. -/
def ConsumesAtLimit (engine : MatchingEngine) (request : OrderRequest) (next : MatchingEngine × ExecutionResult) :
    Prop :=
  ∃ consumed : List String, consumed.Nodup ∧
    List.Forall₂ (fun id fill => ∃ r, engine.getOrder id = some r ∧ r.status.isOpen = true ∧
      r.side = request.side.opposite ∧ r.price = some fill.price ∧
      next.1.getOrder id = some (fillRecord r fill.quantity)) consumed next.2.fills ∧
    ∀ id, id ≠ engine.issuedOrderId → id ∉ consumed → next.1.getOrder id = engine.getOrder id

private theorem Sync.consumesAtLimit {engine : MatchingEngine} (h : engine.Sync) {request : OrderRequest}
    (hnew : engine.orders[engine.issuedOrderId]? = none) : engine.ConsumesAtLimit request (engine.submit request) := by
  rcases engine.submit_cases request with ⟨reason, heq, -⟩ | ⟨-, hacc⟩
  · rw [heq]
    refine ⟨[], List.nodup_nil, .nil, fun id hid _ => ?_⟩
    exact (getElem?_insert ..).trans (if_neg hid.symm)
  · have hgreedy := h.matchesGreedily hnew hacc
    have hb := h.bookFor request.instrument
    set queue := (engine.bookFor request.instrument).sideQueue request.side.opposite with hqueue
    refine ⟨(request.walk queue).taken.map fun t => t.1.orderId, hgreedy.once, ?_, hgreedy.missed⟩
    rw [List.forall₂_map_left_iff]
    refine (forall₂_of_map_eq hgreedy.fills.symm).imp ?_
    rintro t fill ⟨ht, hpair⟩
    rw [Prod.mk.injEq] at hpair
    obtain ⟨hprice, hquantity⟩ := hpair
    -- the order was in the queue, so its record says what the walk saw
    have htaken : (request.walk queue).taken.map Prod.fst <+: queue := Greedy.walk_taken_prefix _ _
    have hmem := htaken.subset (List.mem_map_of_mem ht)
    obtain ⟨hside, hlimit⟩ := hb.wf.side_of_mem hmem
    obtain ⟨r, hr, hrec⟩ := hb.tracked t.1 (hb.wf.mem_sideQueue_iff.1 hmem).1
    obtain ⟨r', hr', hnext⟩ := hgreedy.hit t ht
    obtain rfl : r = r' := Option.some.inj (hr.symm.trans hr')
    have hremaining := hrec.remaining_eq
    have hle : t.2 ≤ t.1.remainingQuantity := Greedy.walk_taken_le _ _ t ht
    refine ⟨r, hr, hrec.isOpen, hrec.side_eq.trans hside, ?_, ?_⟩
    · rw [hrec.price_eq, hlimit, hprice]
    · rw [hnext, ← hquantity, fillRecord_eq (by linarith), hremaining]

/-! ### Fills of market events -/

/-- A fill of a market event is of an open order, and of its side. -/
private theorem Sync.market_fills {engine : MatchingEngine} (h : engine.Sync) (event : MarketEvent) :
    ∀ fill ∈ (engine.processMarketEvent event).2.fills, kQuantityTolerance < fill.quantity ∧
      ∃ r, engine.getOrder fill.orderId = some r ∧ r.status.isOpen = true ∧ fill.side = r.side := by
  rcases processMarketEvent_spec h.booksOk event with heq | ⟨book, es, hbook, hrun, heq⟩
  · rw [heq]
    exact fun fill hfill => absurd hfill List.not_mem_nil
  · rw [heq]
    intro fill hfill
    obtain ⟨e, he, level, n, rfl⟩ := forall₂_exists_left hrun.fills_of hfill
    obtain ⟨r, hr, hopen, -, hside, -⟩ := hrun.executes.record_of_executed (h.synced _ book hbook) h.records e he
    exact ⟨hrun.executes.quantity_pos e he, r, hr, hopen, hside.symm⟩

private theorem Sync.market_protects {engine : MatchingEngine} (h : engine.Sync) (event : MarketEvent) :
    ∀ fill ∈ (engine.processMarketEvent event).2.fills,
      ∃ r, (engine.processMarketEvent event).1.getOrder fill.orderId = some r ∧
        r.Protects kQuantityTolerance fill := by
  intro fill hfill
  obtain ⟨hpos, r, hr, hopen, hside⟩ := h.market_fills event fill hfill
  obtain ⟨r', hr', htakes⟩ := h.market_takes event hr
  obtain ⟨hside', hprice, hquantity⟩ := htakes.evolves.terms
  obtain ⟨-, limit, hlimit, hreach⟩ := htakes.reached fill hfill rfl
  refine ⟨r', hr', hside.trans hside'.symm, hpos, ?_, limit, hprice.trans hlimit, ?_⟩
  · -- the record has gained all the fills of the order, and stays within its quantity
    have hle := quantity_le_filledOf hfill fun f hf hid => (htakes.reached f hf hid).1
    have hgained := htakes.filled_le
    have hbounds := (h.records _ r hr).bounds_of_isOpen hopen
    have hok := (h.processMarketEvent event).records _ r' hr'
    have htol := kQuantityTolerance_pos
    have hfilled : r'.status ≠ .rejected := by
      intro hrejected
      have hzero := hok.rejected hrejected
      linarith
    have hbounds' := hok.bounds hfilled
    linarith
  · rw [hside']
    exact OrderSide.within_of_not_outOfReach hreach

/-! ### Runs -/

/-- A call fills orders within their sides, quantities and limits. -/
private theorem Sync.step_protects {engine : MatchingEngine} (h : engine.Sync) {op : EngineOp} (hf : op.Fresh engine) :
    ∀ fill ∈ (machine.step engine op).2.fills,
      ∃ r, (machine.step engine op).1.getOrder fill.orderId = some r ∧ r.Protects op.slack fill := by
  cases op with
  | submit request => exact h.submit_protects (hf _ rfl)
  | processMarketEvent event => exact h.market_protects event
  | cancel orderId clientOrderId =>
    show ∀ fill ∈ (engine.cancel orderId clientOrderId).2.fills, _
    rcases h.cancel_spec orderId clientOrderId with ⟨-, _, _, _, heq⟩ | ⟨_, _, _, _, -, -, -, -, -, -, -, -, heq⟩
    · rw [heq]
      exact fun fill hfill => absurd hfill List.not_mem_nil
    · rw [heq]
      exact fun fill hfill => absurd hfill List.not_mem_nil
  | restoreOpenOrder => exact fun fill hfill => absurd hfill List.not_mem_nil

/-- In every run with fresh restores, at every call: each fill is of a tracked order and of its side, its quantity is
above the tolerance and within the order's, and its price is within the order's limit, exactly for `submit` and up to
the tolerance for `process_market_event`; and what `submit` consumes it executes at its own limit price. -/
theorem fills_protected (ops : List EngineOp) (h : RestoresFresh {} ops) :
    ∀ pre op post, ops = pre ++ op :: post →
      let engine := machine.run {} pre
      let next := machine.step engine op
      (∀ fill ∈ next.2.fills, ∃ r, next.1.getOrder fill.orderId = some r ∧ r.Protects op.slack fill) ∧
      ∀ request, op = .submit request → engine.ConsumesAtLimit request next := by
  rintro pre op post rfl engine next
  obtain ⟨-, ⟨hsync, hfresh⟩, -⟩ := machine.admissible_append.1 h.admissible_empty
  refine ⟨hsync.step_protects hfresh, ?_⟩
  rintro request rfl
  exact hsync.consumesAtLimit (hfresh _ rfl)

/-- A sell order, a buy order that takes some of it below its own limit, and a level beyond the rest's limit by half
the tolerance. -/
def exampleProtected : List EngineOp :=
  [.submit (exampleRequest .sell 2 100), .submit (exampleRequest .buy 1 101),
    .processMarketEvent
      { instrument := (exampleRequest .buy 1 101).instrument
        bidLevels := [⟨100 - 1 / 2000000000, 1⟩] }]

theorem fills_protected_exampleProtected : RestoresFresh {} exampleProtected ∧
    (∃ fill ∈ ((machine.run {} (exampleProtected.take 1)).submit (exampleRequest .buy 1 101)).2.fills,
      fill.price = 100) ∧
    (machine.run {} (exampleProtected.take 1)).ConsumesAtLimit (exampleRequest .buy 1 101)
      ((machine.run {} (exampleProtected.take 1)).submit (exampleRequest .buy 1 101)) := by
  have hfresh : RestoresFresh {} exampleProtected := restoresFresh_of_isRestore (by decide)
  refine ⟨hfresh, by decide +kernel, ?_⟩
  exact (fills_protected exampleProtected hfresh (exampleProtected.take 1) _ _ rfl).2 _ rfl

end MatchingEngine

end Wall
