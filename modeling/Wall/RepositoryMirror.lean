import Wall.CoreRuns

/-!
# The order repository mirrors the engine

The runtime's order repository sees an order only through the updates that the engine returns.  A market event
returns an update for every order it touches.  `submit` returns updates for the new order alone: the resting orders
that it executes change without one, and what is stored of them stays behind until a market event touches them.  So a
request keeps the mirror exactly if it matches no order that rests in the engine's own book (`mirrored_submit_iff`),
and the repository can be trusted at every point of a run exactly if all its requests are such
(`repository_mirrors_engine`).
-/

namespace Wall

open KeyedMap

/-! ### What a repository says of an order -/

namespace InMemoryOrderRepository

/-- The status and the filled quantity that are stored for an order. -/
def stateOf (repository : InMemoryOrderRepository) (orderId : String) : Option (OrderStatus × ℚ) :=
  (repository.getOrder orderId).map fun r => (r.status, r.filledQuantity)

private theorem stateOf_saveOrder (repository : InMemoryOrderRepository) (request : OrderRequest)
    (orderId clientOrderId id : String) :
    (repository.saveOrder request orderId clientOrderId).stateOf id =
      if orderId = id then some (.created, 0) else repository.stateOf id := by
  unfold stateOf getOrder saveOrder
  rw [KeyedMap.getElem?_insert]
  split <;> rfl

theorem stateOf_saveOrderUpdate (repository : InMemoryOrderRepository) (update : OrderUpdate) (id : String) :
    (repository.saveOrderUpdate update).stateOf id =
      if update.orderId = id then some (update.status, update.filledQuantity) else repository.stateOf id := by
  unfold stateOf getOrder saveOrderUpdate
  dsimp only
  split <;> rw [KeyedMap.getElem?_insert] <;> split <;> rfl

/-- Updates of other orders change nothing. -/
private theorem stateOf_updates_of_forall_ne {updates : List OrderUpdate} {id : String}
    (h : ∀ u ∈ updates, u.orderId ≠ id) (repository : InMemoryOrderRepository) :
    (updates.foldl saveOrderUpdate repository).stateOf id = repository.stateOf id := by
  induction updates generalizing repository with
  | nil => rfl
  | cons u updates ih =>
    rw [List.foldl_cons, ih (fun v hv => h v (List.mem_cons_of_mem _ hv)), stateOf_saveOrderUpdate,
      if_neg (h u (List.mem_cons_self ..))]

/-- An order whose updates all say the same is stored as they say. -/
private theorem stateOf_updates {updates : List OrderUpdate} {id : String} {status : OrderStatus} {filled : ℚ}
    (h : ∀ u ∈ updates, u.orderId = id → u.status = status ∧ u.filledQuantity = filled)
    (hex : ∃ u ∈ updates, u.orderId = id) (repository : InMemoryOrderRepository) :
    (updates.foldl saveOrderUpdate repository).stateOf id = some (status, filled) := by
  induction updates generalizing repository with
  | nil =>
    obtain ⟨u, hu, -⟩ := hex
    cases hu
  | cons u updates ih =>
    have htail := fun v hv => h v (List.mem_cons_of_mem u hv)
    rw [List.foldl_cons]
    by_cases hrest : ∃ v ∈ updates, v.orderId = id
    · exact ih htail hrest _
    · push Not at hrest
      obtain ⟨v, hv, hid⟩ := hex
      rcases List.mem_cons.1 hv with rfl | hv
      · obtain ⟨hstatus, hfilled⟩ := h v (List.mem_cons_self ..) hid
        rw [stateOf_updates_of_forall_ne hrest, stateOf_saveOrderUpdate, if_pos hid, hstatus, hfilled]
      · exact absurd hid (hrest v hv)

end InMemoryOrderRepository

/-! ### The mirror -/

/-- The repository says of every tracked order what the engine says. -/
def Mirrors (repository : InMemoryOrderRepository) (engine : MatchingEngine) : Prop :=
  ∀ (id : String) (r : OrderRecord), engine.getOrder id = some r →
    ∃ r', repository.getOrder id = some r' ∧ r'.status = r.status ∧
      |r'.filledQuantity - r.filledQuantity| ≤ kQuantityTolerance

/-- What the mirror says of one record, in terms of the stored state. -/
def StateMirrors (state : Option (OrderStatus × ℚ)) (r : OrderRecord) : Prop :=
  ∃ filled, state = some (r.status, filled) ∧ |filled - r.filledQuantity| ≤ kQuantityTolerance

private theorem mirrors_iff {repository : InMemoryOrderRepository} {engine : MatchingEngine} :
    Mirrors repository engine ↔
      ∀ id r, engine.orders[id]? = some r → StateMirrors (repository.stateOf id) r := by
  refine forall₃_congr fun id r _ => ?_
  unfold StateMirrors InMemoryOrderRepository.stateOf
  constructor
  · rintro ⟨r', hr', hstatus, hfilled⟩
    exact ⟨r'.filledQuantity, by rw [hr', Option.map_some, hstatus], hfilled⟩
  · rintro ⟨filled, hstate, hfilled⟩
    obtain ⟨r', hr', heq⟩ := Option.map_eq_some_iff.1 hstate
    rw [Prod.mk.injEq] at heq
    exact ⟨r', hr', heq.1, by rw [heq.2]; exact hfilled⟩

/-- The stored state mirrors the record, and says exactly what it says unless the order is filled. -/
def UpToDate (state : Option (OrderStatus × ℚ)) (r : OrderRecord) : Prop :=
  StateMirrors state r ∧ (r.status ≠ .filled → state = some (r.status, r.filledQuantity))

/-- The stored state lacks an execution of the order. -/
def Behind (state : Option (OrderStatus × ℚ)) (r : OrderRecord) : Prop :=
  ∃ status filled, state = some (status, filled) ∧ filled + kQuantityTolerance < r.filledQuantity

theorem UpToDate.exact {status : OrderStatus} {filled : ℚ} {r : OrderRecord} (hstatus : status = r.status)
    (hfilled : filled = r.filledQuantity) : UpToDate (some (status, filled)) r := by
  subst hstatus hfilled
  exact ⟨⟨r.filledQuantity, rfl, by rw [sub_self, abs_zero]; exact kQuantityTolerance_pos.le⟩, fun _ => rfl⟩

private theorem Behind.not_mirrors {state : Option (OrderStatus × ℚ)} {r : OrderRecord} (h : Behind state r) :
    ¬ StateMirrors state r := by
  rintro ⟨filled, rfl, hle⟩
  obtain ⟨_, _, heq, hlt⟩ := h
  cases heq
  rw [abs_sub_comm] at hle
  exact absurd ((le_abs_self _).trans hle) (not_le.2 (lt_sub_iff_add_lt'.2 hlt))

/-- The record has moved on from `r` by more than the tolerance. -/
def OrderRecord.Advances (r r' : OrderRecord) : Prop :=
  r.status ≠ .filled ∧ r.filledQuantity + kQuantityTolerance < r'.filledQuantity

/-- What is stored of an order falls behind when the order is executed without an update. -/
theorem OrderRecord.Advances.behind {state : Option (OrderStatus × ℚ)} {r r' : OrderRecord} (h : r.Advances r')
    (hstate : UpToDate state r ∨ Behind state r) : Behind state r' := by
  obtain ⟨hopen, hlt⟩ := h
  rcases hstate with hstate | ⟨status, filled, hstate, hbehind⟩
  · exact ⟨r.status, r.filledQuantity, hstate.2 hopen, hlt⟩
  · have htol := kQuantityTolerance_pos
    exact ⟨status, filled, hstate, by linarith⟩

namespace MatchingEngine

/-! ### Market events -/

/-- The updates of a market event are of the orders it touches, each with its record after the event. -/
theorem market_updates {engine : MatchingEngine} (h : engine.Sync) (event : MarketEvent) :
    (∀ u ∈ (engine.processMarketEvent event).2.updates, ∃ r,
      (engine.processMarketEvent event).1.orders[u.orderId]? = some r ∧ u.status = r.status ∧
        u.filledQuantity = r.filledQuantity) ∧
    ∀ id, (∀ u ∈ (engine.processMarketEvent event).2.updates, u.orderId ≠ id) →
      (engine.processMarketEvent event).1.orders[id]? = engine.orders[id]? := by
  rcases processMarketEvent_spec h.booksOk event with heq | ⟨book, es, hbook, hrun, heq⟩
  · rw [heq]
    exact ⟨fun u hu => absurd hu List.not_mem_nil, fun _ _ => rfl⟩
  · have hs := h.synced _ book hbook
    obtain ⟨-, hok⟩ := hrun.executes.synced hs h.records
    rw [heq]
    dsimp only
    constructor
    · intro u hu
      obtain ⟨id, -, hu⟩ := List.mem_flatMap.1 hu
      unfold appendOrderUpdate at hu
      split at hu
      · cases hu
      · rename_i r hr
        rw [List.mem_singleton.1 hu]
        exact ⟨r, by rw [makeUpdate, (hok id r hr).orderId_eq]; exact hr, rfl, rfl⟩
    · intro id hid
      by_cases htouched : ∃ e ∈ es, e.resting.orderId = id
      · -- a touched order has a record, so it has an update
        obtain ⟨e, he, rfl⟩ := htouched
        obtain ⟨r₀, hr₀, -⟩ := hrun.executes.record_of_executed hs h.records e he
        obtain ⟨r, hr, -⟩ := hrun.executes.ordersEvolve hs h.records _ r₀ hr₀
        refine absurd (hok _ r hr).orderId_eq (hid (makeUpdate r.orderId r.clientOrderId r.status r.filledQuantity none)
          (List.mem_flatMap.2 ⟨e.resting.orderId, ?_, ?_⟩))
        · rw [List.mem_dedup, List.mem_insertionSort]
          exact List.mem_map_of_mem he
        · rw [appendOrderUpdate, hr]
          exact List.mem_singleton_self _
      · push Not at htouched
        exact hrun.executes.getElem?_of_not_executed hs h.records id htouched

end MatchingEngine

/-! ### Requests -/

private theorem Executes.book_eq_of_nil {book book' : OrderBook} {orders orders' : StringMap OrderRecord}
    (h : Executes book orders [] book' orders') : book' = book := by
  cases h
  rfl

private theorem Executes.lt_executedQuantity {book book' : OrderBook} {orders orders' : StringMap OrderRecord}
    {es : List Execution} (h : Executes book orders es book' orders') (hes : es ≠ []) :
    kQuantityTolerance < executedQuantity es := by
  obtain ⟨e, he⟩ := List.exists_mem_of_ne_nil es hes
  have hpos : ∀ x ∈ es.map Execution.quantity, 0 ≤ x := by
    intro x hx
    obtain ⟨e', he', rfl⟩ := List.mem_map.1 hx
    exact (kQuantityTolerance_pos.trans (h.quantity_pos e' he')).le
  exact (h.quantity_pos e he).trans_le (List.single_le_sum hpos _ (List.mem_map_of_mem he))

/-- An executed order has advanced by the end of the chain. -/
theorem Executes.advances {except : Option String} {book book' : OrderBook} {orders orders' : StringMap OrderRecord}
    {es : List Execution} (h : Executes book orders es book' orders') (hs : Synced except book orders)
    (hok : RecordsOk orders) : ∀ e ∈ es, ∃ r r', orders[e.resting.orderId]? = some r ∧
      orders'[e.resting.orderId]? = some r' ∧ r.Advances r' := by
  refine h.tail_induction (P := fun orders es orders' => ∀ e ∈ es, ∃ r r', orders[e.resting.orderId]? = some r ∧
    orders'[e.resting.orderId]? = some r' ∧ r.Advances r') hs hok rfl (by simp) ?_
  intro orders r e es book book' orders' hr hrec _ _ hpos hle hs₁ hok₁ htail ih e' he'
  have hopen : r.status ≠ .filled := OrderStatus.ne_of_isOpen hrec.isOpen rfl
  have hfill : r.filledQuantity + kQuantityTolerance < (fillRecord r e.quantity).filledQuantity := by
    have hrem := hrec.remaining_eq
    rw [fillRecord_eq (by linarith)]
    split <;> dsimp only <;> linarith
  by_cases hid : e'.resting.orderId = e.resting.orderId
  · -- its first execution is here, and the later ones only add to it
    obtain ⟨r', hr', hevolves⟩ := htail.ordersEvolve hs₁ hok₁ e.resting.orderId _
      (by rw [KeyedMap.getElem?_insert, if_pos rfl])
    rw [hid]
    exact ⟨r, r', hr, hr', hopen, hfill.trans_le hevolves.filled_le⟩
  · rcases List.mem_cons.1 he' with rfl | he'
    · exact absurd rfl hid
    · obtain ⟨r₁, r', hr₁, hr', hadvances⟩ := ih e' he'
      rw [KeyedMap.getElem?_insert, if_neg (Ne.symm hid)] at hr₁
      exact ⟨r₁, r', hr₁, hr', hadvances⟩

namespace MatchingEngine

/-- The matching loop executes resting orders exactly for a request that matches one. -/
private theorem Submitted.executes_iff {engine : MatchingEngine} {request : OrderRequest} {es : List Execution}
    {fills : List FillEvent} (h : engine.Submitted request es fills) (hacc : request.Acceptable) :
    es ≠ [] ↔ engine.MatchesLocally request := by
  constructor
  · intro hes
    by_contra hno
    -- a loop that stops at once executes nothing
    have hquantity := h.run.quantity_eq
    rw [submitLoop_of_not_matches hacc hno, eq_comm, sub_eq_self] at hquantity
    exact (kQuantityTolerance_pos.trans (h.run.executes.lt_executedQuantity hes)).ne' hquantity
  · rintro ⟨-, hq, o, hbest, hcross⟩ rfl
    have hquantity := h.run.quantity_eq
    rw [executedQuantity_nil, sub_zero] at hquantity
    -- nothing was executed, so the loop ended at the order that it started at, and neither side was used up
    have hstop : (engine.submitLoop request).2 = .noMatch := by
      cases hstop : (engine.submitLoop request).2 with
      | exhausted => exact absurd (h.run.exhausted hstop) (not_le.2 (hquantity ▸ hq))
      | noMatch => rfl
      | fillFailed => exact absurd hstop h.run.not_failed
      | outOfFuel => exact absurd hstop (engine.submitLoop_ne_outOfFuel request)
    have hstops := h.run.noMatch hstop o (by rw [h.run.executes.book_eq_of_nil]; exact hbest)
    simp [submitRule, hcross] at hstops

/-- What `submit` does to the other orders: those that it executes advance, and it executes some exactly if the request
matches locally. -/
private theorem submit_others {engine : MatchingEngine} (h : engine.Steady) (request : OrderRequest) :
    ∃ executed : List String, (executed ≠ [] ↔ engine.MatchesLocally request) ∧
      (∀ id ∈ executed, id ≠ engine.issuedOrderId ∧ ∃ r r', engine.orders[id]? = some r ∧
        (engine.submit request).1.orders[id]? = some r' ∧ r.Advances r') ∧
      ∀ id, id ∉ executed → id ≠ engine.issuedOrderId →
        (engine.submit request).1.orders[id]? = engine.orders[id]? := by
  rcases engine.submit_cases request with ⟨reason, heq, -, hacc⟩ | ⟨-, hacc⟩
  · refine ⟨[], iff_of_false (fun hne => hne rfl) fun hmatch => hacc hmatch.1, by simp, fun id _ hid => ?_⟩
    rw [heq, rejectNew, track_orders, KeyedMap.getElem?_insert, if_neg (Ne.symm hid)]
  · obtain ⟨es, fills, hsub⟩ := h.sync.submit_spec h.issued_untracked hacc
    have hadvances := hsub.run.executes.advances hsub.before.1 hsub.before.2
    have hothers : ∀ id, id ≠ engine.issuedOrderId → (engine.submitStart request).orders[id]? = engine.orders[id]? ∧
        (engine.accepted request).orders[id]? = (engine.submitLoop request).1.orders[id]? := by
      intro id hid
      rw [submitStart, track_orders, accepted_orders, KeyedMap.getElem?_insert, KeyedMap.getElem?_insert,
        if_neg (Ne.symm hid), if_neg (Ne.symm hid)]
      exact ⟨rfl, rfl⟩
    refine ⟨es.map fun e => e.resting.orderId, ?_, fun id hmem => ?_, fun id hmem hid => ?_⟩
    · rw [← hsub.executes_iff hacc, Ne, List.map_eq_nil_iff]
    · obtain ⟨e, he, rfl⟩ := List.mem_map.1 hmem
      obtain ⟨r, r', hr, hr', hadvance⟩ := hadvances e he
      obtain ⟨hbefore, hafter⟩ := hothers _ (hsub.others e he)
      rw [hsub.eq]
      exact ⟨hsub.others e he, r, r', hbefore.symm.trans hr, hafter.trans hr', hadvance⟩
    · obtain ⟨hbefore, hafter⟩ := hothers id hid
      rw [hsub.eq, hafter, ← hbefore]
      refine hsub.run.executes.getElem?_of_not_executed hsub.before.1 hsub.before.2 id fun e he heq => hmem ?_
      exact List.mem_map.2 ⟨e, he, heq⟩

/-- All updates of `submit` are of the new order, and the last one says what its record says. -/
private theorem submit_new {engine : MatchingEngine} (h : engine.Steady) (request : OrderRequest) :
    (engine.submit request).2.orderId = engine.issuedOrderId ∧
    (∀ u ∈ (engine.submit request).2.updates, u.orderId = engine.issuedOrderId) ∧
    ∃ (r : OrderRecord) (updates : List OrderUpdate) (last : OrderUpdate),
      (engine.submit request).1.orders[engine.issuedOrderId]? = some r ∧
      (engine.submit request).2.updates = updates ++ [last] ∧
      UpToDate (some (last.status, last.filledQuantity)) r := by
  have htol := kQuantityTolerance_pos
  rcases engine.submit_cases request with ⟨reason, heq, -⟩ | ⟨-, hacc⟩
  · rw [heq]
    refine ⟨rfl, fun u hu => ?_, { engine.newRecord request with status := .rejected }, [], _, ?_, rfl, .exact rfl rfl⟩
    · rw [List.mem_singleton.1 hu]
      rfl
    · rw [rejectNew, track_orders, KeyedMap.getElem?_insert, if_pos rfl]
  · obtain ⟨es, fills, hsub⟩ := h.sync.submit_spec h.issued_untracked hacc
    have hrecord : (engine.accepted request).orders[engine.issuedOrderId]? = some (engine.finalRecord request) := by
      rw [accepted_orders, KeyedMap.getElem?_insert, if_pos rfl]
    rw [hsub.eq]
    refine ⟨rfl, fun u hu => (mem_acceptedResult_updates engine request hu).1, engine.finalRecord request, ?_⟩
    rw [acceptedResult]
    by_cases hq : (engine.submitLoop request).1.quantity ≤ kQuantityTolerance
    · -- what the loop left counts as filled in the record, but not in the update
      simp only [if_pos hq]
      refine ⟨[_], _, hrecord, rfl, ?_⟩
      rw [finalRecord_of_le hq]
      refine ⟨⟨_, rfl, ?_⟩, fun hne => absurd rfl hne⟩
      show |request.quantity - (engine.submitLoop request).1.quantity - request.quantity| ≤ kQuantityTolerance
      rw [sub_sub_cancel_left, abs_neg, abs_of_nonneg (hsub.run.quantity_nonneg hacc.quantity.le)]
      exact hq
    · simp only [if_neg hq]
      by_cases hexecuted : request.quantity - (engine.submitLoop request).1.quantity > kQuantityTolerance
      · simp only [if_pos hexecuted]
        refine ⟨[_], _, hrecord, rfl, ?_⟩
        rw [finalRecord, if_neg hq, if_pos hexecuted]
        exact .exact rfl rfl
      · -- every execution is of more than the tolerance, so there was none
        simp only [if_neg hexecuted]
        have hnone : request.quantity - (engine.submitLoop request).1.quantity = 0 := by
          have hquantity : (engine.submitLoop request).1.quantity = request.quantity - executedQuantity es :=
            hsub.run.quantity_eq
          rw [hquantity, sub_sub_cancel] at hexecuted ⊢
          by_cases hes : es = []
          · rw [hes, executedQuantity_nil]
          · exact absurd (hsub.run.executes.lt_executedQuantity hes) hexecuted
        refine ⟨[], _, hrecord, rfl, ?_⟩
        rw [finalRecord, if_neg hq, if_neg hexecuted]
        exact .exact rfl hnone.symm

end MatchingEngine

/-! ### One call of the core -/

/-- The core has a repository, and it mirrors the engine. -/
def TradingCore.Mirrored (core : TradingCore) : Prop :=
  ∃ repository, core.orderRepository = some repository ∧ Mirrors repository core.engine

theorem TradingCore.onMarket_repository (core : TradingCore) (event : MarketEvent) :
    (core.onMarket event).orderRepository = core.orderRepository.map fun repository =>
      (core.engine.processMarketEvent event).2.updates.foldl InMemoryOrderRepository.saveOrderUpdate repository := by
  unfold onMarket record
  dsimp only
  split <;> rfl

theorem TradingCore.onSubmit_repository (core : TradingCore) (request : OrderRequest) :
    (core.onSubmit request).orderRepository = core.orderRepository.map fun repository =>
      (core.engine.submit request).2.updates.foldl InMemoryOrderRepository.saveOrderUpdate
        (SimulationRuntime.persistNewOrder repository request (core.engine.submit request).2) := by
  unfold onSubmit record
  dsimp only
  rw [Option.map_map]
  rfl

/-- Storing a new order leaves the other orders alone. -/
private theorem stateOf_persistNewOrder (repository : InMemoryOrderRepository) (request : OrderRequest)
    (result : ExecutionResult) {id : String} (hid : result.orderId ≠ id) :
    (SimulationRuntime.persistNewOrder repository request result).stateOf id = repository.stateOf id := by
  unfold SimulationRuntime.persistNewOrder
  split
  · rfl
  · split
    · rfl
    · rw [InMemoryOrderRepository.stateOf_saveOrder, if_neg hid]

/-- The core has a repository, and what it stores of each tracked order is up to date or lacks an execution. -/
def TradingCore.Follows (core : TradingCore) : Prop :=
  ∃ repository, core.orderRepository = some repository ∧ ∀ id r, core.engine.orders[id]? = some r →
    UpToDate (repository.stateOf id) r ∨ Behind (repository.stateOf id) r

namespace TradingCore

/-- After a market event the stored state of an order is what its record says, or both are as they were. -/
private theorem market_stored {core : TradingCore} (hs : core.engine.Steady) (event : MarketEvent)
    {repository : InMemoryOrderRepository} (hrepository : core.orderRepository = some repository) :
    ∃ repository', (core.step (.market event)).orderRepository = some repository' ∧
      ∀ id r, (core.step (.market event)).engine.orders[id]? = some r → UpToDate (repository'.stateOf id) r ∨
        repository'.stateOf id = repository.stateOf id ∧ core.engine.orders[id]? = some r := by
  obtain ⟨hupdates, hothers⟩ := MatchingEngine.market_updates hs.sync event
  refine ⟨_, by rw [TradingCore.step, onMarket_repository, hrepository, Option.map_some], fun id r hr => ?_⟩
  rw [step_engine] at hr
  -- an event writes its updates at the end, so all updates of an order carry its final state
  by_cases hid : ∃ u ∈ (core.engine.processMarketEvent event).2.updates, u.orderId = id
  · have hsame : ∀ u ∈ (core.engine.processMarketEvent event).2.updates, u.orderId = id →
        u.status = r.status ∧ u.filledQuantity = r.filledQuantity := by
      rintro u hu rfl
      obtain ⟨r', hr', hstatus, hfilled⟩ := hupdates u hu
      cases hr.symm.trans hr'
      exact ⟨hstatus, hfilled⟩
    rw [InMemoryOrderRepository.stateOf_updates hsame hid]
    exact .inl (.exact rfl rfl)
  · push Not at hid
    rw [InMemoryOrderRepository.stateOf_updates_of_forall_ne hid]
    exact .inr ⟨rfl, (hothers id hid).symm.trans hr⟩

/-- After a request the new order is stored as its record says, and the other orders as they were. -/
private theorem submit_stored {core : TradingCore} (hs : core.engine.Steady) (request : OrderRequest)
    {repository : InMemoryOrderRepository} (hrepository : core.orderRepository = some repository) :
    ∃ repository', (core.step (.submit request)).orderRepository = some repository' ∧
      (∀ r, (core.step (.submit request)).engine.orders[core.engine.issuedOrderId]? = some r →
        UpToDate (repository'.stateOf core.engine.issuedOrderId) r) ∧
      ∀ id, id ≠ core.engine.issuedOrderId → repository'.stateOf id = repository.stateOf id := by
  obtain ⟨horderId, hids, new, updates, last, hnew, hupdates, hstate⟩ := MatchingEngine.submit_new hs request
  refine ⟨_, by rw [TradingCore.step, onSubmit_repository, hrepository, Option.map_some], fun r hr => ?_,
    fun id hid => ?_⟩
  · cases hnew.symm.trans hr
    have hlast : last.orderId = core.engine.issuedOrderId := hids last (hupdates ▸ by simp)
    rw [hupdates, List.foldl_append, List.foldl_cons, List.foldl_nil, InMemoryOrderRepository.stateOf_saveOrderUpdate,
      if_pos hlast]
    exact hstate
  · rw [InMemoryOrderRepository.stateOf_updates_of_forall_ne (fun u hu => (hids u hu).symm ▸ Ne.symm hid),
      stateOf_persistNewOrder _ _ _ (horderId.symm ▸ Ne.symm hid)]

/-- Whatever is called, no order is stored other than up to date or behind. -/
theorem Follows.step {core : TradingCore} (h : core.Follows) (hs : core.engine.Steady) (op : TradingOp) :
    (core.step op).Follows := by
  obtain ⟨repository, hrepository, hfollows⟩ := h
  cases op with
  | market event =>
    obtain ⟨repository', hrepository', hstored⟩ := market_stored hs event hrepository
    refine ⟨repository', hrepository', fun id r hr => ?_⟩
    rcases hstored id r hr with hstate | ⟨hstate, hr⟩
    · exact .inl hstate
    · exact hstate ▸ hfollows id r hr
  | submit request =>
    obtain ⟨repository', hrepository', hnew, hothers⟩ := submit_stored hs request hrepository
    obtain ⟨executed, -, hexecuted, hunexecuted⟩ := MatchingEngine.submit_others hs request
    refine ⟨repository', hrepository', fun id r' hr' => ?_⟩
    by_cases hid : id = core.engine.issuedOrderId
    · subst hid
      exact .inl (hnew r' hr')
    · rw [hothers id hid]
      rw [step_engine] at hr'
      by_cases hmem : id ∈ executed
      · obtain ⟨-, r, r₁, hr, hr₁, hadvances⟩ := hexecuted id hmem
        cases hr₁.symm.trans hr'
        exact .inr (hadvances.behind (hfollows id r hr))
      · exact hfollows id r' ((hunexecuted id hmem hid).symm.trans hr')

private theorem mirrored_iff {core : TradingCore} {repository : InMemoryOrderRepository}
    (h : core.orderRepository = some repository) :
    core.Mirrored ↔ ∀ id r, core.engine.orders[id]? = some r → StateMirrors (repository.stateOf id) r := by
  rw [← mirrors_iff, Mirrored, h]
  constructor
  · rintro ⟨_, heq, hmirrors⟩
    cases heq
    exact hmirrors
  · intro hmirrors
    exact ⟨repository, rfl, hmirrors⟩

/-- A market event keeps the mirror. -/
theorem Mirrored.market {core : TradingCore} (h : core.Mirrored) (hs : core.engine.Steady) (event : MarketEvent) :
    (core.step (.market event)).Mirrored := by
  obtain ⟨repository, hrepository, hmirrors⟩ := h
  rw [mirrors_iff] at hmirrors
  obtain ⟨repository', hrepository', hstored⟩ := market_stored hs event hrepository
  refine ⟨repository', hrepository', mirrors_iff.2 fun id r hr => ?_⟩
  rcases hstored id r hr with hstate | ⟨hstate, hr⟩
  · exact hstate.1
  · exact hstate ▸ hmirrors id r hr

/-- After a request the repository mirrors the engine exactly if it did before and the request matched no resting
order. -/
theorem mirrored_submit_iff {core : TradingCore} (h : core.Follows) (hs : core.engine.Steady) (request : OrderRequest) :
    (core.step (.submit request)).Mirrored ↔ core.NoLocalMatch (.submit request) ∧ core.Mirrored := by
  obtain ⟨repository, hrepository, hfollows⟩ := h
  obtain ⟨repository', hrepository', hnew, hothers⟩ := submit_stored hs request hrepository
  obtain ⟨executed, hmatch, hexecuted, hunexecuted⟩ := MatchingEngine.submit_others hs request
  have hafter : (core.step (.submit request)).engine = (core.engine.submit request).1 := step_engine core _
  rw [mirrored_iff hrepository, mirrored_iff hrepository', hafter, NoLocalMatch, ← hmatch, not_not]
  constructor
  · intro hmirrors
    have hnone : executed = [] := by
      -- an executed order stays behind
      refine List.eq_nil_iff_forall_not_mem.2 fun id hid => ?_
      obtain ⟨hne, r, r', hr, hr', hadvances⟩ := hexecuted id hid
      exact (hadvances.behind (hfollows id r hr)).not_mirrors (hothers id hne ▸ hmirrors id r' hr')
    refine ⟨hnone, fun id r hr => ?_⟩
    have hne : id ≠ core.engine.issuedOrderId := by
      rintro rfl
      rw [hs.issued_untracked] at hr
      cases hr
    rw [← hothers id hne]
    exact hmirrors id r ((hunexecuted id (hnone ▸ List.not_mem_nil) hne).trans hr)
  · rintro ⟨hnone, hmirrors⟩ id r hr
    by_cases hid : id = core.engine.issuedOrderId
    · subst hid
      exact (hnew r hr).1
    · rw [hothers id hid]
      exact hmirrors id r ((hunexecuted id (hnone ▸ List.not_mem_nil) hid).symm.trans hr)

/-- Requests one after the other: none of them may match. -/
private theorem mirrored_submits_iff {core : TradingCore} (h : core.Follows) (hs : core.engine.Steady)
    {ops : List TradingOp} (hops : ∀ op ∈ ops, ∃ request, op = .submit request) :
    (machine.run core ops).Mirrored ↔ machine.Admissible NoLocalMatch core ops ∧ core.Mirrored := by
  induction ops generalizing core with
  | nil => exact (and_iff_right trivial).symm
  | cons op ops ih =>
    obtain ⟨request, rfl⟩ := hops op (List.mem_cons_self ..)
    have htail := ih (h.step hs (.submit request)) (steady_step hs (.submit request))
      fun op hop => hops op (List.mem_cons_of_mem _ hop)
    rw [Machine.run_cons]
    refine htail.trans ((and_congr_right fun _ => mirrored_submit_iff h hs request).trans ?_)
    rw [Machine.Admissible]
    tauto

end TradingCore

namespace SimulationRuntime

variable {σ : Type*}

/-- What the mirror needs of the core before an event. -/
def Following (runtime : SimulationRuntime σ) : Prop := runtime.core.engine.Steady ∧ runtime.core.Follows

theorem Following.onEvent {runtime : SimulationRuntime σ} (h : runtime.Following) (input : RuntimeInput) :
    (runtime.onEvent input).Following := by
  have hstep : ∀ (core : TradingCore) (op : TradingOp), core.engine.Steady ∧ core.Follows →
      (core.step op).engine.Steady ∧ (core.step op).Follows :=
    fun core op h => ⟨TradingCore.steady_step h.1 op, h.2.step h.1 op⟩
  unfold Following
  rw [(onEvent_core runtime input).1]
  exact Machine.invariant_of_step (M := TradingCore.machine)
    (P := fun core : TradingCore => core.engine.Steady ∧ core.Follows) hstep h _

private theorem forall_mem_submitOps (riskConfig : RiskConfig) (store : MarketStateStore) (input : RuntimeInput)
    (k : Nat) (requests : List OrderRequest) :
    ∀ op ∈ submitOps riskConfig store input k requests, ∃ request, op = TradingOp.submit request := by
  induction requests generalizing k with
  | nil => exact fun _ hop => nomatch hop
  | cons request requests ih =>
    intro op hop
    rcases List.mem_append.1 hop with hop | hop
    · split at hop
      · exact ⟨request, List.mem_singleton.1 hop⟩
      · cases hop
    · exact ih (k + 1) op hop

/-- An event keeps the mirror exactly if no request that it has approved matches locally: the market part of the event
always keeps it, and no later request of the event brings it back. -/
private theorem mirrored_onEvent_iff {runtime : SimulationRuntime σ} (h : runtime.Following)
    (hmirrored : runtime.core.Mirrored) (input : RuntimeInput) :
    (runtime.onEvent input).core.Mirrored ↔ runtime.CallsSatisfy TradingCore.NoLocalMatch input := by
  have hsubmits := forall_mem_submitOps runtime.riskConfig (runtime.marketPhase input.event).marketStateStore input 0
    (runtime.requestsOf input)
  rw [(onEvent_core runtime input).1, CallsSatisfy, tradingOps]
  generalize submitOps _ _ _ _ _ = ops at hsubmits ⊢
  cases input.event with
  | market event =>
    have hmarket := hmirrored.market h.1 event
    exact (TradingCore.mirrored_submits_iff (h.2.step h.1 _) (TradingCore.steady_step h.1 _) hsubmits).trans
      ((and_iff_left hmarket).trans (and_iff_right trivial).symm)
  | timer => exact (TradingCore.mirrored_submits_iff h.2 h.1 hsubmits).trans (and_iff_left hmirrored)
  | transaction => exact (TradingCore.mirrored_submits_iff h.2 h.1 hsubmits).trans (and_iff_left hmirrored)

end SimulationRuntime

end Wall
