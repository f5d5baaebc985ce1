import Wall.Uncrossed
import Wall.GreedyMatching

/-!
# Instruments do not interfere

The engine keeps the records of all instruments in one map, under ids from one counter, and a book for each
instrument.  A call for one instrument finds the records that it changes through the orders of that instrument's book,
and these are the records of the instrument (`Confined`).  Two engines that agree on the book and the records of an
instrument therefore go through the same steps, and only the ids that they generate differ (`Parallel`).
-/

namespace Wall

open KeyedMap

/-- The call is for the instrument: it submits an order for it, brings its market data, or cancels an order of it. -/
def EngineOp.Concerns (engine : MatchingEngine) (i : String) : EngineOp → Prop
  | .submit request => request.instrument.instrumentId = i
  | .processMarketEvent event => event.instrument.instrumentId = i
  | .cancel orderId _ => ∃ r, engine.getOrder orderId = some r ∧ r.instrumentId = i
  | .restoreOpenOrder _ _ _ _ => False

namespace MatchingEngine

/-! ### What a call changes -/

/-- The call leaves the books and the records of all instruments but `i` alone, and its fills and updates are of
orders of `i`. -/
structure Confined (engine : MatchingEngine) (i : String) (next : MatchingEngine × ExecutionResult) : Prop where
  books : ∀ j, j ≠ i → next.1.findBook j = engine.findBook j
  records : SameOutside i engine.orders next.1.orders
  fills : ∀ fill ∈ next.2.fills, ∃ r, next.1.getOrder fill.orderId = some r ∧ r.instrumentId = i
  updates : ∀ u ∈ next.2.updates, ∃ r, next.1.getOrder u.orderId = some r ∧ r.instrumentId = i

private theorem Sync.submit_confined {engine : MatchingEngine} (h : engine.Sync) {request : OrderRequest}
    (hnew : engine.orders[engine.issuedOrderId]? = none) :
    engine.Confined request.instrument.instrumentId (engine.submit request) := by
  rcases engine.submit_cases request with ⟨reason, heq, -⟩ | ⟨-, hacc⟩
  · rw [heq]
    refine ⟨fun _ _ => rfl, SameOutside.insert_new rfl hnew, fun fill hfill => absurd hfill List.not_mem_nil, ?_⟩
    intro u hu
    rw [List.mem_singleton.1 hu]
    exact ⟨_, (getElem?_insert ..).trans (if_pos rfl), rfl⟩
  · obtain ⟨es, fills, hs⟩ := h.submit_spec hnew hacc
    have hrecord : (engine.accepted request).getOrder engine.issuedOrderId = some (engine.finalRecord request) := by
      rw [getOrder, accepted_orders, getElem?_insert, if_pos rfl]
    have hinstrument := (finalRecord_same engine request).2.1
    rw [hs.eq]
    refine ⟨fun j hj => (getElem?_insert ..).trans (if_neg hj.symm), hs.sameOutside hnew h.booksOk, ?_, ?_⟩
    · intro fill hfill
      rw [hs.fills_eq] at hfill
      obtain ⟨e, -, n, rfl⟩ := forall₂_exists_left hs.run.fills_of hfill
      exact ⟨_, hrecord, hinstrument⟩
    · intro u hu
      have hid := (mem_acceptedResult_updates engine request hu).1
      exact ⟨_, hid ▸ hrecord, hinstrument⟩

private theorem Sync.market_confined {engine : MatchingEngine} (h : engine.Sync) (event : MarketEvent) :
    engine.Confined event.instrument.instrumentId (engine.processMarketEvent event) := by
  rcases processMarketEvent_spec h.booksOk event with heq | ⟨book, es, hbook, hrun, heq⟩
  · rw [heq]
    exact ⟨fun _ _ => rfl, .refl _ _, fun _ hfill => absurd hfill List.not_mem_nil,
      fun _ hu => absurd hu List.not_mem_nil⟩
  · have hs := h.synced _ book hbook
    have hi := h.instrument _ book hbook
    have hrecords := (hrun.executes.synced hs h.records).2
    have hsame := hrun.executes.sameOutside hs h.records
    rw [hi] at hsame
    -- what was executed is of the book's instrument, and stays so
    have hexecuted : ∀ e ∈ es, ∃ r, (engine.marketLoops event book).1.orders[e.resting.orderId]? = some r ∧
        r.instrumentId = event.instrument.instrumentId := by
      intro e he
      obtain ⟨r, hr, -, hinstrument, -⟩ := hrun.executes.record_of_executed hs h.records e he
      obtain ⟨r', hr', hevolves⟩ := hrun.executes.ordersEvolve hs h.records _ r hr
      refine ⟨r', hr', ?_⟩
      rw [hevolves.same]
      exact hinstrument.trans hi
    rw [heq]
    refine ⟨fun j hj => (getElem?_insert ..).trans (if_neg hj.symm), hsame, ?_, ?_⟩
    · intro fill hfill
      obtain ⟨e, he, level, n, rfl⟩ := forall₂_exists_left hrun.fills_of hfill
      exact hexecuted e he
    · intro u hu
      obtain ⟨id, hid, hu⟩ := List.mem_flatMap.1 hu
      rw [List.mem_dedup, List.mem_insertionSort, List.mem_map] at hid
      obtain ⟨e, he, rfl⟩ := hid
      obtain ⟨r, hr, hinstrument⟩ := hexecuted e he
      rw [appendOrderUpdate, hr] at hu
      rw [List.mem_singleton.1 hu]
      refine ⟨r, ?_, hinstrument⟩
      show (engine.marketLoops event book).1.orders[r.orderId]? = some r
      rw [(hrecords _ r hr).orderId_eq, hr]

private theorem Sync.cancel_confined {engine : MatchingEngine} (h : engine.Sync) {orderId : String}
    (clientOrderId : String) {r : OrderRecord} (hr : engine.getOrder orderId = some r) :
    engine.Confined r.instrumentId (engine.cancel orderId clientOrderId) := by
  rcases h.cancel_spec orderId clientOrderId with ⟨-, _, _, _, heq⟩ | ⟨r', _, book', _, hr', -, -, -, -, -, -, -, heq⟩
  · rw [heq]
    refine ⟨fun _ _ => rfl, .refl _ _, fun _ hfill => absurd hfill List.not_mem_nil, fun u hu => ?_⟩
    rw [List.mem_singleton.1 hu]
    exact ⟨r, hr, rfl⟩
  · obtain rfl : r = r' := Option.some.inj (hr.symm.trans hr')
    rw [heq]
    refine ⟨fun j hj => (getElem?_insert ..).trans (if_neg hj.symm), ?_, fun _ hfill => absurd hfill List.not_mem_nil,
      fun u hu => ?_⟩
    · refine SameOutside.insert rfl fun r' hr' => ?_
      rw [Option.some.inj (hr'.symm.trans hr)]
    · have hid : u.orderId = orderId := by
        rcases List.mem_cons.1 hu with rfl | hu
        · rfl
        · rw [List.mem_singleton.1 hu]
          rfl
      exact ⟨canceledRecord r, hid ▸ (getElem?_insert ..).trans (if_pos rfl), rfl⟩

private theorem Sync.confined {engine : MatchingEngine} (h : engine.Sync) {op : EngineOp} (hf : op.Fresh engine)
    {i : String} (hop : op.Concerns engine i) : engine.Confined i (machine.step engine op) := by
  cases op with
  | submit request =>
    cases hop
    exact h.submit_confined (hf _ rfl)
  | processMarketEvent event =>
    cases hop
    exact h.market_confined event
  | cancel orderId clientOrderId =>
    obtain ⟨r, hr, rfl⟩ := hop
    exact h.cancel_confined clientOrderId hr
  | restoreOpenOrder => exact hop.elim

end MatchingEngine

/-! ### Generated ids -/

/-- A name that belongs to an order, blank if the order has the new id. -/
def unnamed (new : Option String) (orderId name : String) : String := if new = some orderId then "" else name

private theorem unnamed_new (orderId name : String) : unnamed (some orderId) orderId name = "" := if_pos rfl

private theorem unnamed_other {new : Option String} {orderId : String} (h : new ≠ some orderId) (name : String) :
    unnamed new orderId name = name := if_neg h

/-- A fill without its number, and without the name of the new order. -/
def FillEvent.anonymous (new : Option String) (fill : FillEvent) : FillEvent :=
  { fill with fillId := "", orderId := unnamed new fill.orderId fill.orderId }

def OrderUpdate.anonymous (new : Option String) (u : OrderUpdate) : OrderUpdate :=
  { u with
    orderId := unnamed new u.orderId u.orderId
    clientOrderId := unnamed new u.orderId u.clientOrderId }

private theorem OrderUpdate.anonymous_makeUpdate (orderId clientOrderId : String) (status : OrderStatus)
    (filledQuantity : ℚ) (reason : Option String) :
    (makeUpdate orderId clientOrderId status filledQuantity reason).anonymous (some orderId) =
      makeUpdate "" "" status filledQuantity reason := by
  unfold anonymous makeUpdate
  dsimp only
  rw [unnamed_new, unnamed_new]

def ExecutionResult.anonymous (new : Option String) (result : ExecutionResult) : ExecutionResult where
  orderId := unnamed new result.orderId result.orderId
  clientOrderId := unnamed new result.orderId result.clientOrderId
  updates := result.updates.map (OrderUpdate.anonymous new)
  fills := result.fills.map (FillEvent.anonymous new)

def OrderRecord.anonymous (new : Option String) (r : OrderRecord) : OrderRecord :=
  { r with
    orderId := unnamed new r.orderId r.orderId
    clientOrderId := unnamed new r.orderId r.clientOrderId }

def RestingOrder.anonymous (new : Option String) (o : RestingOrder) : RestingOrder :=
  { o with
    orderId := unnamed new o.orderId o.orderId
    clientOrderId := unnamed new o.orderId o.clientOrderId }

private theorem RestingOrder.anonymous_of_ne {new : Option String} {o : RestingOrder} (h : new ≠ some o.orderId) :
    o.anonymous new = o := by
  rw [RestingOrder.anonymous, unnamed_other h, unnamed_other h]

/-- What a book says: its instrument, its counter, and the orders of each side in their order. -/
structure BookContent where
  instrument : Instrument
  nextSequenceNumber : Nat
  queue : OrderSide → List RestingOrder

def OrderBook.anonymous (new : Option String) (book : OrderBook) : BookContent where
  instrument := book.instrument
  nextSequenceNumber := book.nextSequenceNumber
  queue side := (book.sideQueue side).map (RestingOrder.anonymous new)

/-- The order of a queue does not depend on ids. -/
private theorem OrderBook.Wf.anonymous_congr {book book' : OrderBook} (hb : book.Wf) (hb' : book'.Wf)
    {new new' : Option String} (hinstrument : book'.instrument = book.instrument)
    (hsequence : book'.nextSequenceNumber = book.nextSequenceNumber)
    (hresting : book'.resting.map (RestingOrder.anonymous new') = book.resting.map (RestingOrder.anonymous new)) :
    book'.anonymous new' = book.anonymous new := by
  have hcoe : ∀ (side : OrderSide) {b : OrderBook} (new₀ : Option String), b.Wf →
      (((b.sideQueue side).map (RestingOrder.anonymous new₀) : List RestingOrder) : Multiset RestingOrder) =
        (b.resting.map (RestingOrder.anonymous new₀)).filter fun o => o.request.side = side := by
    intro side b new₀ hwf
    rw [← Multiset.map_coe, hwf.sideQueue_coe, Multiset.filter_map]
    rfl
  have hsorted : ∀ (side : OrderSide) {b : OrderBook} (new₀ : Option String), b.Wf →
      ((b.sideQueue side).map (RestingOrder.anonymous new₀)).Pairwise (RestingOrder.Precedes side) :=
    fun side b new₀ hwf => List.pairwise_map.2 (hwf.sideQueue_sorted side)
  have hqueue : ∀ side, (book'.sideQueue side).map (RestingOrder.anonymous new') =
      (book.sideQueue side).map (RestingOrder.anonymous new) := by
    intro side
    refine StrictlySorted.eq_of_coe_eq RestingOrder.Precedes.asymm ?_ (hsorted side new' hb') (hsorted side new hb)
    rw [hcoe side new' hb', hcoe side new hb, hresting]
  rw [anonymous, anonymous, hinstrument, hsequence, funext hqueue]

/-- Nothing is blank in a book without the new order. -/
private theorem OrderBook.Wf.anonymous_of_apart {book : OrderBook} (hb : book.Wf) {new : Option String}
    (h : ∀ o ∈ book.resting, new ≠ some o.orderId) : book.anonymous new = book.anonymous none := by
  refine hb.anonymous_congr hb rfl rfl (Multiset.map_congr rfl fun o ho => ?_)
  rw [RestingOrder.anonymous_of_ne (h o ho), RestingOrder.anonymous_of_ne (Option.some_ne_none _).symm]

private theorem OrderBook.nextSequenceNumber_addOrder {book book' : OrderBook} {request : OrderRequest}
    {orderId clientOrderId : String} {filledQuantity : ℚ}
    (h : book.addOrder request orderId clientOrderId filledQuantity = (true, book')) :
    book'.nextSequenceNumber = book.nextSequenceNumber + 1 := by
  unfold addOrder at h
  split at h
  · cases h
  · cases h
    rfl

/-! ### Loops side by side -/

/-- Two loops that stand alike on the records of some ids; their fills are alike as far as `f` and `f'` see them. -/
structure Parallel (ids : String → Prop) (f f' : FillEvent → FillEvent) (loop loop' : FillLoop) : Prop where
  book_eq : loop'.book = loop.book
  quantity_eq : loop'.quantity = loop.quantity
  touched_eq : loop'.touchedOrders = loop.touchedOrders
  orders_eq : ∀ id, ids id → loop'.orders[id]? = loop.orders[id]?
  fills_eq : loop'.fills.map f' = loop.fills.map f

private theorem getElem?_applyFillToOrder (orders : StringMap OrderRecord) (orderId id : String) (executed : ℚ) :
    (applyFillToOrder orders orderId executed)[id]? =
      if orderId = id then
        orders[id]?.map fun r => if executed ≤ kQuantityTolerance then r else fillRecord r executed
      else orders[id]? := by
  unfold applyFillToOrder
  by_cases hid : orderId = id
  · subst hid
    rw [if_pos rfl]
    cases hr : orders[orderId]? with
    | none => exact hr
    | some r =>
      dsimp only
      rw [Option.map_some]
      split
      · exact hr
      · exact (getElem?_insert ..).trans (if_pos rfl)
  · rw [if_neg hid]
    split
    · rfl
    · split
      · rfl
      · exact (getElem?_insert ..).trans (if_neg hid)

section Loops

variable {ids : String → Prop} {f f' : FillEvent → FillEvent}

theorem Parallel.afterFill {loop loop' : FillLoop} (h : Parallel ids f f' loop loop') {rule rule' : FillRule}
    (hfill : ∀ n n' o quantity, f' (rule'.fill n' o quantity) = f (rule.fill n o quantity)) (resting : RestingOrder)
    (executed : ℚ) (book : OrderBook) :
    Parallel ids f f' (loop.afterFill rule resting executed book) (loop'.afterFill rule' resting executed book) where
  book_eq := rfl
  quantity_eq := by rw [FillLoop.afterFill, FillLoop.afterFill, h.quantity_eq]
  touched_eq := by rw [FillLoop.afterFill, FillLoop.afterFill, h.touched_eq]
  orders_eq id hid := by
    rw [FillLoop.afterFill, FillLoop.afterFill, getElem?_applyFillToOrder, getElem?_applyFillToOrder,
      h.orders_eq id hid]
  fills_eq := by
    rw [FillLoop.afterFill, FillLoop.afterFill, List.map_append, List.map_append, h.fills_eq, List.map_singleton,
      List.map_singleton, hfill loop.nextFillId]

/-- Loops that stand alike end alike. -/
private theorem fillLoop_parallel {rule rule' : FillRule} (hside : rule'.side = rule.side)
    (hstops : rule'.stops = rule.stops)
    (hfill : ∀ n n' o quantity, f' (rule'.fill n' o quantity) = f (rule.fill n o quantity)) (fuel : Nat)
    {loop loop' : FillLoop} (h : Parallel ids f f' loop loop') :
    Parallel ids f f' (fillLoop rule fuel loop).1 (fillLoop rule' fuel loop').1 := by
  induction fuel generalizing loop loop' with
  | zero => exact h
  | succ fuel ih =>
    rw [fillLoop, fillLoop, h.quantity_eq, h.book_eq, hside, hstops]
    split
    · split
      · exact h
      · split
        · exact h
        · dsimp only
          split
          · exact h
          · exact ih (h.afterFill hfill _ _ _)
    · exact h

private theorem processLevels_parallel {rule : BookLevel → FillRule}
    (hfill : ∀ level n n' o quantity, f' ((rule level).fill n' o quantity) = f ((rule level).fill n o quantity))
    (levels : List BookLevel) {loop loop' : FillLoop} (h : Parallel ids f f' loop loop') :
    Parallel ids f f' (processLevels rule levels loop).1 (processLevels rule levels loop').1 := by
  induction levels generalizing loop loop' with
  | nil => exact h
  | cons level levels ih =>
    have hstart : Parallel ids f f' { loop with quantity := level.quantity }
        { loop' with quantity := level.quantity } :=
      ⟨h.book_eq, rfl, h.touched_eq, h.orders_eq, h.fills_eq⟩
    exact ih (fillLoop_parallel rfl rfl (hfill level) (loopFuel level.quantity) hstart)

end Loops

namespace MatchingEngine

/-! ### Two engines that agree on an instrument -/

/-- The two engines have the same book and the same records of the instrument. -/
structure AgreeOn (i : String) (engine engine' : MatchingEngine) : Prop where
  book : engine'.findBook i = engine.findBook i
  records : ∀ (id : String) (r : OrderRecord), r.instrumentId = i →
    (engine'.getOrder id = some r ↔ engine.getOrder id = some r)

theorem AgreeOn.symm {i : String} {engine engine' : MatchingEngine} (h : AgreeOn i engine engine') :
    AgreeOn i engine' engine :=
  ⟨h.book.symm, fun id r hr => (h.records id r hr).symm⟩

/-- A call that is confined to an instrument leaves an engine that agrees with the old one on all others. -/
private theorem Confined.agreeOn {engine : MatchingEngine} {i j : String} {next : MatchingEngine × ExecutionResult}
    (h : engine.Confined i next) (hne : j ≠ i) : AgreeOn j engine next.1 :=
  ⟨h.books j hne, fun id r hr => h.records id r (hr ▸ hne)⟩

/-- The id is that of a record of the instrument. -/
def Has (engine : MatchingEngine) (i id : String) : Prop := ∃ r, engine.getOrder id = some r ∧ r.instrumentId = i

private theorem AgreeOn.has {i : String} {engine engine' : MatchingEngine} (h : AgreeOn i engine engine') {id : String}
    (hid : engine.Has i id) : engine'.Has i id := by
  obtain ⟨r, hr, hi⟩ := hid
  exact ⟨r, (h.records id r hi).2 hr, hi⟩

theorem AgreeOn.getOrder {i : String} {engine engine' : MatchingEngine} (h : AgreeOn i engine engine') {id : String}
    (hid : engine.Has i id) : engine'.getOrder id = engine.getOrder id := by
  obtain ⟨r, hr, hi⟩ := hid
  rw [hr, h.records id r hi]
  exact hr

/-- The records of the instrument, without the ids of the new order. -/
def recordsOf (i : String) (new : Option String) (engine : MatchingEngine) : Set OrderRecord :=
  {r | ∃ id r₀, engine.getOrder id = some r₀ ∧ r₀.instrumentId = i ∧ r = r₀.anonymous new}

/-- The call has the same outcome for the instrument in both engines, but for the ids that it generates. -/
structure SameOutcome (i : String) (op : EngineOp) (engine engine' : MatchingEngine) : Prop where
  result : (machine.step engine' op).2.anonymous (op.newId engine') =
    (machine.step engine op).2.anonymous (op.newId engine)
  book : ((machine.step engine' op).1.findBook i).map (OrderBook.anonymous (op.newId engine')) =
    ((machine.step engine op).1.findBook i).map (OrderBook.anonymous (op.newId engine))
  records : recordsOf i (op.newId engine') (machine.step engine' op).1 =
    recordsOf i (op.newId engine) (machine.step engine op).1

/-- What a call does to the records of an instrument in two engines: the old ones become the same, and so does the new
one, if there is one. -/
structure SameRecords (i : String) (op : EngineOp) (engine engine' : MatchingEngine) : Prop where
  old : ∀ id, engine.Has i id → (machine.step engine' op).1.getOrder id = (machine.step engine op).1.getOrder id
  new : (op.newId engine = none ∧ op.newId engine' = none) ∨
    ∃ id id' r r', op.newId engine = some id ∧ op.newId engine' = some id' ∧
      (machine.step engine op).1.getOrder id = some r ∧ (machine.step engine' op).1.getOrder id' = some r' ∧
      r'.instrumentId = r.instrumentId ∧ r'.anonymous (some id') = r.anonymous (some id)

theorem SameRecords.symm {i : String} {op : EngineOp} {engine engine' : MatchingEngine}
    (h : SameRecords i op engine engine') (hagree : AgreeOn i engine engine') : SameRecords i op engine' engine where
  old id hid := (h.old id (hagree.symm.has hid)).symm
  new := by
    rcases h.new with ⟨hnone, hnone'⟩ | ⟨id, id', r, r', hid, hid', hr, hr', hi, hsame⟩
    · exact .inl ⟨hnone', hnone⟩
    · exact .inr ⟨id', id, r', r, hid', hid, hr', hr, hi.symm, hsame.symm⟩

/-- A record that a call does not create was there before, for the same instrument. -/
private theorem Sync.has_before {engine : MatchingEngine} (h : engine.Sync) {op : EngineOp} (hf : op.Fresh engine)
    {id : String}
    {r : OrderRecord} (hr : (machine.step engine op).1.getOrder id = some r) (hne : op.newId engine ≠ some id) :
    engine.Has r.instrumentId id := by
  cases hbefore : engine.orders[id]? with
  | none =>
    have hnone := h.untracked_step hf hbefore hne
    cases hnone.symm.trans hr
  | some r₀ =>
    obtain ⟨r', hr', hevolves⟩ := h.ordersEvolve_step hf id r₀ hbefore
    obtain rfl : r = r' := Option.some.inj (hr.symm.trans hr')
    refine ⟨r₀, hbefore, ?_⟩
    rw [hevolves.same]

private theorem recordsOf_subset {i : String} {op : EngineOp} {engine engine' : MatchingEngine} (h : engine.Sync)
    (hf : op.Fresh engine) (hf' : op.Fresh engine') (hagree : AgreeOn i engine engine')
    (hsame : SameRecords i op engine engine') :
    recordsOf i (op.newId engine) (machine.step engine op).1 ⊆
      recordsOf i (op.newId engine') (machine.step engine' op).1 := by
  rintro _ ⟨id, r, hr, hi, rfl⟩
  by_cases hid : op.newId engine = some id
  · rcases hsame.new with ⟨hnone, -⟩ | ⟨id₀, id', r₀, r', hid₀, hid', hr₀, hr', hi', hanonymous⟩
    · cases hnone.symm.trans hid
    · obtain rfl : id = id₀ := Option.some.inj (hid.symm.trans hid₀)
      obtain rfl : r = r₀ := Option.some.inj (hr.symm.trans hr₀)
      refine ⟨id', r', hr', hi'.trans hi, ?_⟩
      rw [hid, hid', hanonymous]
  · have hhas := h.has_before hf hr hid
    rw [hi] at hhas
    have horderId : r.orderId = id := ((h.step hf).records id r hr).orderId_eq
    -- the id is tracked in the second engine too, so it is not new there
    have hid' : op.newId engine' ≠ some id := by
      intro hnew
      have hnone : engine'.getOrder id = none := hf' id hnew
      rw [hagree.getOrder hhas] at hnone
      obtain ⟨r₀, hr₀, -⟩ := hhas
      cases hnone.symm.trans hr₀
    refine ⟨id, r, (hsame.old id hhas).trans hr, hi, ?_⟩
    unfold OrderRecord.anonymous
    rw [horderId, unnamed_other hid, unnamed_other hid, unnamed_other hid', unnamed_other hid']

private theorem recordsOf_eq {i : String} {op : EngineOp} {engine engine' : MatchingEngine} (h : engine.Sync)
    (h' : engine'.Sync) (hf : op.Fresh engine) (hf' : op.Fresh engine') (hagree : AgreeOn i engine engine')
    (hsame : SameRecords i op engine engine') :
    recordsOf i (op.newId engine') (machine.step engine' op).1 =
      recordsOf i (op.newId engine) (machine.step engine op).1 :=
  Set.Subset.antisymm (recordsOf_subset h' hf' hf hagree.symm (hsame.symm hagree))
    (recordsOf_subset h hf hf' hagree hsame)

private theorem SameOutcome.of_sameRecords {i : String} {op : EngineOp} {engine engine' : MatchingEngine}
    (h : engine.Sync)
    (h' : engine'.Sync) (hf : op.Fresh engine) (hf' : op.Fresh engine') (hagree : AgreeOn i engine engine')
    (hresult : (machine.step engine' op).2.anonymous (op.newId engine') =
      (machine.step engine op).2.anonymous (op.newId engine))
    (hbook : ((machine.step engine' op).1.findBook i).map (OrderBook.anonymous (op.newId engine')) =
      ((machine.step engine op).1.findBook i).map (OrderBook.anonymous (op.newId engine)))
    (hrecords : SameRecords i op engine engine') : SameOutcome i op engine engine' :=
  ⟨hresult, hbook, recordsOf_eq h h' hf hf' hagree hrecords⟩

/-- A call that changes neither engine and answers the same. -/
private theorem SameOutcome.of_unchanged {i : String} {op : EngineOp} {engine engine' : MatchingEngine}
    {result : ExecutionResult} (h : engine.Sync) (h' : engine'.Sync) (hagree : AgreeOn i engine engine')
    (hnone : op.newId engine = none) (hnone' : op.newId engine' = none)
    (hstep : machine.step engine op = (engine, result)) (hstep' : machine.step engine' op = (engine', result)) :
    SameOutcome i op engine engine' := by
  have hf : op.Fresh engine := fun id hid => nomatch hnone.symm.trans hid
  have hf' : op.Fresh engine' := fun id hid => nomatch hnone'.symm.trans hid
  refine .of_sameRecords h h' hf hf' hagree ?_ ?_ ⟨fun id hid => ?_, .inl ⟨hnone, hnone'⟩⟩
  · rw [hstep, hstep', hnone, hnone']
  · rw [hstep, hstep', hnone, hnone', hagree.book]
  · rw [hstep, hstep']
    exact hagree.getOrder hid

/-! ### The same `submit` in two engines -/

section Submit

variable {engine engine' : MatchingEngine} {request : OrderRequest}

/-- An id of the instrument's records is not the new one. -/
private theorem Has.ne_issued {i id : String} (hid : engine.Has i id)
    (hnew : engine.orders[engine.issuedOrderId]? = none) : engine.issuedOrderId ≠ id := by
  rintro rfl
  obtain ⟨r, hr, -⟩ := hid
  cases hnew.symm.trans hr

/-- Nothing rests under the new id. -/
theorem Sync.apart (h : engine.Sync) (hnew : engine.orders[engine.issuedOrderId]? = none) {i : String}
    {book : OrderBook} (hbook : engine.findBook i = some book) :
    ∀ o ∈ book.resting, some engine.issuedOrderId ≠ some o.orderId := by
  intro o ho heq
  obtain ⟨r, hr, -⟩ := (h.synced i book hbook).tracked o ho
  rw [← Option.some.inj heq] at hr
  cases hnew.symm.trans hr

private theorem submitLoop_parallel (hnew : engine.orders[engine.issuedOrderId]? = none)
    (hnew' : engine'.orders[engine'.issuedOrderId]? = none)
    (hagree : AgreeOn request.instrument.instrumentId engine engine') :
    Parallel (engine.Has request.instrument.instrumentId) (FillEvent.anonymous (some engine.issuedOrderId))
      (FillEvent.anonymous (some engine'.issuedOrderId)) (engine.submitLoop request).1
      (engine'.submitLoop request).1 := by
  have hstart : Parallel (engine.Has request.instrument.instrumentId)
      (FillEvent.anonymous (some engine.issuedOrderId)) (FillEvent.anonymous (some engine'.issuedOrderId))
      (engine.submitStart request) (engine'.submitStart request) := by
    refine ⟨congrArg (Option.getD · _) hagree.book, rfl, rfl, fun id hid => ?_, rfl⟩
    rw [submitStart, submitStart, track_orders, track_orders, getElem?_insert, getElem?_insert,
      if_neg (hid.ne_issued hnew), if_neg ((hagree.has hid).ne_issued hnew')]
    exact hagree.getOrder hid
  have hfill : ∀ (n n' : Nat) (o : RestingOrder) (quantity : ℚ),
      ((submitRule request engine'.issuedOrderId).fill n' o quantity).anonymous (some engine'.issuedOrderId) =
        ((submitRule request engine.issuedOrderId).fill n o quantity).anonymous (some engine.issuedOrderId) := by
    intro n n' o quantity
    unfold FillEvent.anonymous submitRule
    dsimp only
    rw [unnamed_new, unnamed_new]
  refine fillLoop_parallel ?_ ?_ hfill _ hstart <;> rfl

private theorem finalRecord_anonymous
    (hq : (engine'.submitLoop request).1.quantity = (engine.submitLoop request).1.quantity) :
    (engine'.finalRecord request).anonymous (some engine'.issuedOrderId) =
      (engine.finalRecord request).anonymous (some engine.issuedOrderId) := by
  unfold OrderRecord.anonymous
  rw [(finalRecord_same engine request).1, (finalRecord_same engine' request).1, unnamed_new, unnamed_new, unnamed_new,
    unnamed_new, finalRecord, finalRecord, hq]
  dsimp only
  split <;> rfl

private theorem acceptedResult_anonymous
    (hloop : Parallel (engine.Has request.instrument.instrumentId) (FillEvent.anonymous (some engine.issuedOrderId))
      (FillEvent.anonymous (some engine'.issuedOrderId)) (engine.submitLoop request).1
      (engine'.submitLoop request).1) :
    (engine'.acceptedResult request).anonymous (some engine'.issuedOrderId) =
      (engine.acceptedResult request).anonymous (some engine.issuedOrderId) := by
  unfold ExecutionResult.anonymous acceptedResult
  dsimp only
  rw [hloop.quantity_eq, hloop.fills_eq, unnamed_new, unnamed_new, unnamed_new, unnamed_new]
  simp only [List.map_cons, apply_ite (List.map _), List.map_nil, OrderUpdate.anonymous_makeUpdate]

private theorem restedBook_anonymous {es es' : List Execution} {fills fills' : List FillEvent}
    (hacc : request.Acceptable) (hm : engine.Matched request es fills) (hm' : engine'.Matched request es' fills')
    (hloop : Parallel (engine.Has request.instrument.instrumentId) (FillEvent.anonymous (some engine.issuedOrderId))
      (FillEvent.anonymous (some engine'.issuedOrderId)) (engine.submitLoop request).1
      (engine'.submitLoop request).1) :
    (engine'.restedBook request).anonymous (some engine'.issuedOrderId) =
      (engine.restedBook request).anonymous (some engine.issuedOrderId) := by
  have hapart : ∀ {e : MatchingEngine} {es fills}, e.Matched request es fills →
      ∀ o ∈ (e.submitLoop request).1.book.resting, some e.issuedOrderId ≠ some o.orderId :=
    fun hm o ho heq => hm.apart o ho (Option.some.inj heq).symm
  have hold : ∀ {e : MatchingEngine} {es fills}, e.Matched request es fills →
      (e.submitLoop request).1.book.resting.map (RestingOrder.anonymous (some e.issuedOrderId)) =
        (e.submitLoop request).1.book.resting := by
    intro e es fills hm
    rw [Multiset.map_congr rfl fun o ho => RestingOrder.anonymous_of_ne (hapart hm o ho), Multiset.map_id']
  by_cases hq : (engine.submitLoop request).1.quantity > kQuantityTolerance
  · have hq' : (engine'.submitLoop request).1.quantity > kQuantityTolerance := hloop.quantity_eq ▸ hq
    obtain ⟨hadd, hwf, hinst, hrest⟩ := residual_rests hacc hm.synced.wf hm.instrument hm.apart hq hm.quantity_le
    obtain ⟨hadd', hwf', hinst', hrest'⟩ :=
      residual_rests hacc hm'.synced.wf hm'.instrument hm'.apart hq' hm'.quantity_le
    refine hwf.anonymous_congr hwf' ?_ ?_ ?_
    · rw [hinst, hinst', hloop.book_eq]
    · rw [OrderBook.nextSequenceNumber_addOrder hadd, OrderBook.nextSequenceNumber_addOrder hadd', hloop.book_eq]
    · rw [hrest, hrest', Multiset.map_cons, Multiset.map_cons, hold hm, hold hm', hloop.book_eq, hloop.quantity_eq]
      unfold RestingOrder.anonymous OrderBook.restingOrderOf
      dsimp only
      rw [unnamed_new, unnamed_new, unnamed_new, unnamed_new]
  · have hq' : ¬ (engine'.submitLoop request).1.quantity > kQuantityTolerance := by rwa [hloop.quantity_eq]
    rw [restedBook, restedBook, if_neg hq, if_neg hq', hm'.synced.wf.anonymous_of_apart (hapart hm'),
      hm.synced.wf.anonymous_of_apart (hapart hm), hloop.book_eq]

/-- Whether and why a request is rejected at once does not depend on the engine. -/
private theorem submit_of_not_acceptable (h : ¬ request.Acceptable) :
    ∃ reason, ∀ engine : MatchingEngine, engine.submit request = engine.rejectNew request reason := by
  by_cases htype : request.type = .market
  · exact ⟨_, fun engine => if_pos htype⟩
  · by_cases hbad : request.price = none ∨ request.price.getD 0 ≤ 0 ∨ request.quantity ≤ 0
    · exact ⟨_, fun engine => (if_neg htype).trans (if_pos hbad)⟩
    · exact absurd (OrderRequest.acceptable_of_checks htype hbad) h

private theorem Sync.accepted_alike (h : engine.Sync) (h' : engine'.Sync) (hf : (EngineOp.submit request).Fresh engine)
    (hf' : (EngineOp.submit request).Fresh engine') (hagree : AgreeOn request.instrument.instrumentId engine engine')
    (hacc : request.Acceptable) : SameOutcome request.instrument.instrumentId (.submit request) engine engine' := by
  have hnew : engine.orders[engine.issuedOrderId]? = none := hf _ rfl
  have hnew' : engine'.orders[engine'.issuedOrderId]? = none := hf' _ rfl
  obtain ⟨_, _, hm⟩ := h.match_spec hnew hacc
  obtain ⟨_, _, hm'⟩ := h'.match_spec hnew' hacc
  obtain ⟨_, _, hs⟩ := h.submit_spec hnew hacc
  obtain ⟨_, _, hs'⟩ := h'.submit_spec hnew' hacc
  have hstep : machine.step engine (.submit request) = (engine.accepted request, engine.acceptedResult request) := hs.eq
  have hstep' : machine.step engine' (.submit request) =
    (engine'.accepted request, engine'.acceptedResult request) := hs'.eq
  have hloop := submitLoop_parallel hnew hnew' hagree
  refine .of_sameRecords h h' hf hf' hagree ?_ ?_ ⟨fun id hid => ?_, .inr ⟨_, _, engine.finalRecord request,
    engine'.finalRecord request, rfl, rfl, ?_, ?_, ?_, finalRecord_anonymous hloop.quantity_eq⟩⟩
  · rw [hstep, hstep']
    exact acceptedResult_anonymous hloop
  · rw [hstep, hstep', findBook, findBook, accepted, accepted, getElem?_insert, getElem?_insert, if_pos rfl,
      if_pos rfl]
    exact congrArg some (restedBook_anonymous hacc hm hm' hloop)
  · rw [hstep, hstep', getOrder, getOrder, accepted_orders, accepted_orders, getElem?_insert, getElem?_insert,
      if_neg (hid.ne_issued hnew), if_neg ((hagree.has hid).ne_issued hnew'), hloop.orders_eq id hid]
  · rw [hstep, getOrder, accepted_orders, getElem?_insert, if_pos rfl]
  · rw [hstep', getOrder, accepted_orders, getElem?_insert, if_pos rfl]
  · exact (finalRecord_same engine' request).2.1.trans (finalRecord_same engine request).2.1.symm

private theorem Sync.rejected_alike (h : engine.Sync) (h' : engine'.Sync) (hf : (EngineOp.submit request).Fresh engine)
    (hf' : (EngineOp.submit request).Fresh engine') (hagree : AgreeOn request.instrument.instrumentId engine engine')
    (hacc : ¬ request.Acceptable) : SameOutcome request.instrument.instrumentId (.submit request) engine engine' := by
  have hnew : engine.orders[engine.issuedOrderId]? = none := hf _ rfl
  have hnew' : engine'.orders[engine'.issuedOrderId]? = none := hf' _ rfl
  obtain ⟨reason, hreject⟩ := submit_of_not_acceptable hacc
  have hstep : machine.step engine (.submit request) = engine.rejectNew request reason := hreject engine
  have hstep' : machine.step engine' (.submit request) = engine'.rejectNew request reason := hreject engine'
  have hrecord : ∀ e : MatchingEngine, (e.rejectNew request reason).1.getOrder e.issuedOrderId =
      some { e.newRecord request with status := .rejected } := fun e => (getElem?_insert ..).trans (if_pos rfl)
  have hanonymous : ∀ e : MatchingEngine,
      (e.rejectNew request reason).2.anonymous (some e.issuedOrderId) =
        { updates := [makeUpdate "" "" .rejected 0 (some reason)] } := by
    intro e
    rw [rejectNew, ExecutionResult.anonymous]
    dsimp only
    rw [unnamed_new, unnamed_new, List.map_singleton, OrderUpdate.anonymous_makeUpdate]
    rfl
  refine .of_sameRecords h h' hf hf' hagree ?_ ?_ ⟨fun id hid => ?_, .inr ⟨_, _,
    { engine.newRecord request with status := .rejected }, { engine'.newRecord request with status := .rejected },
    rfl, rfl, hstep ▸ hrecord engine, hstep' ▸ hrecord engine', rfl, ?_⟩⟩
  · rw [hstep, hstep']
    exact (hanonymous engine').trans (hanonymous engine).symm
  · rw [hstep, hstep']
    show (engine'.findBook _).map _ = (engine.findBook _).map _
    rw [hagree.book]
    cases hbook : engine.findBook request.instrument.instrumentId with
    | none => rfl
    | some book =>
      have hwf := (h.booksOk _ book hbook).1
      have hblank := hwf.anonymous_of_apart (h.apart hnew hbook)
      have hblank' := hwf.anonymous_of_apart (h'.apart hnew' (hagree.book.trans hbook))
      exact congrArg some (hblank'.trans hblank.symm)
  · rw [hstep, hstep', getOrder, getOrder, rejectNew, rejectNew, track_orders, track_orders, getElem?_insert,
      getElem?_insert, if_neg (hid.ne_issued hnew), if_neg ((hagree.has hid).ne_issued hnew')]
    exact hagree.getOrder hid
  · unfold OrderRecord.anonymous newRecord
    dsimp only
    rw [unnamed_new, unnamed_new, unnamed_new, unnamed_new]

private theorem Sync.submit_alike (h : engine.Sync) (h' : engine'.Sync) (hf : (EngineOp.submit request).Fresh engine)
    (hf' : (EngineOp.submit request).Fresh engine') (hagree : AgreeOn request.instrument.instrumentId engine engine') :
    SameOutcome request.instrument.instrumentId (.submit request) engine engine' := by
  by_cases hacc : request.Acceptable
  · exact h.accepted_alike h' hf hf' hagree hacc
  · exact h.rejected_alike h' hf hf' hagree hacc

end Submit

/-! ### The same market event and the same `cancel` in two engines -/

section Calls

variable {engine engine' : MatchingEngine}

private theorem marketLoops_parallel (event : MarketEvent) (book : OrderBook)
    (hagree : AgreeOn event.instrument.instrumentId engine engine') :
    Parallel (engine.Has event.instrument.instrumentId) (FillEvent.anonymous none) (FillEvent.anonymous none)
      (engine.marketLoops event book).1 (engine'.marketLoops event book).1 := by
  have hstart : Parallel (engine.Has event.instrument.instrumentId) (FillEvent.anonymous none)
      (FillEvent.anonymous none)
      { book := book, orders := engine.orders, nextFillId := engine.nextFillId, quantity := 0 }
      { book := book, orders := engine'.orders, nextFillId := engine'.nextFillId, quantity := 0 } :=
    ⟨rfl, rfl, rfl, fun id hid => hagree.getOrder hid, rfl⟩
  -- the fills of both loops differ from engine to engine in their numbers only
  have hbuy : ∀ (level : BookLevel) (n n' : Nat) (o : RestingOrder) (quantity : ℚ),
      ((processBuyRestingOrders event level).fill n' o quantity).anonymous none =
        ((processBuyRestingOrders event level).fill n o quantity).anonymous none := fun _ _ _ _ _ => rfl
  have hsell : ∀ (level : BookLevel) (n n' : Nat) (o : RestingOrder) (quantity : ℚ),
      ((processSellRestingOrders event level).fill n' o quantity).anonymous none =
        ((processSellRestingOrders event level).fill n o quantity).anonymous none := fun _ _ _ _ _ => rfl
  exact processLevels_parallel hsell event.bidLevels (processLevels_parallel hbuy event.askLevels hstart)

private theorem Sync.market_alike (h : engine.Sync) (h' : engine'.Sync) {event : MarketEvent}
    (hagree : AgreeOn event.instrument.instrumentId engine engine') :
    SameOutcome event.instrument.instrumentId (.processMarketEvent event) engine engine' := by
  have hf : ∀ e : MatchingEngine, (EngineOp.processMarketEvent event).Fresh e := nofun
  cases hbook : engine.findBook event.instrument.instrumentId with
  | none =>
    -- no book in one engine is none in the other, and then the event does nothing
    have hstep : ∀ e : MatchingEngine, e.findBook event.instrument.instrumentId = none →
        machine.step e (.processMarketEvent event) = (e, {}) := by
      intro e he
      show e.processMarketEvent event = _
      unfold findBook at he
      rw [MatchingEngine.processMarketEvent, he]
    exact .of_unchanged h h' hagree rfl rfl (hstep engine hbook) (hstep engine' (hagree.book.trans hbook))
  | some book =>
    have hloops := marketLoops_parallel event book hagree
    obtain ⟨es, hrun⟩ := engine.marketLoops_spec event (h.booksOk _ book hbook).1
    have hstep : ∀ e : MatchingEngine, e.findBook event.instrument.instrumentId = some book →
        machine.step e (.processMarketEvent event) =
          ({ e with
              books := e.books.insert event.instrument.instrumentId (e.marketLoops event book).1.book
              orders := (e.marketLoops event book).1.orders
              nextFillId := (e.marketLoops event book).1.nextFillId },
            { updates := (((e.marketLoops event book).1.touchedOrders.insertionSort (· ≤ ·)).dedup).flatMap
                (appendOrderUpdate (e.marketLoops event book).1.orders)
              fills := (e.marketLoops event book).1.fills }) := by
      intro e he
      show e.processMarketEvent event = _
      unfold findBook at he
      rw [MatchingEngine.processMarketEvent, he]
    have hengine := hstep engine hbook
    have hengine' := hstep engine' (hagree.book.trans hbook)
    refine .of_sameRecords h h' (hf _) (hf _) hagree ?_ ?_ ⟨fun id hid => ?_, .inl ⟨rfl, rfl⟩⟩
    · -- the touched orders are of the instrument, so their updates are the same
      have hupdates : ∀ id ∈ ((engine.marketLoops event book).1.touchedOrders.insertionSort (· ≤ ·)).dedup,
          appendOrderUpdate (engine'.marketLoops event book).1.orders id =
            appendOrderUpdate (engine.marketLoops event book).1.orders id := by
        intro id hid
        rw [List.mem_dedup, List.mem_insertionSort, hrun.touched_eq, List.mem_map] at hid
        obtain ⟨e, he, rfl⟩ := hid
        obtain ⟨r, hr, -, hi, -⟩ := hrun.executes.record_of_executed (h.synced _ book hbook) h.records e he
        have hhas : engine.Has event.instrument.instrumentId e.resting.orderId :=
          ⟨r, hr, hi.trans (h.instrument _ book hbook)⟩
        rw [appendOrderUpdate, appendOrderUpdate, hloops.orders_eq _ hhas]
      rw [hengine, hengine', ExecutionResult.anonymous, ExecutionResult.anonymous, hloops.touched_eq,
        List.flatMap_congr hupdates]
      exact congrArg (ExecutionResult.mk _ _ _) hloops.fills_eq
    · rw [hengine, hengine', findBook, findBook, getElem?_insert, getElem?_insert, if_pos rfl, if_pos rfl,
        hloops.book_eq]
      rfl
    · rw [hengine, hengine']
      exact hloops.orders_eq id hid

/-- What `cancel` does with a tracked order is determined by its record and its book. -/
private theorem cancel_determined (orderId clientOrderId : String) (r : OrderRecord) (book : Option OrderBook) :
    (∃ result, ∀ e : MatchingEngine, e.getOrder orderId = some r → e.findBook r.instrumentId = book →
      e.cancel orderId clientOrderId = (e, result)) ∨
    ∃ book' result, ∀ e : MatchingEngine, e.getOrder orderId = some r → e.findBook r.instrumentId = book →
      e.cancel orderId clientOrderId =
        ({ e with
            books := e.books.insert r.instrumentId book'
            orders := e.orders.insert orderId (canceledRecord r) }, result) := by
  let refused (reason : String) : ExecutionResult :=
    { orderId := orderId
      clientOrderId := r.clientOrderId
      updates := [makeUpdate orderId r.clientOrderId .rejected r.filledQuantity (some reason)] }
  let canceled : ExecutionResult :=
    { orderId := orderId
      clientOrderId := r.clientOrderId
      updates := [makeUpdate orderId r.clientOrderId .pendingCancel r.filledQuantity none,
        makeUpdate orderId r.clientOrderId .canceled r.filledQuantity none] }
  unfold getOrder findBook MatchingEngine.cancel
  cases hterminal : r.status.isTerminal with
  | true =>
    refine .inl ⟨refused "order is not cancelable", fun e hr _ => ?_⟩
    simp only [hr, hterminal, ↓reduceIte, refused]
  | false =>
    cases hcancel : book.map fun book => book.cancelOrder orderId with
    | none =>
      refine .inl ⟨refused "open order not found", fun e hr hbook => ?_⟩
      simp only [hr, hterminal, hbook, hcancel, Bool.false_eq_true, ↓reduceIte, refused]
    | some found =>
      obtain ⟨found, book'⟩ := found
      cases found with
      | false =>
        refine .inl ⟨refused "open order not found", fun e hr hbook => ?_⟩
        simp only [hr, hterminal, hbook, hcancel, Bool.false_eq_true, ↓reduceIte, refused]
      | true =>
        refine .inr ⟨book', canceled, fun e hr hbook => ?_⟩
        simp only [hr, hterminal, hbook, hcancel, Bool.false_eq_true, ↓reduceIte, canceledRecord, canceled]

private theorem Sync.cancel_alike (h : engine.Sync) (h' : engine'.Sync) {orderId : String} (clientOrderId : String)
    {r : OrderRecord} (hr : engine.getOrder orderId = some r) (hagree : AgreeOn r.instrumentId engine engine') :
    SameOutcome r.instrumentId (.cancel orderId clientOrderId) engine engine' := by
  have hf : ∀ e : MatchingEngine, (EngineOp.cancel orderId clientOrderId).Fresh e := nofun
  have hr' : engine'.getOrder orderId = some r := (hagree.records orderId r rfl).2 hr
  rcases cancel_determined orderId clientOrderId r (engine.findBook r.instrumentId) with
    ⟨result, heq⟩ | ⟨book, result, heq⟩
  · exact .of_unchanged h h' hagree rfl rfl (heq engine hr rfl) (heq engine' hr' hagree.book)
  · have hengine : machine.step engine (.cancel orderId clientOrderId) = _ := heq engine hr rfl
    have hengine' : machine.step engine' (.cancel orderId clientOrderId) = _ := heq engine' hr' hagree.book
    refine .of_sameRecords h h' (hf _) (hf _) hagree ?_ ?_ ⟨fun id hid => ?_, .inl ⟨rfl, rfl⟩⟩
    · rw [hengine, hengine']
      rfl
    · rw [hengine, hengine', findBook, findBook, getElem?_insert, getElem?_insert, if_pos rfl, if_pos rfl]
      rfl
    · rw [hengine, hengine', getOrder, getOrder, getElem?_insert, getElem?_insert]
      split
      · rfl
      · exact hagree.getOrder hid

private theorem Sync.alike (h : engine.Sync) (h' : engine'.Sync) {op : EngineOp} (hf : op.Fresh engine)
    (hf' : op.Fresh engine') {i : String} (hop : op.Concerns engine i) (hagree : AgreeOn i engine engine') :
    SameOutcome i op engine engine' := by
  cases op with
  | submit request =>
    cases hop
    exact h.submit_alike h' hf hf' hagree
  | processMarketEvent event =>
    cases hop
    exact h.market_alike h' hagree
  | cancel orderId clientOrderId =>
    obtain ⟨r, hr, rfl⟩ := hop
    exact h.cancel_alike h' clientOrderId hr hagree
  | restoreOpenOrder => exact hop.elim

end Calls

/-! ### Reachable engines -/

/-- A call for an instrument touches that instrument only, and what it does there depends on the instrument's book and
records only: in any two reachable engines that agree on these it has the same outcome, but for the new ids. -/
theorem instruments_isolated (ops : List EngineOp) (op : EngineOp) (i : String) (h : RestoresFresh {} (ops ++ [op]))
    (hop : op.Concerns (machine.run {} ops) i) :
    (machine.run {} ops).Confined i (machine.step (machine.run {} ops) op) ∧
    ∀ ops' : List EngineOp, RestoresFresh {} (ops' ++ [op]) → AgreeOn i (machine.run {} ops) (machine.run {} ops') →
      SameOutcome i op (machine.run {} ops) (machine.run {} ops') := by
  obtain ⟨-, ⟨hsync, hf⟩, -⟩ := machine.admissible_append.1 h.admissible_empty
  refine ⟨hsync.confined hf hop, fun ops' h' hagree => ?_⟩
  obtain ⟨-, ⟨hsync', hf'⟩, -⟩ := machine.admissible_append.1 h'.admissible_empty
  exact hsync.alike hsync' hf hf' hop hagree

/-- A resting sell, and an order for another instrument that takes the next id. -/
def exampleTwoBooks : List EngineOp :=
  [.submit (exampleRequest .sell 1 100),
    .submit { exampleRequest .buy 1 101 with instrument := { instrumentId := "eth-usdt" } }]

theorem instruments_isolated_exampleTwoBooks :
    RestoresFresh {} (exampleTwoBooks ++ [.submit (exampleRequest .buy 2 101)]) ∧
    EngineOp.Concerns (machine.run {} exampleTwoBooks) "btc-usdt" (.submit (exampleRequest .buy 2 101)) ∧
    RestoresFresh {} (exampleTwoBooks.take 1 ++ [.submit (exampleRequest .buy 2 101)]) ∧
    AgreeOn "btc-usdt" (machine.run {} exampleTwoBooks) (machine.run {} (exampleTwoBooks.take 1)) ∧
    (machine.run {} exampleTwoBooks).issuedOrderId ≠ (machine.run {} (exampleTwoBooks.take 1)).issuedOrderId ∧
    SameOutcome "btc-usdt" (.submit (exampleRequest .buy 2 101)) (machine.run {} exampleTwoBooks)
      (machine.run {} (exampleTwoBooks.take 1)) := by
  have hfresh : RestoresFresh {} (exampleTwoBooks ++ [.submit (exampleRequest .buy 2 101)]) :=
    restoresFresh_of_isRestore (by decide)
  have hfresh' : RestoresFresh {} (exampleTwoBooks.take 1 ++ [.submit (exampleRequest .buy 2 101)]) :=
    restoresFresh_of_isRestore (by decide)
  have hother : RestoresFresh {} (exampleTwoBooks.take 1 ++ exampleTwoBooks.drop 1) :=
    restoresFresh_of_isRestore (by decide)
  have hagree : AgreeOn "btc-usdt" (machine.run {} exampleTwoBooks) (machine.run {} (exampleTwoBooks.take 1)) := by
    obtain ⟨-, ⟨hsync, hf⟩, -⟩ := machine.admissible_append.1 hother.admissible_empty
    exact ((hsync.confined hf rfl).agreeOn (by decide)).symm
  exact ⟨hfresh, rfl, hfresh', hagree, by decide +kernel,
    (instruments_isolated exampleTwoBooks _ _ hfresh rfl).2 _ hfresh' hagree⟩

end MatchingEngine

end Wall
