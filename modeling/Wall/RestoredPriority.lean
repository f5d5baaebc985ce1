import Wall.Restarts

/-!
# Priority across a restart

Within a price level the orders wait in the order that they came in, and sequence numbers of the book keep it.  A
stored record has no such number.  After a restart the open orders are added again one by one, in the order that the
repository returned them in, so this order decides the queues (`queueIds_restoreRecords`): a restart keeps the
priority exactly if the repository returns any two orders of one queue in queue order.
-/

namespace Wall

open KeyedMap

/-! ### Queues -/

namespace OrderBook

/-- The orders at a price of one side, the first one first. -/
def queue (book : OrderBook) (side : OrderSide) (price : ℚ) : List RestingOrder := (book.level side price).getD []

private theorem mem_resting_iff_queue {book : OrderBook} {o : RestingOrder} :
    o ∈ book.resting ↔ ∃ side price, o ∈ book.queue side price := by
  rw [mem_resting]
  refine exists₂_congr fun side price => ?_
  unfold queue
  cases book.level side price <;> simp

/-- An added order is the last one at its price. -/
private theorem addOrder_queue {book : OrderBook} {request : OrderRequest} {orderId clientOrderId : String}
    {filledQuantity : ℚ} (h : book.isRequestCompatible request orderId clientOrderId filledQuantity = true)
    (side : OrderSide) (price : ℚ) :
    ((book.addOrder request orderId clientOrderId filledQuantity).2.queue side price).map RestingOrder.orderId =
      (book.queue side price).map RestingOrder.orderId ++
        if request.side = side ∧ request.price = some price then [orderId] else [] := by
  obtain ⟨-, -, -, -, ⟨p, hp, -⟩, -⟩ := isRequestCompatible_iff.1 h
  have hlevel : ∀ book' : OrderBook, ∀ index count sequence,
      ({ book' with orderIndex := index, orderCount := count, nextSequenceNumber := sequence } :
        OrderBook).queue side price = book'.queue side price := by
    intro book' index count sequence
    cases side <;> rfl
  unfold addOrder
  rw [h, hp]
  simp only [Bool.not_true, Bool.false_eq_true, ↓reduceIte, hlevel, Option.getD_some, Option.some.injEq]
  rw [queue, level_setLevel]
  split
  · rename_i hplace
    obtain ⟨rfl, rfl⟩ := hplace
    simp [queue]
  · rw [List.append_nil]
    rfl

end OrderBook

namespace MatchingEngine

/-- The ids of the orders at a price of one side of an instrument's book, the first one first. -/
def queueIds (engine : MatchingEngine) (instrumentId : String) (side : OrderSide) (price : ℚ) : List String :=
  (engine.findBook instrumentId).elim [] fun book => (book.queue side price).map RestingOrder.orderId

private theorem queueIds_empty (i : String) (side : OrderSide) (price : ℚ) :
    ({} : MatchingEngine).queueIds i side price = [] := by
  simp [queueIds, findBook]

private theorem queueIds_bookFor (engine : MatchingEngine) (instrument : Instrument) (side : OrderSide) (price : ℚ) :
    ((engine.bookFor instrument).queue side price).map RestingOrder.orderId =
      engine.queueIds instrument.instrumentId side price := by
  unfold queueIds findBook bookFor
  cases engine.books[instrument.instrumentId]? with
  | none => cases side <;> simp [OrderBook.queue, OrderBook.level]
  | some book => rfl

private theorem queueIds_insert {engine engine' : MatchingEngine} {j : String} {book : OrderBook}
    (h : engine'.books = engine.books.insert j book) (i : String) (side : OrderSide) (price : ℚ) :
    engine'.queueIds i side price =
      if j = i then (book.queue side price).map RestingOrder.orderId else engine.queueIds i side price := by
  unfold queueIds findBook
  rw [h, KeyedMap.getElem?_insert]
  split <;> rfl

end MatchingEngine

/-! ### What a restored record adds -/

/-- The record is one that the book accepts, as long as its id does not rest there. -/
structure OrderRecord.Restorable (r : OrderRecord) : Prop where
  orderId : r.orderId ≠ ""
  clientOrderId : r.clientOrderId ≠ ""
  limit : r.orderType = .limit
  price : ∃ price ∈ r.price, 0 < price
  filled : 0 ≤ r.filledQuantity
  remaining : r.filledQuantity < r.quantity - kQuantityTolerance

instance (r : OrderRecord) : Decidable r.Restorable :=
  decidable_of_iff (r.orderId ≠ "" ∧ r.clientOrderId ≠ "" ∧ r.orderType = .limit ∧ (∃ price ∈ r.price, 0 < price) ∧
    0 ≤ r.filledQuantity ∧ r.filledQuantity < r.quantity - kQuantityTolerance)
    ⟨fun ⟨h₁, h₂, h₃, h₄, h₅, h₆⟩ => ⟨h₁, h₂, h₃, h₄, h₅, h₆⟩,
      fun ⟨h₁, h₂, h₃, h₄, h₅, h₆⟩ => ⟨h₁, h₂, h₃, h₄, h₅, h₆⟩⟩

/-- A restored record goes to this queue. -/
def OrderRecord.RestsAt (i : String) (side : OrderSide) (price : ℚ) (r : OrderRecord) : Prop :=
  r.Restorable ∧ r.instrumentId = i ∧ r.side = side ∧ r.price = some price

instance (i : String) (side : OrderSide) (price : ℚ) : DecidablePred (OrderRecord.RestsAt i side price) :=
  fun _ => inferInstanceAs (Decidable (_ ∧ _))

namespace MatchingEngine

/-- The book's check of a restored record. -/
private theorem isRequestCompatible_restored {engine : MatchingEngine} (hb : BooksOk engine.books) {r : OrderRecord}
    (hnew : ∀ i side price, r.orderId ∉ engine.queueIds i side price) :
    (engine.bookFor r.restoredRequest.instrument).isRequestCompatible r.restoredRequest r.orderId r.clientOrderId
      r.filledQuantity = true ↔ r.Restorable := by
  obtain ⟨hwf, hinst⟩ := bookFor_ok hb r.restoredRequest.instrument
  have hidx : (engine.bookFor r.restoredRequest.instrument).orderIndex[r.orderId]? = none := by
    refine hwf.orderIndex_eq_none fun o ho hid => ?_
    obtain ⟨side, price, ho⟩ := OrderBook.mem_resting_iff_queue.1 ho
    refine hnew r.instrumentId side price ?_
    rw [← hid, show r.instrumentId = r.restoredRequest.instrument.instrumentId from rfl, ← queueIds_bookFor]
    exact List.mem_map_of_mem ho
  rw [OrderBook.isRequestCompatible_iff]
  constructor
  · rintro ⟨h₁, h₂, -, h₃, h₄, -, h₅, h₆, -⟩
    exact ⟨h₁, h₂, h₃, h₄, h₅, h₆⟩
  · rintro ⟨h₁, h₂, h₃, h₄, h₅, h₆⟩
    have htol := kQuantityTolerance_pos
    have hquantity : 0 < r.quantity := by linarith
    exact ⟨h₁, h₂, hinst.symm, h₃, h₄, hquantity, h₅, h₆, hidx⟩

private theorem restoreRecord_books {engine : MatchingEngine} (hb : BooksOk engine.books) {r : OrderRecord}
    (hnew : ∀ i side price, r.orderId ∉ engine.queueIds i side price) (hr : r.Restorable) :
    (engine.restoreRecord r).books = engine.books.insert r.instrumentId
      ((engine.bookFor r.restoredRequest.instrument).addOrder r.restoredRequest r.orderId r.clientOrderId
        r.filledQuantity).2 := by
  obtain ⟨price, hprice, hpos⟩ := hr.price
  have htol := kQuantityTolerance_pos
  have hfilled := hr.filled
  have hremaining := hr.remaining
  have hrequest : ¬ (r.restoredRequest.price = none ∨ r.restoredRequest.price.getD 0 ≤ 0 ∨
      r.restoredRequest.quantity ≤ 0) := by
    have hp : r.restoredRequest.price = some price := hprice
    rw [hp]
    rintro (h | h | h)
    · cases h
    · exact absurd hpos (not_lt.2 h)
    · exact absurd h (not_le.2 (by show 0 < r.quantity; linarith))
  have hquantity : ¬ (r.filledQuantity < 0 ∨ r.filledQuantity ≥ r.restoredRequest.quantity - kQuantityTolerance) := by
    rintro (h | h)
    · exact absurd hfilled (not_le.2 h)
    · exact absurd hremaining (not_lt.2 h)
  obtain ⟨book', hadd, -⟩ := OrderBook.addOrder_spec (bookFor_ok hb r.restoredRequest.instrument).1
    ((isRequestCompatible_restored hb hnew).2 hr)
  rw [restoreRecord, restoreOpenOrder, if_neg hrequest, if_neg hquantity, hadd]
  rfl

/-- A restored record goes to the end of its queue, or nowhere. -/
private theorem queueIds_restoreRecord {engine : MatchingEngine} (hb : BooksOk engine.books) {r : OrderRecord}
    (hnew : ∀ i side price, r.orderId ∉ engine.queueIds i side price) (i : String) (side : OrderSide) (price : ℚ) :
    (engine.restoreRecord r).queueIds i side price =
      engine.queueIds i side price ++ if r.RestsAt i side price then [r.orderId] else [] := by
  have hcompat := isRequestCompatible_restored hb hnew
  have hfor := engine.queueIds_bookFor r.restoredRequest.instrument side price
  by_cases hr : r.Restorable
  · rw [queueIds_insert (restoreRecord_books hb hnew hr), OrderBook.addOrder_queue (hcompat.2 hr), hfor]
    by_cases hi : r.instrumentId = i
    · rw [if_pos hi, ← hi]
      refine congrArg (_ ++ ·) (if_congr ?_ rfl rfl)
      exact ⟨fun h => ⟨hr, rfl, h⟩, fun h => h.2.2⟩
    · rw [if_neg hi, if_neg fun h => hi h.2.1, List.append_nil]
  · rw [if_neg fun h => hr h.1, List.append_nil]
    rcases restoreOpenOrder_books engine r.orderId r.clientOrderId r.restoredRequest r.filledQuantity with heq | heq
    · unfold queueIds findBook
      rw [restoreRecord, heq]
    · -- a record that the book refuses leaves the book as it was
      rw [OrderBook.addOrder_of_not_compatible (Bool.eq_false_iff.2 fun h => hr (hcompat.1 h))] at heq
      rw [restoreRecord, queueIds_insert heq, hfor]
      split
      · rename_i hi
        rw [hi]
      · rfl

/-- Restored one by one, the records stand in the queues in the order of the list. -/
theorem queueIds_restoreRecords {records : List OrderRecord} (hnodup : (records.map OrderRecord.orderId).Nodup)
    {engine : MatchingEngine} (hb : BooksOk engine.books)
    (hnew : ∀ r ∈ records, ∀ i side price, r.orderId ∉ engine.queueIds i side price) (i : String) (side : OrderSide)
    (price : ℚ) : (records.foldl restoreRecord engine).queueIds i side price =
      engine.queueIds i side price ++ (records.filter fun r => r.RestsAt i side price).map OrderRecord.orderId := by
  induction records generalizing engine with
  | nil => simp
  | cons r records ih =>
    rw [List.map_cons, List.nodup_cons] at hnodup
    have hfirst := hnew r (List.mem_cons_self ..)
    have hnext : ∀ r' ∈ records, ∀ i side price, r'.orderId ∉ (engine.restoreRecord r).queueIds i side price := by
      intro r' hr' i side price hmem
      rw [queueIds_restoreRecord hb hfirst, List.mem_append] at hmem
      rcases hmem with hmem | hmem
      · exact hnew r' (List.mem_cons_of_mem _ hr') i side price hmem
      · split at hmem
        · exact hnodup.1 (List.mem_singleton.1 hmem ▸ List.mem_map_of_mem hr')
        · cases hmem
    rw [List.foldl_cons, ih hnodup.2 (restoreRecord_booksOk hb r) hnext, queueIds_restoreRecord hb hfirst,
      List.append_assoc, List.filter_cons]
    by_cases hr : r.RestsAt i side price
    · rw [if_pos hr, if_pos (decide_eq_true hr), List.map_cons, List.singleton_append]
    · rw [if_neg hr, if_neg (mt of_decide_eq_true hr), List.nil_append]

end MatchingEngine

/-! ### Resting orders can be restored -/

/-- What the book has checked of an order when it let it rest, and no fill changes. -/
structure RestingOrder.Accepted (o : RestingOrder) : Prop where
  orderId : o.orderId ≠ ""
  clientOrderId : o.clientOrderId ≠ ""
  limit : o.request.type = .limit
  price : ∃ price ∈ o.request.price, 0 < price

private theorem OrderBook.addOrder_accepted {book : OrderBook} (hb : book.Wf) (h : ∀ o ∈ book.resting, o.Accepted)
    (request : OrderRequest) (orderId clientOrderId : String) (filledQuantity : ℚ) :
    ∀ o ∈ (book.addOrder request orderId clientOrderId filledQuantity).2.resting, o.Accepted := by
  cases hc : book.isRequestCompatible request orderId clientOrderId filledQuantity with
  | false =>
    rw [addOrder_of_not_compatible hc]
    exact h
  | true =>
    obtain ⟨book', hadd, -, -, hrest⟩ := addOrder_spec hb hc
    obtain ⟨h₁, h₂, -, h₃, h₄, -⟩ := isRequestCompatible_iff.1 hc
    rw [hadd, hrest]
    intro o ho
    rcases Multiset.mem_cons.1 ho with rfl | ho
    · exact ⟨h₁, h₂, h₃, h₄⟩
    · exact h o ho

theorem Executes.accepted {book book' : OrderBook} {orders orders' : StringMap OrderRecord} {es : List Execution}
    (h : Executes book orders es book' orders') (hb : book.Wf) (hacc : ∀ o ∈ book.resting, o.Accepted) :
    ∀ o ∈ book'.resting, o.Accepted :=
  (h.forall_resting (fun _ _ ho => ⟨ho.orderId, ho.clientOrderId, ho.limit, ho.price⟩) hb hacc).2

namespace MatchingEngine

/-- All resting orders of all books were accepted. -/
def AllAccepted (engine : MatchingEngine) : Prop :=
  ∀ (i : String) (book : OrderBook), engine.books[i]? = some book → ∀ o ∈ book.resting, o.Accepted

namespace AllAccepted

variable {engine engine' : MatchingEngine} (h : engine.AllAccepted)
include h

theorem insert {i : String} {book : OrderBook} (hbook : ∀ o ∈ book.resting, o.Accepted)
    (heq : engine'.books = engine.books.insert i book) : engine'.AllAccepted := by
  rw [AllAccepted, heq]
  exact KeyedMap.forall_insert h hbook

theorem congr (heq : engine'.books = engine.books) : engine'.AllAccepted := by
  intro i book hbook
  rw [heq] at hbook
  exact h i book hbook

theorem bookFor (instrument : Instrument) : ∀ o ∈ (engine.bookFor instrument).resting, o.Accepted :=
  fun o ho => h _ _ (findBook_of_resting ho) o ho

theorem step (hb : BooksOk engine.books) (op : EngineOp) : (machine.step engine op).1.AllAccepted := by
  cases op with
  | submit request =>
    show (engine.submit request).1.AllAccepted
    rcases submit_books engine request with heq | ⟨-, heq⟩
    · exact h.congr heq
    · have hfor := (bookFor_ok hb request.instrument).1
      obtain ⟨es, fills, hrun⟩ := submitLoop_spec hb request
      have hloop := hrun.executes.accepted hfor (h.bookFor request.instrument)
      refine h.insert ?_ heq
      unfold restedBook
      dsimp only
      split
      · exact OrderBook.addOrder_accepted (hrun.executes.wf hfor).1 hloop _ _ _ _
      · exact hloop
  | cancel orderId clientOrderId =>
    show (engine.cancel orderId clientOrderId).1.AllAccepted
    rcases cancel_takes_resting hb orderId clientOrderId with heq | ⟨i, book, book', o, hbook, -, -, hrest, heq⟩
    · exact h.congr heq
    · exact h.insert (fun x hx => h i book hbook x (hrest ▸ Multiset.mem_cons_of_mem hx)) heq
  | processMarketEvent event =>
    show (engine.processMarketEvent event).1.AllAccepted
    rcases processMarketEvent_spec hb event with heq | ⟨book, es, hbook, hrun, heq⟩
    · rw [heq]
      exact h
    · rw [heq]
      exact h.insert (hrun.executes.accepted (hb _ book hbook).1 (h _ book hbook)) rfl
  | restoreOpenOrder orderId clientOrderId request filledQuantity =>
    show (engine.restoreOpenOrder orderId clientOrderId request filledQuantity).AllAccepted
    rcases restoreOpenOrder_books engine orderId clientOrderId request filledQuantity with heq | heq
    · exact h.congr heq
    · exact h.insert (OrderBook.addOrder_accepted (bookFor_ok hb request.instrument).1
        (h.bookFor request.instrument) _ _ _ _) heq

end AllAccepted

/-- In a reachable engine every resting order was accepted. -/
private theorem allAccepted_run (ops : List EngineOp) : (machine.run {} ops).AllAccepted := by
  have hempty : ({} : MatchingEngine).AllAccepted := fun i book hbook => by simp at hbook
  have hok : machine.Admissible (fun _ _ => True) {} ops := Machine.admissible_of_forall (fun _ _ _ => trivial) _
  have hinv := Machine.invariant
    (P := fun engine : MatchingEngine => BooksOk engine.books ∧ engine.AllAccepted)
    (fun engine op _ h => ⟨booksOk_step h.1 op, h.2.step h.1 op⟩) hok ⟨empty_booksOk, hempty⟩
  exact hinv.2

end MatchingEngine

/-! ### Stored orders -/

/-- `r` is what a repository holds of the resting order `o`. -/
structure OrderRecord.Persists (r : OrderRecord) (o : RestingOrder) : Prop where
  clientOrderId : r.clientOrderId = o.clientOrderId
  instrumentId : r.instrumentId = o.request.instrument.instrumentId
  side : r.side = o.request.side
  orderType : r.orderType = o.request.type
  price : r.price = o.request.price
  quantity : r.quantity = o.request.quantity
  filledQuantity : r.filledQuantity = o.request.quantity - o.remainingQuantity
  selected : InMemoryOrderRepository.selectsStatus r.status = true

instance (r : OrderRecord) (o : RestingOrder) : Decidable (r.Persists o) :=
  decidable_of_iff (r.clientOrderId = o.clientOrderId ∧ r.instrumentId = o.request.instrument.instrumentId ∧
    r.side = o.request.side ∧ r.orderType = o.request.type ∧ r.price = o.request.price ∧
    r.quantity = o.request.quantity ∧ r.filledQuantity = o.request.quantity - o.remainingQuantity ∧
    InMemoryOrderRepository.selectsStatus r.status = true)
    ⟨fun ⟨h₁, h₂, h₃, h₄, h₅, h₆, h₇, h₈⟩ => ⟨h₁, h₂, h₃, h₄, h₅, h₆, h₇, h₈⟩,
      fun ⟨h₁, h₂, h₃, h₄, h₅, h₆, h₇, h₈⟩ => ⟨h₁, h₂, h₃, h₄, h₅, h₆, h₇, h₈⟩⟩

/-- Every resting order of the engine is stored. -/
def InMemoryOrderRepository.Persists (repository : InMemoryOrderRepository) (engine : MatchingEngine) : Prop :=
  ∀ i book, engine.findBook i = some book → ∀ o ∈ book.resting,
    ∃ r ∈ repository.getOrder o.orderId, r.Persists o

instance (repository : InMemoryOrderRepository) (engine : MatchingEngine) : Decidable (repository.Persists engine) :=
  decidable_of_iff (∀ entry ∈ engine.books.toList, ∀ o ∈ entry.2.resting,
      ∃ r ∈ repository.getOrder o.orderId, r.Persists o)
    ⟨fun h i book hbook => h (i, book) (Std.ExtTreeMap.mem_toList_iff_getElem?_eq_some.2 hbook),
      fun h entry hentry => h entry.1 entry.2 (Std.ExtTreeMap.mem_toList_iff_getElem?_eq_some.1 hentry)⟩

/-- Any two orders of one queue of the first engine stand in the same order in the same queue of the second one. -/
def MatchingEngine.PriorityKept (before after : MatchingEngine) : Prop :=
  ∀ i side price a b, [a, b].Sublist (before.queueIds i side price) → [a, b].Sublist (after.queueIds i side price)

/-- Any two orders of one queue stand in the same order in the list. -/
def MatchingEngine.ListedInOrder (engine : MatchingEngine) (records : List OrderRecord) : Prop :=
  ∀ i side price a b, [a, b].Sublist (engine.queueIds i side price) →
    [a, b].Sublist (records.map OrderRecord.orderId)

/-- Among distinct keys, leaving out other entries does not change whether two entries are in order. -/
private theorem pair_sublist_filter {α κ : Type*} {key : α → κ} {l : List α} (hnodup : (l.map key).Nodup) {p : α → Bool}
    {x y : α} (hx : x ∈ l) (hy : y ∈ l) (hpx : p x = true) (hpy : p y = true) :
    [key x, key y].Sublist ((l.filter p).map key) ↔ [key x, key y].Sublist (l.map key) := by
  refine ⟨fun h => h.trans (List.filter_sublist.map key), fun h => ?_⟩
  obtain ⟨l', hsub, heq⟩ := List.sublist_map_iff.1 h
  obtain ⟨x', l₁, rfl, hkx, hrest⟩ := List.map_eq_cons_iff.1 heq.symm
  obtain ⟨y', l₂, rfl, hky, hnil⟩ := List.map_eq_cons_iff.1 hrest
  obtain rfl := List.map_eq_nil_iff.1 hnil
  have hx' : x' = x := List.inj_on_of_nodup_map hnodup (hsub.subset (by simp)) hx hkx
  have hy' : y' = y := List.inj_on_of_nodup_map hnodup (hsub.subset (by simp)) hy hky
  subst hx' hy'
  have hfilter := (hsub.filter p).map key
  rwa [List.filter_cons_of_pos hpx, List.filter_cons_of_pos hpy, List.filter_nil] at hfilter

namespace MatchingEngine

/-- The record of an order in a queue is restored to the same queue. -/
private theorem exists_restsAt {engine : MatchingEngine} (hb : BooksOk engine.books) (hacc : engine.AllAccepted)
    {repository : InMemoryOrderRepository} (hkeyed : repository.Keyed) (hpersists : repository.Persists engine)
    {i : String} {side : OrderSide} {price : ℚ} {id : String} (hid : id ∈ engine.queueIds i side price) :
    ∃ r ∈ repository.allOpenOrders, r.orderId = id ∧ r.RestsAt i side price := by
  unfold queueIds at hid
  cases hbook : engine.findBook i with
  | none =>
    rw [hbook] at hid
    cases hid
  | some book =>
    rw [hbook, Option.elim_some] at hid
    obtain ⟨o, ho, rfl⟩ := List.mem_map.1 hid
    have hresting := OrderBook.mem_resting_iff_queue.2 ⟨side, price, ho⟩
    obtain ⟨hwf, hinst⟩ := hb i book hbook
    have hok := (hwf.levelD_ok side price).1 o ho
    have ha := hacc i book hbook o hresting
    obtain ⟨r, hr, hp⟩ := hpersists i book hbook o hresting
    have horderId : r.orderId = o.orderId := hkeyed _ r hr
    have hopen : r ∈ repository.allOpenOrders := hkeyed.mem_allOpenOrders.2 ⟨horderId.symm ▸ hr, hp.selected⟩
    refine ⟨r, hopen, horderId, ⟨?_, ?_, ?_, ?_, ?_, ?_⟩, ?_, hp.side.trans hok.side_eq, hp.price.trans hok.price_eq⟩
    · exact horderId ▸ ha.orderId
    · exact hp.clientOrderId ▸ ha.clientOrderId
    · exact hp.orderType.trans ha.limit
    · exact hp.price ▸ ha.price
    · rw [hp.filledQuantity]
      exact sub_nonneg.2 (hwf.remaining_le hresting)
    · rw [hp.filledQuantity, hp.quantity]
      linarith [hwf.tolerance_lt hresting]
    · rw [hp.instrumentId, hok.instrument_eq, hinst]

end MatchingEngine

namespace Session

variable {σ : Type*}

/-- A restart keeps the priority of all orders that rested in the engine and are stored exactly if the repository
returns any two orders of one queue in queue order. -/
theorem priority_kept_iff (ops : List EngineOp) (session : Session σ) (hkeyed : session.service.orderRepository.Keyed)
    (hpersists : session.service.orderRepository.Persists (MatchingEngine.machine.run {} ops)) :
    (MatchingEngine.machine.run {} ops).PriorityKept session.start.executionEngine ↔
      (MatchingEngine.machine.run {} ops).ListedInOrder session.iteration.openOrders := by
  have hperm := session.iteration.openOrders_perm
  have hnodup : (session.iteration.openOrders.map OrderRecord.orderId).Nodup :=
    (hperm.map _).nodup_iff.2 hkeyed.nodup_allOpenOrders
  have hqueue : ∀ i side price, session.start.executionEngine.queueIds i side price =
      (session.iteration.openOrders.filter fun r => r.RestsAt i side price).map OrderRecord.orderId := by
    intro i side price
    rw [start_executionEngine, MatchingEngine.queueIds_restoreRecords hnodup empty_booksOk
      (fun r _ i side price => by rw [MatchingEngine.queueIds_empty]; exact List.not_mem_nil),
      MatchingEngine.queueIds_empty, List.nil_append]
  unfold MatchingEngine.PriorityKept MatchingEngine.ListedInOrder
  refine forall₅_congr fun i side price a b => forall_congr' fun hab => ?_
  have hrecord : ∀ id ∈ [a, b], ∃ r ∈ session.iteration.openOrders, r.orderId = id ∧ r.RestsAt i side price := by
    intro id hid
    obtain ⟨r, hr, h⟩ := MatchingEngine.exists_restsAt (MatchingEngine.booksOk_run ops)
      (MatchingEngine.allAccepted_run ops) hkeyed hpersists (hab.subset hid)
    exact ⟨r, hperm.mem_iff.2 hr, h⟩
  obtain ⟨x, hx, rfl, hpx⟩ := hrecord a (List.mem_cons_self ..)
  obtain ⟨y, hy, rfl, hpy⟩ := hrecord b (List.mem_cons_of_mem _ (List.mem_singleton_self _))
  rw [hqueue]
  exact pair_sublist_filter hnodup hx hy (decide_eq_true hpx) (decide_eq_true hpy)

/-- Two sell orders at one price. -/
def exampleSells : List OrderRequest :=
  [MatchingEngine.exampleRequest .sell 1 100, MatchingEngine.exampleRequest .sell 1 100]

/-- A process that starts when the two orders rest, and whose repository returns its records last one first. -/
def exampleRestart : Session Unit :=
  let repository := (exampleSession {} exampleSells).finish.orderRepository.getD {}
  { exampleSession repository [] with
    iteration :=
      { RecoveryService.byKey { orderRepository := repository } with
        openOrders := repository.allOpenOrders.reverse
        openOrders_perm := List.reverse_perm _ } }

theorem priority_kept_iff_exampleRestart :
    (MatchingEngine.machine.run {} (exampleSells.map .submit)).PriorityKept exampleRestart.start.executionEngine ↔
      (MatchingEngine.machine.run {} (exampleSells.map .submit)).ListedInOrder exampleRestart.iteration.openOrders :=
  priority_kept_iff _ _ (by decide +kernel) (by decide +kernel)

/-- The order that came second is the first one after the restart. -/
theorem priority_swapped :
    let before := MatchingEngine.machine.run {} (exampleSells.map .submit)
    exampleRestart.service.orderRepository.Keyed ∧ exampleRestart.service.orderRepository.Persists before ∧
      before.queueIds "btc-usdt" .sell 100 = ["match-order-1", "match-order-2"] ∧
      exampleRestart.start.executionEngine.queueIds "btc-usdt" .sell 100 = ["match-order-2", "match-order-1"] ∧
      ¬ before.PriorityKept exampleRestart.start.executionEngine := by
  intro before
  have hbefore : before.queueIds "btc-usdt" .sell 100 = ["match-order-1", "match-order-2"] := by decide +kernel
  have hafter : exampleRestart.start.executionEngine.queueIds "btc-usdt" .sell 100 =
      ["match-order-2", "match-order-1"] := by decide +kernel
  refine ⟨by decide +kernel, by decide +kernel, hbefore, hafter, fun hkept => ?_⟩
  have h := hkept "btc-usdt" .sell 100 "match-order-1" "match-order-2" (hbefore ▸ List.Sublist.refl _)
  rw [hafter] at h
  exact absurd (h.eq_of_length rfl) (by decide)

end Session

end Wall
