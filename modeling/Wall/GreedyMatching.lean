import Wall.EngineRuns
import Wall.PriceTime
import Wall.Lib.Greedy

/-!
# Matching is a greedy walk

A matching loop asks for the best order again after each fill.  On a well-formed book that order is the head of the
side's queue, and a fill drops the head or reduces it (`Wf.applyFill_head`); so the loop is one walk along the queue
as it stood at first (`fillLoop_walk`), and `submit` is greedy price-time matching.
-/

namespace Wall

open KeyedMap Greedy

/-- The resting orders as lots. -/
def restingLots : Lots RestingOrder ℚ where
  amount := RestingOrder.remainingQuantity
  reduce o quantity := { o with remainingQuantity := o.remainingQuantity - quantity }

/-- The loop does not stop at the resting order. -/
def FillRule.accepts (rule : FillRule) (o : RestingOrder) : Bool := !rule.stops o

/-- The walk of a matching loop along a queue. -/
def FillRule.walk (rule : FillRule) (queue : List RestingOrder) (quantity : ℚ) : Outcome RestingOrder ℚ :=
  Greedy.walk restingLots kQuantityTolerance rule.accepts queue quantity

private theorem OrderSide.opposite_ne (side : OrderSide) : side.opposite ≠ side := by
  cases side <;> exact nofun

namespace OrderBook

private theorem nextSequenceNumber_applyFill (book : OrderBook) (orderId : String) (executed : ℚ) :
    (book.applyFill orderId executed).2.nextSequenceNumber = book.nextSequenceNumber := by
  unfold applyFill
  split
  · rfl
  · split
    · rfl
    · split
      · rfl
      · split
        · rfl
        · split
          · rfl
          · dsimp only
            split <;> exact nextSequenceNumber_setLevel ..

/-- A fill of the first order of a side drops that order or reduces it, and leaves the other side alone. -/
theorem Wf.applyFill_head {book : OrderBook} (hb : book.Wf) {side : OrderSide} {o : RestingOrder}
    {queue : List RestingOrder} (hqueue : book.sideQueue side = o :: queue) {executed : ℚ}
    (hpos : kQuantityTolerance < executed) (hle : executed ≤ o.remainingQuantity) :
    ∃ book', book.applyFill o.orderId executed = (true, book') ∧ book'.Wf ∧
      book'.nextSequenceNumber = book.nextSequenceNumber ∧
      book'.sideQueue side = restingLots.remainder kQuantityTolerance o executed ++ queue ∧
      book'.sideQueue side.opposite = book.sideQueue side.opposite := by
  have htol := kQuantityTolerance_pos
  obtain ⟨ho, hside⟩ := hb.mem_sideQueue_iff.1 (hqueue ▸ List.mem_cons_self ..)
  obtain ⟨book', hfill, hwf, -, rest, hrest, hrest'⟩ := applyFill_spec hb ho hpos (by linarith)
  have hseq := nextSequenceNumber_applyFill book o.orderId executed
  rw [hfill] at hseq
  have hsorted := hb.sideQueue_sorted side
  rw [hqueue, List.pairwise_cons] at hsorted
  -- the filled order is counted on its side, whatever remains of it, and not on the other
  have hcount : ∀ quantity s, Multiset.filter (fun x => x.request.side = side)
      ({ o with remainingQuantity := quantity } ::ₘ s) =
      { o with remainingQuantity := quantity } ::ₘ s.filter fun x => x.request.side = side :=
    fun quantity s => Multiset.filter_cons_of_pos s hside
  have hskip : ∀ quantity s, Multiset.filter (fun x => x.request.side = side.opposite)
      ({ o with remainingQuantity := quantity } ::ₘ s) = s.filter fun x => x.request.side = side.opposite :=
    fun quantity s => Multiset.filter_cons_of_neg s fun h => side.opposite_ne (h.symm.trans hside)
  have hcoe := hb.sideQueue_coe side
  rw [hqueue, hrest, hcount o.remainingQuantity, ← Multiset.cons_coe, Multiset.cons_inj_right] at hcoe
  have hother := hb.sideQueue_coe side.opposite
  rw [hrest, hskip o.remainingQuantity] at hother
  by_cases hrem : o.remainingQuantity - executed ≤ kQuantityTolerance
  · have hremainder : restingLots.remainder kQuantityTolerance o executed = [] := if_pos hrem
    rw [if_pos hrem] at hrest'
    rw [hremainder, List.nil_append]
    refine ⟨book', hfill, hwf, hseq, hwf.sideQueue_unique ?_ hsorted.2,
      hwf.sideQueue_unique ?_ (hb.sideQueue_sorted _)⟩
    · rw [hrest', hcoe]
    · rw [hrest', hother]
  · have hremainder : restingLots.remainder kQuantityTolerance o executed =
        [{ o with remainingQuantity := o.remainingQuantity - executed }] := if_neg hrem
    rw [if_neg hrem] at hrest'
    rw [hremainder, List.singleton_append]
    refine ⟨book', hfill, hwf, hseq, hwf.sideQueue_unique ?_ (List.pairwise_cons.2 hsorted),
      hwf.sideQueue_unique ?_ (hb.sideQueue_sorted _)⟩
    · rw [hrest', hcount, ← hcoe, Multiset.cons_coe]
    · rw [hrest', hskip, hother]

end OrderBook

/-! ### The loop -/

/-- The executions of a walk. -/
def executionsOf (taken : List (RestingOrder × ℚ)) : List Execution := taken.map fun t => ⟨t.1, t.2⟩

/-- What a loop did that is the walk `walk` along its side's queue. -/
structure Walks (rule : FillRule) (loop loop' : FillLoop) (walk : Outcome RestingOrder ℚ) (fills : List FillEvent) :
    Prop where
  wf : loop'.book.Wf
  queue_eq : loop'.book.sideQueue rule.side = walk.left
  other_eq : loop'.book.sideQueue rule.side.opposite = loop.book.sideQueue rule.side.opposite
  sequence_eq : loop'.book.nextSequenceNumber = loop.book.nextSequenceNumber
  quantity_eq : loop'.quantity = walk.wanted
  executes : Executes loop.book loop.orders (executionsOf walk.taken) loop'.book loop'.orders
  fills_eq : loop'.fills = loop.fills ++ fills
  fills_of : List.Forall₂ (fun t fill => ∃ n, fill = rule.fill n t.1 t.2) walk.taken fills

/-- A loop that has stopped. -/
theorem Walks.stopped {rule : FillRule} {loop : FillLoop} (hb : loop.book.Wf) :
    Walks rule loop loop ⟨[], loop.book.sideQueue rule.side, loop.quantity⟩ [] :=
  ⟨hb, rfl, rfl, rfl, rfl, .nil _ _, (List.append_nil _).symm, .nil⟩

/-- One iteration and a walk from there on are a walk. -/
theorem Walks.step {rule : FillRule} {loop loop' : FillLoop} {walk : Outcome RestingOrder ℚ} {fills : List FillEvent}
    {o : RestingOrder} {book : OrderBook} (hbest : loop.book.bestOrder o.request.side = some o)
    (hpos : kQuantityTolerance < min loop.quantity o.remainingQuantity)
    (hfill : loop.book.applyFill o.orderId (min loop.quantity o.remainingQuantity) = (true, book))
    (hseq : book.nextSequenceNumber = loop.book.nextSequenceNumber)
    (hother : book.sideQueue rule.side.opposite = loop.book.sideQueue rule.side.opposite)
    (h : Walks rule (loop.afterFill rule o (min loop.quantity o.remainingQuantity) book) loop' walk fills) :
    Walks rule loop loop' ⟨(o, min loop.quantity o.remainingQuantity) :: walk.taken, walk.left, walk.wanted⟩
      (rule.fill loop.nextFillId o (min loop.quantity o.remainingQuantity) :: fills) where
  wf := h.wf
  queue_eq := h.queue_eq
  other_eq := h.other_eq.trans hother
  sequence_eq := h.sequence_eq.trans hseq
  quantity_eq := h.quantity_eq
  executes := .cons hbest hpos (min_le_right _ _) hfill h.executes
  fills_eq := by rw [h.fills_eq, FillLoop.afterFill, List.append_assoc, List.singleton_append]
  fills_of := .cons ⟨loop.nextFillId, rfl⟩ h.fills_of

/-- What the fills of a walk say, read off the orders and quantities that were taken. -/
theorem Walks.map_fills {rule : FillRule} {loop loop' : FillLoop} {walk : Outcome RestingOrder ℚ}
    {fills : List FillEvent} (h : Walks rule loop loop' walk fills) {β : Type*} {f : FillEvent → β}
    {g : RestingOrder × ℚ → β} (hfg : ∀ n o quantity, f (rule.fill n o quantity) = g (o, quantity)) :
    fills.map f = walk.taken.map g := by
  symm
  refine forall₂_map_eq h.fills_of ?_
  rintro t fill ⟨n, rfl⟩
  exact (hfg n t.1 t.2).symm

/-- A loop that does not run out of fuel walks along the queue of its side. -/
theorem fillLoop_walk (rule : FillRule) (fuel : Nat) (loop : FillLoop) (hb : loop.book.Wf)
    (hfuel : (fillLoop rule fuel loop).2 ≠ .outOfFuel) :
    ∃ fills, Walks rule loop (fillLoop rule fuel loop).1 (rule.walk (loop.book.sideQueue rule.side) loop.quantity)
      fills := by
  induction fuel generalizing loop with
  | zero => exact absurd rfl hfuel
  | succ fuel ih =>
    rw [fillLoop] at hfuel ⊢
    by_cases hwanted : loop.quantity > kQuantityTolerance
    · rw [if_pos hwanted] at hfuel ⊢
      have hbest := hb.bestOrder_eq rule.side
      cases hqueue : loop.book.sideQueue rule.side with
      | nil =>
        rw [hqueue, List.head?_nil] at hbest
        rw [hbest, FillRule.walk, walk, ← hqueue]
        exact ⟨[], .stopped hb⟩
      | cons o queue =>
        rw [hqueue, List.head?_cons] at hbest
        rw [hbest] at hfuel ⊢
        dsimp only at hfuel ⊢
        by_cases hstops : rule.stops o = true
        · have hno : rule.accepts o = false := by rw [FillRule.accepts, hstops, Bool.not_true]
          rw [if_pos hstops, FillRule.walk, walk_of_not_accepts hno, ← hqueue]
          exact ⟨[], .stopped hb⟩
        · rw [if_neg hstops] at hfuel ⊢
          have hgoes : rule.accepts o = true := by rw [FillRule.accepts, Bool.eq_false_iff.2 hstops, Bool.not_false]
          have hmem := hb.mem_sideQueue_iff.1 (hqueue ▸ List.mem_cons_self ..)
          have hpos : kQuantityTolerance < min loop.quantity o.remainingQuantity :=
            lt_min hwanted (hb.tolerance_lt hmem.1)
          obtain ⟨book, hfill, hwf, hseq, hhead, hother⟩ := hb.applyFill_head hqueue hpos (min_le_right _ _)
          rw [hfill] at hfuel ⊢
          -- the walk goes on along the queue of the book after the fill
          obtain ⟨fills, hwalks⟩ := ih _ hwf hfuel
          have hquantity : (loop.afterFill rule o (min loop.quantity o.remainingQuantity) book).quantity =
              loop.quantity - min loop.quantity o.remainingQuantity := max_eq_right (sub_nonneg.2 (min_le_left _ _))
          have hqueue' : (loop.afterFill rule o (min loop.quantity o.remainingQuantity) book).book.sideQueue rule.side =
              restingLots.remainder kQuantityTolerance o (min loop.quantity o.remainingQuantity) ++ queue := hhead
          rw [hquantity, hqueue'] at hwalks
          rw [FillRule.walk, walk_cons kQuantityTolerance_pos.le hwanted hgoes]
          exact ⟨_, hwalks.step (by rw [hmem.2, hbest]) hpos hfill hseq hother⟩
    · rw [if_neg hwanted, FillRule.walk, walk_of_le (not_lt.1 hwanted)]
      exact ⟨[], .stopped hb⟩

/-- In a chain that fills each order at most once, the record of an order that it fills shows that fill. -/
private theorem Executes.record_of_once {except : Option String} {book book' : OrderBook}
    {orders orders' : StringMap OrderRecord} {es : List Execution} (h : Executes book orders es book' orders')
    (hs : Synced except book orders) (hok : RecordsOk orders)
    (honce : (es.map fun e => e.resting.orderId).Nodup) :
    ∀ e ∈ es, ∃ r, orders[e.resting.orderId]? = some r ∧ Records e.resting r ∧
      e.quantity ≤ e.resting.remainingQuantity ∧ orders'[e.resting.orderId]? = some (fillRecord r e.quantity) := by
  revert honce
  refine h.tail_induction (P := fun orders es orders' => (es.map fun e => e.resting.orderId).Nodup → ∀ e ∈ es,
    ∃ r, orders[e.resting.orderId]? = some r ∧ Records e.resting r ∧ e.quantity ≤ e.resting.remainingQuantity ∧
      orders'[e.resting.orderId]? = some (fillRecord r e.quantity))
    hs hok rfl (fun _ _ e he => absurd he List.not_mem_nil) ?_
  intro orders r e es book book' orders' hr hrec _ _ _ hle hs₁ hok₁ htail ih hnodup e' he'
  rw [List.map_cons, List.nodup_cons, List.mem_map] at hnodup
  have hne : ∀ e' ∈ es, e'.resting.orderId ≠ e.resting.orderId := fun e' he' hid => hnodup.1 ⟨e', he', hid⟩
  rcases List.mem_cons.1 he' with rfl | he'
  · -- the later executions leave the record alone
    refine ⟨r, hr, hrec, hle, ?_⟩
    rw [htail.getElem?_of_not_executed hs₁ hok₁ _ hne, KeyedMap.getElem?_insert, if_pos rfl]
  · obtain ⟨r', hr', hrec'⟩ := ih hnodup.2 e' he'
    rw [KeyedMap.getElem?_insert, if_neg (hne e' he').symm] at hr'
    exact ⟨r', hr', hrec'⟩

/-! ### `submit` -/

/-- Greedy price-time matching: a walk along the queue for the quantity of the request, as far as the orders cross. -/
def OrderRequest.walk (request : OrderRequest) (queue : List RestingOrder) : Outcome RestingOrder ℚ :=
  Greedy.walk restingLots kQuantityTolerance (crosses request) queue request.quantity

namespace MatchingEngine

/-- What greedy price-time matching of a request returns and leaves: `book` is the instrument's book and `walk` the
walk along the side opposite to the request. -/
structure MatchesGreedily (engine : MatchingEngine) (request : OrderRequest) (book : OrderBook)
    (walk : Outcome RestingOrder ℚ) (next : MatchingEngine × ExecutionResult) : Prop where
  fills : next.2.fills.map (fun fill => (fill.price, fill.quantity)) = walk.taken.map fun t => (t.1.price, t.2)
  incoming : ∀ fill ∈ next.2.fills, fill.orderId = engine.issuedOrderId ∧ fill.side = request.side
  once : (walk.taken.map fun t => t.1.orderId).Nodup
  rested : ∃ book', next.1.findBook request.instrument.instrumentId = some book' ∧
    book'.sideQueue request.side.opposite = walk.left ∧
    (book'.sideQueue request.side : Multiset RestingOrder) =
      (if walk.wanted ≤ kQuantityTolerance then 0
      else {{ orderId := engine.issuedOrderId
              clientOrderId := matchClientOrderId engine.nextClientOrderId
              request := request
              remainingQuantity := walk.wanted
              sequenceNumber := book.nextSequenceNumber }}) + book.sideQueue request.side ∧
    ∀ side, (book'.sideQueue side).Pairwise (RestingOrder.Precedes side)
  books : ∀ i, i ≠ request.instrument.instrumentId → next.1.findBook i = engine.findBook i
  hit : ∀ t ∈ walk.taken, ∃ r, engine.getOrder t.1.orderId = some r ∧ next.1.getOrder t.1.orderId = some
    (if t.1.remainingQuantity - t.2 ≤ kQuantityTolerance then
      { r with filledQuantity := r.quantity, status := .filled }
    else { r with filledQuantity := r.filledQuantity + t.2, status := .partiallyFilled })
  missed : ∀ id, id ≠ engine.issuedOrderId → id ∉ walk.taken.map (fun t => t.1.orderId) →
    next.1.getOrder id = engine.getOrder id

/-- The loop of `submit` is the walk of the request. -/
theorem submitLoop_walk {engine : MatchingEngine} (hb : BooksOk engine.books) (request : OrderRequest) :
    ∃ fills, Walks (submitRule request engine.issuedOrderId) (engine.submitStart request)
      (engine.submitLoop request).1
      (request.walk ((engine.bookFor request.instrument).sideQueue request.side.opposite)) fills := by
  have haccepts : (submitRule request engine.issuedOrderId).accepts = crosses request :=
    funext fun o => Bool.not_not (crosses request o)
  have hwalks := fillLoop_walk _ _ _ (bookFor_ok hb request.instrument).1 (submitLoop_ne_outOfFuel engine request)
  rw [FillRule.walk, haccepts] at hwalks
  exact hwalks

/-- The book that `submit` leaves has the queue that the walk leaves, and the residual on the request's side. -/
private theorem restedBook_queues {engine : MatchingEngine} (h : engine.Sync) {request : OrderRequest}
    (hnew : engine.orders[engine.issuedOrderId]? = none) (hacc : request.Acceptable) :
    let book := engine.bookFor request.instrument
    let walk := request.walk (book.sideQueue request.side.opposite)
    (engine.restedBook request).sideQueue request.side.opposite = walk.left ∧
    ((engine.restedBook request).sideQueue request.side : Multiset RestingOrder) =
      (if walk.wanted ≤ kQuantityTolerance then 0
      else {{ orderId := engine.issuedOrderId
              clientOrderId := matchClientOrderId engine.nextClientOrderId
              request := request
              remainingQuantity := walk.wanted
              sequenceNumber := book.nextSequenceNumber }}) + book.sideQueue request.side := by
  intro book walk
  obtain ⟨fills, hwalks⟩ := submitLoop_walk h.booksOk request
  obtain ⟨es, fills', hmatched⟩ := h.match_spec hnew hacc
  have hleft : (engine.submitLoop request).1.book.sideQueue request.side.opposite = walk.left := hwalks.queue_eq
  have hwanted : (engine.submitLoop request).1.quantity = walk.wanted := hwalks.quantity_eq
  have hsequence : (engine.submitLoop request).1.book.nextSequenceNumber = book.nextSequenceNumber :=
    hwalks.sequence_eq
  -- the loop takes from the opposite side alone
  have hown : (engine.submitLoop request).1.book.sideQueue request.side = book.sideQueue request.side := by
    have hside : (submitRule request engine.issuedOrderId).side.opposite = request.side := by
      show request.side.opposite.opposite = request.side
      cases request.side <;> rfl
    exact hside ▸ hwalks.other_eq
  by_cases hq : walk.wanted ≤ kQuantityTolerance
  · have hrested : engine.restedBook request = (engine.submitLoop request).1.book := by
      rw [restedBook, if_neg (not_lt.2 (hwanted ▸ hq))]
    rw [hrested, hleft, hown, if_pos hq, zero_add]
    exact ⟨rfl, rfl⟩
  · obtain ⟨-, hwf, -, hrest⟩ := residual_rests hacc hwalks.wf hmatched.instrument hmatched.apart
      (by rw [hwanted]; exact not_le.1 hq) hmatched.quantity_le
    rw [OrderBook.restingOrderOf, hwanted, sub_sub_cancel, hsequence] at hrest
    rw [if_neg hq]
    constructor
    · rw [← hleft]
      refine hwf.sideQueue_unique ?_ (hwalks.wf.sideQueue_sorted _)
      rw [hrest, Multiset.filter_cons_of_neg, hwalks.wf.sideQueue_coe]
      exact request.side.opposite_ne.symm
    · rw [hwf.sideQueue_coe, hrest, Multiset.filter_cons_of_pos, ← hwalks.wf.sideQueue_coe, hown,
        Multiset.singleton_add]
      rfl

theorem Sync.matchesGreedily {engine : MatchingEngine} (h : engine.Sync) {request : OrderRequest}
    (hnew : engine.orders[engine.issuedOrderId]? = none) (hacc : request.Acceptable) :
    engine.MatchesGreedily request (engine.bookFor request.instrument)
      (request.walk ((engine.bookFor request.instrument).sideQueue request.side.opposite)) (engine.submit request) := by
  obtain ⟨fills, hwalks⟩ := submitLoop_walk h.booksOk request
  obtain ⟨es, fills', hsubmitted⟩ := h.submit_spec hnew hacc
  have hb := h.bookFor request.instrument
  obtain ⟨hleft, hown⟩ := restedBook_queues h hnew hacc
  set walk := request.walk ((engine.bookFor request.instrument).sideQueue request.side.opposite) with hwalk
  -- the walk takes the first orders of the queue, each once
  have htaken : walk.taken.map Prod.fst <+: (engine.bookFor request.instrument).sideQueue request.side.opposite :=
    walk_taken_prefix _ _
  have hresting : ∀ t ∈ walk.taken, t.1 ∈ (engine.bookFor request.instrument).resting := fun t ht =>
    (hb.wf.mem_sideQueue_iff.1 (htaken.subset (List.mem_map_of_mem ht))).1
  have honce : (walk.taken.map fun t => t.1.orderId).Nodup := by
    have hnodup := (htaken.sublist.map RestingOrder.orderId).nodup (hb.wf.sideQueue_nodup _)
    rw [List.map_map] at hnodup
    exact hnodup
  -- a resting order is tracked, so the new id is not among those that were hit
  have hother : ∀ t ∈ walk.taken, t.1.orderId ≠ engine.issuedOrderId := by
    intro t ht hid
    obtain ⟨r, hr, -⟩ := hb.tracked t.1 (hresting t ht)
    rw [hid, hnew] at hr
    cases hr
  have hfills : (engine.submitLoop request).1.fills = fills := hwalks.fills_eq
  rw [hsubmitted.eq]
  refine ⟨?_, ?_, honce, ⟨engine.restedBook request, ?_, hleft, hown, ?_⟩, ?_, ?_, ?_⟩
  · rw [acceptedResult, hfills]
    exact hwalks.map_fills fun _ _ _ => rfl
  · intro fill hfill
    rw [acceptedResult, hfills] at hfill
    obtain ⟨t, -, n, rfl⟩ := forall₂_exists_left hwalks.fills_of hfill
    exact ⟨rfl, rfl⟩
  · exact (KeyedMap.getElem?_insert ..).trans (if_pos rfl)
  · exact hsubmitted.synced.wf.sideQueue_sorted
  · intro i hi
    exact (KeyedMap.getElem?_insert ..).trans (if_neg hi.symm)
  · intro t ht
    have hids : ((executionsOf walk.taken).map fun e => e.resting.orderId) = walk.taken.map fun t => t.1.orderId := by
      rw [executionsOf, List.map_map]
      rfl
    obtain ⟨r, hr, hrec, hle, hr'⟩ := hwalks.executes.record_of_once hsubmitted.before.1 hsubmitted.before.2
      (by rw [hids]; exact honce) ⟨t.1, t.2⟩ (List.mem_map_of_mem ht)
    have hremaining := hrec.remaining_eq
    dsimp only at hr hle hr' hremaining
    refine ⟨r, ?_, ?_⟩
    · have hr₀ := hr
      rw [submitStart, track_orders, KeyedMap.getElem?_insert, if_neg (hother t ht).symm] at hr₀
      exact hr₀
    · show (engine.accepted request).orders[t.1.orderId]? = _
      rw [accepted_orders, KeyedMap.getElem?_insert, if_neg (hother t ht).symm, hr', fillRecord_eq (by linarith),
        hremaining]
  · intro id hid hmissed
    show (engine.accepted request).orders[id]? = _
    rw [accepted_orders, KeyedMap.getElem?_insert, if_neg hid.symm,
      hwalks.executes.getElem?_of_not_executed hsubmitted.before.1 hsubmitted.before.2 id]
    · exact (KeyedMap.getElem?_insert ..).trans (if_neg hid.symm)
    · intro e he hid'
      obtain ⟨t, ht, rfl⟩ := List.mem_map.1 he
      exact hmissed (List.mem_map.2 ⟨t, ht, hid'⟩)

/-- In every state that calls with fresh restores reach, `submit` of a limit request with positive price and quantity
ends and is greedy price-time matching: it walks along the opposite side of the instrument's book, sorted by price and
then by arrival, and its fills, the book it leaves, the records of the orders it hits and the residual are those of
that walk, which hits no order twice. -/
theorem submit_is_greedy (ops : List EngineOp) (request : OrderRequest)
    (h : RestoresFresh {} (ops ++ [.submit request])) (hacc : request.Acceptable) :
    let engine := machine.run {} ops
    let book := engine.bookFor request.instrument
    let queue := book.sideQueue request.side.opposite
    (engine.submitLoop request).2 ≠ .outOfFuel ∧
    (queue : Multiset RestingOrder) = book.resting.filter (fun o => o.request.side = request.side.opposite) ∧
    queue.Pairwise (RestingOrder.Precedes request.side.opposite) ∧
    engine.MatchesGreedily request book (request.walk queue) (engine.submit request) := by
  intro engine book queue
  obtain ⟨-, ⟨hsync, hfresh⟩, -⟩ := machine.admissible_append.1 h.admissible_empty
  have hwf : book.Wf := (hsync.bookFor request.instrument).wf
  exact ⟨submitLoop_ne_outOfFuel engine request, hwf.sideQueue_coe _, hwf.sideQueue_sorted _,
    hsync.matchesGreedily (hfresh _ rfl) hacc⟩

/-- Three resting sells at two prices. -/
def exampleAsks : List EngineOp :=
  [.submit (exampleRequest .sell 2 101), .submit (exampleRequest .sell 1 100), .submit (exampleRequest .sell 1 100)]

theorem submit_is_greedy_exampleAsks :
    RestoresFresh {} (exampleAsks ++ [.submit (exampleRequest .buy 3 101)]) ∧
    (exampleRequest .buy 3 101).Acceptable ∧
    ((machine.run {} exampleAsks).submit (exampleRequest .buy 3 101)).2.fills.map
      (fun fill => (fill.price, fill.quantity)) = [(100, 1), (100, 1), (101, 1)] := by
  have hfresh : RestoresFresh {} (exampleAsks ++ [.submit (exampleRequest .buy 3 101)]) :=
    restoresFresh_of_isRestore (by decide)
  have hacc : (exampleRequest .buy 3 101).Acceptable := ⟨rfl, ⟨101, rfl, by norm_num⟩, by decide +kernel⟩
  exact ⟨hfresh, hacc, (submit_is_greedy exampleAsks _ hfresh hacc).2.2.2.fills.trans (by decide +kernel)⟩

end MatchingEngine

end Wall
