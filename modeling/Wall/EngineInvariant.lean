import Wall.Synced
import Wall.BookRuns

/-!
# The invariant of the matching engine

`MatchingEngine.Sync` says that every book is in step with the order records and that every open order has a book.
What each call does to an engine with this invariant is said once, call by call (`submit_spec`, `cancel_spec`,
`processMarketEvent_spec`, `restoreOpenOrder_spec`); that the calls keep it (`Sync.step`) and every later result
about the engine are read off from these.

A new order must not take the id of a tracked one: `EngineOp.Fresh` is that condition for one call.
-/

namespace Wall

open KeyedMap

/-- Every book is well formed and stands under its instrument's id. -/
def BooksOk (books : StringMap OrderBook) : Prop :=
  ∀ (i : String) (book : OrderBook), books[i]? = some book → book.Wf ∧ book.instrument.instrumentId = i

theorem BooksOk.insert {books : StringMap OrderBook} (h : BooksOk books) {i : String} {book : OrderBook}
    (hb : book.Wf) (hi : book.instrument.instrumentId = i) : BooksOk (books.insert i book) :=
  forall_insert h ⟨hb, hi⟩

theorem empty_booksOk : BooksOk ∅ := fun i book hbook => by simp at hbook

namespace MatchingEngine

theorem bookFor_ok {engine : MatchingEngine} (h : BooksOk engine.books) (instrument : Instrument) :
    (engine.bookFor instrument).Wf ∧
      (engine.bookFor instrument).instrument.instrumentId = instrument.instrumentId := by
  unfold bookFor
  cases hb : engine.books[instrument.instrumentId]? with
  | none => exact ⟨OrderBook.empty_wf instrument, rfl⟩
  | some book => exact h _ book hb

theorem bookFor_of_some {engine : MatchingEngine} {instrument : Instrument} {book : OrderBook}
    (h : engine.books[instrument.instrumentId]? = some book) : engine.bookFor instrument = book := by
  rw [bookFor, h, Option.getD_some]

/-- A book with an order in it is one of the engine's. -/
theorem findBook_of_resting {engine : MatchingEngine} {instrument : Instrument} {o : RestingOrder}
    (ho : o ∈ (engine.bookFor instrument).resting) :
    engine.findBook instrument.instrumentId = some (engine.bookFor instrument) := by
  cases hbook : engine.books[instrument.instrumentId]? with
  | none =>
    rw [bookFor, hbook, Option.getD_none] at ho
    exact absurd ho (Multiset.notMem_zero o)
  | some book => rw [bookFor_of_some hbook, findBook, hbook]

/-- The books and the records are in step. -/
structure Sync (engine : MatchingEngine) : Prop where
  records : RecordsOk engine.orders
  instrument : ∀ (i : String) (book : OrderBook), engine.books[i]? = some book → book.instrument.instrumentId = i
  synced : ∀ (i : String) (book : OrderBook), engine.books[i]? = some book → Synced none book engine.orders
  booked : ∀ (id : String) (r : OrderRecord), engine.orders[id]? = some r → r.status.isOpen = true →
    ∃ book, engine.books[r.instrumentId]? = some book

theorem empty_sync : ({} : MatchingEngine).Sync := by
  refine ⟨?_, ?_, ?_, ?_⟩ <;> intro a b h <;> simp at h

namespace Sync

variable {engine : MatchingEngine} (h : engine.Sync)
include h

theorem booksOk : BooksOk engine.books :=
  fun i book hb => ⟨(h.synced i book hb).wf, h.instrument i book hb⟩

theorem bookFor (instrument : Instrument) : Synced none (engine.bookFor instrument) engine.orders := by
  unfold MatchingEngine.bookFor
  cases hb : engine.books[instrument.instrumentId]? with
  | some book => exact h.synced _ book hb
  | none =>
    have hr : ({ instrument := instrument } : OrderBook).resting = 0 := by simp [OrderBook.resting, contents]
    refine ⟨OrderBook.empty_wf instrument, fun o ho => ?_, fun id r hid hinst hopen _ => ?_⟩
    · rw [Option.getD_none, hr] at ho
      exact absurd ho (Multiset.notMem_zero o)
    · obtain ⟨book, hbook⟩ := h.booked id r hid hopen
      rw [hinst, Option.getD_none, hb] at hbook
      cases hbook

/-- Writing back one book and the records of its instrument. -/
theorem update {engine' : MatchingEngine} {i : String} {book : OrderBook}
    (hbooks : engine'.books = engine.books.insert i book) (hi : book.instrument.instrumentId = i)
    (hsync : Synced none book engine'.orders) (hok : RecordsOk engine'.orders)
    (hsame : SameOutside i engine.orders engine'.orders) : engine'.Sync := by
  refine ⟨hok, ?_, fun j b hb => ?_, fun id r hr hopen => ?_⟩
  · rw [hbooks]
    exact forall_insert h.instrument hi
  · rw [hbooks, KeyedMap.getElem?_insert] at hb
    split at hb
    · cases hb
      exact hsync
    · rename_i hij
      refine (h.synced j b hb).of_sameOutside ?_ hsame
      rw [h.instrument j b hb]
      exact Ne.symm hij
  · rw [hbooks, KeyedMap.getElem?_insert]
    split
    · exact ⟨book, rfl⟩
    · rename_i hne
      exact h.booked id r ((hsame id r (Ne.symm hne)).1 hr) hopen

/-- An open record rests in the book of its instrument. -/
theorem exists_resting {id : String} {r : OrderRecord} (hr : engine.orders[id]? = some r)
    (hopen : r.status.isOpen = true) :
    ∃ book, engine.books[r.instrumentId]? = some book ∧ ∃ o ∈ book.resting, o.orderId = id ∧ Records o r := by
  obtain ⟨book, hbook⟩ := h.booked id r hr hopen
  have hs := h.synced _ book hbook
  obtain ⟨o, ho, hid⟩ := hs.rests id r hr (h.instrument _ book hbook).symm hopen (nofun)
  obtain ⟨r', hr', hrec⟩ := hs.tracked o ho
  rw [hid, hr, Option.some.injEq] at hr'
  exact ⟨book, hbook, o, ho, hid, hr' ▸ hrec⟩

/-- A tracked record that is not terminal is open. -/
private theorem isOpen_of_not_terminal {id : String} {r : OrderRecord} (hr : engine.orders[id]? = some r)
    (ht : r.status.isTerminal = false) : r.status.isOpen = true := by
  rcases (h.records id r hr).status with hs | hs | hs | hs
  · exact hs
  all_goals rw [hs] at ht; cases ht

end Sync

/-! ### `submit` -/

end MatchingEngine

/-- The requests that `submit` does not reject. -/
structure OrderRequest.Acceptable (request : OrderRequest) : Prop where
  limit : request.type = .limit
  price : ∃ price, request.price = some price ∧ 0 < price
  quantity : 0 < request.quantity

instance (request : OrderRequest) : Decidable request.Acceptable :=
  decidable_of_iff (request.type = .limit ∧ (∃ price ∈ request.price, 0 < price) ∧ 0 < request.quantity)
    ⟨fun h => ⟨h.1, h.2.1, h.2.2⟩, fun h => ⟨h.limit, h.price, h.quantity⟩⟩

theorem matchOrderId_ne_empty (number : Nat) : matchOrderId number ≠ "" := by
  simp [matchOrderId]

private theorem matchClientOrderId_ne_empty (number : Nat) : matchClientOrderId number ≠ "" := by
  simp [matchClientOrderId]

/-- The checks of `submit`. -/
theorem OrderRequest.acceptable_of_checks {request : OrderRequest} (htype : request.type ≠ .market)
    (h : ¬(request.price = none ∨ request.price.getD 0 ≤ 0 ∨ request.quantity ≤ 0)) : request.Acceptable := by
  push Not at h
  refine ⟨?_, ?_, h.2.2⟩
  · cases ht : request.type with
    | market => exact absurd ht htype
    | limit => rfl
  · cases hp : request.price with
    | none => exact absurd hp h.1
    | some price => exact ⟨price, rfl, by simpa [hp] using h.2.1⟩

namespace MatchingEngine

theorem submit_cases (engine : MatchingEngine) (request : OrderRequest) :
    (∃ reason, engine.submit request = engine.rejectNew request reason ∧
      reason ≠ "failed to rest residual order quantity" ∧ ¬ request.Acceptable) ∨
    (engine.submit request = engine.matchAndRest request ∧ request.Acceptable) := by
  unfold submit
  split
  · rename_i htype
    refine .inl ⟨_, rfl, by decide, fun h => ?_⟩
    rw [h.limit] at htype
    cases htype
  · rename_i htype
    split
    · rename_i hbad
      refine .inl ⟨_, rfl, by decide, fun h => ?_⟩
      obtain ⟨price, hprice, hpos⟩ := h.price
      rcases hbad with hbad | hbad | hbad
      · rw [hprice] at hbad
        cases hbad
      · rw [hprice, Option.getD_some] at hbad
        exact absurd hpos (not_lt.2 hbad)
      · exact absurd h.quantity (not_lt.2 hbad)
    · rename_i hgood
      exact .inr ⟨rfl, OrderRequest.acceptable_of_checks htype hgood⟩

private theorem submit_of_acceptable (engine : MatchingEngine) {request : OrderRequest} (hacc : request.Acceptable) :
    engine.submit request = engine.matchAndRest request := by
  rcases engine.submit_cases request with ⟨-, -, -, h⟩ | ⟨h, -⟩
  · exact absurd hacc h
  · exact h

section Accepted

variable (engine : MatchingEngine) (request : OrderRequest)

/-- The book that `submit` leaves: with the residual in it, if one remains. -/
def restedBook : OrderBook :=
  let loop := (engine.submitLoop request).1
  if loop.quantity > kQuantityTolerance then
    (loop.book.addOrder request engine.issuedOrderId (matchClientOrderId engine.nextClientOrderId)
      (submitFilled request loop)).2
  else loop.book

/-- The record that `submit` leaves for the new order. -/
def finalRecord : OrderRecord :=
  let loop := (engine.submitLoop request).1
  if loop.quantity ≤ kQuantityTolerance then
    { engine.newRecord request with status := .filled, filledQuantity := request.quantity }
  else
    { engine.newRecord request with
      status := if request.quantity - loop.quantity > kQuantityTolerance then .partiallyFilled else .acknowledged
      filledQuantity := request.quantity - loop.quantity }

/-- The engine after an accepted `submit`. -/
def accepted : MatchingEngine :=
  { engine.track request .acknowledged with
    books := engine.books.insert request.instrument.instrumentId (engine.restedBook request)
    orders := (engine.submitLoop request).1.orders.insert engine.issuedOrderId (engine.finalRecord request)
    nextFillId := (engine.submitLoop request).1.nextFillId }

/-- The result of an accepted `submit`. -/
def acceptedResult : ExecutionResult :=
  let loop := (engine.submitLoop request).1
  let clientOrderId := matchClientOrderId engine.nextClientOrderId
  let update (status : OrderStatus) (filledQuantity : ℚ) : OrderUpdate :=
    makeUpdate engine.issuedOrderId clientOrderId status filledQuantity none
  { orderId := engine.issuedOrderId
    clientOrderId := clientOrderId
    fills := loop.fills
    updates := update .acknowledged 0 ::
      if loop.quantity ≤ kQuantityTolerance then [update .filled (request.quantity - loop.quantity)]
      else if request.quantity - loop.quantity > kQuantityTolerance then
        [update .partiallyFilled (request.quantity - loop.quantity)]
      else [] }

theorem mem_acceptedResult_updates {u : OrderUpdate} (hu : u ∈ (engine.acceptedResult request).updates) :
    u.orderId = engine.issuedOrderId ∧ u.reason = none := by
  rw [acceptedResult] at hu
  rcases List.mem_cons.1 hu with rfl | hu
  · exact ⟨rfl, rfl⟩
  · split at hu
    · rw [List.mem_singleton.1 hu]
      exact ⟨rfl, rfl⟩
    · split at hu
      · rw [List.mem_singleton.1 hu]
        exact ⟨rfl, rfl⟩
      · cases hu

theorem track_orders (status : OrderStatus) : (engine.track request status).orders =
    engine.orders.insert engine.issuedOrderId { engine.newRecord request with status := status } := rfl

theorem accepted_orders : (engine.accepted request).orders =
    (engine.submitLoop request).1.orders.insert engine.issuedOrderId (engine.finalRecord request) := rfl

end Accepted

/-- What the matching part of `submit` leaves besides the records, whatever they say. -/
structure MatchFrame (engine : MatchingEngine) (request : OrderRequest) (book : OrderBook)
    (next : MatchingEngine × ExecutionResult) : Prop where
  books_eq : next.1.books = engine.books.insert request.instrument.instrumentId book
  nextOrderId_eq : next.1.nextOrderId = engine.nextOrderId + 1
  nextFillId_eq : next.1.nextFillId = (engine.submitLoop request).1.nextFillId
  fills_eq : next.2.fills = (engine.submitLoop request).1.fills

private theorem settle_frame (engine : MatchingEngine) (request : OrderRequest) (book : OrderBook) :
    engine.MatchFrame request book (engine.settle request (engine.submitLoop request).1 book) := by
  unfold settle
  dsimp only
  split
  · exact ⟨rfl, rfl, rfl, rfl⟩
  · split <;> exact ⟨rfl, rfl, rfl, rfl⟩

theorem matchAndRest_frame (engine : MatchingEngine) (request : OrderRequest) :
    engine.MatchFrame request (engine.restedBook request) (engine.matchAndRest request) := by
  unfold matchAndRest restedBook
  dsimp only
  split
  · split
    · rename_i heq
      rw [heq]
      exact ⟨rfl, rfl, rfl, rfl⟩
    · rename_i heq
      rw [heq]
      exact settle_frame _ _ _
  · exact settle_frame _ _ _

theorem submitLoop_spec {engine : MatchingEngine} (hb : BooksOk engine.books) (request : OrderRequest) :
    ∃ es fills, LoopRun (submitRule request engine.issuedOrderId) (engine.submitStart request)
      (engine.submitLoop request).1 (engine.submitLoop request).2 es fills :=
  fillLoop_spec _ _ _ (bookFor_ok hb request.instrument).1

theorem submitLoop_ne_outOfFuel (engine : MatchingEngine) (request : OrderRequest) :
    (engine.submitLoop request).2 ≠ .outOfFuel :=
  fillLoop_loopFuel _ (engine.submitStart request)

/-- What an accepted `submit` does when the new id is not tracked: it executes resting orders against the new one,
leaves the new record filled, or rests what remains, and keeps the book and the records in step. -/
structure Submitted (engine : MatchingEngine) (request : OrderRequest) (es : List Execution)
    (fills : List FillEvent) : Prop where
  run : LoopRun (submitRule request engine.issuedOrderId) (engine.submitStart request)
    (engine.submitLoop request).1 (engine.submitLoop request).2 es fills
  others : ∀ e ∈ es, e.resting.orderId ≠ engine.issuedOrderId
  before : Synced (some engine.issuedOrderId) (engine.bookFor request.instrument)
    (engine.track request .acknowledged).orders ∧ RecordsOk (engine.track request .acknowledged).orders
  tracked : (engine.submitLoop request).1.orders[engine.issuedOrderId]? =
    some { engine.newRecord request with status := .acknowledged }
  eq : engine.submit request = (engine.accepted request, engine.acceptedResult request)
  synced : Synced none (engine.restedBook request) (engine.accepted request).orders
  records : RecordsOk (engine.accepted request).orders
  instrument : (engine.restedBook request).instrument.instrumentId = request.instrument.instrumentId

theorem Submitted.fills_eq {engine : MatchingEngine} {request : OrderRequest} {es : List Execution}
    {fills : List FillEvent} (h : engine.Submitted request es fills) :
    (engine.acceptedResult request).fills = fills := by
  rw [acceptedResult, h.run.fills_eq, submitStart, List.nil_append]

/-- The end of `submit` with the record of the new order as the loop found it. -/
private theorem settle_eq {engine : MatchingEngine} {request : OrderRequest}
    (hr : (engine.submitLoop request).1.orders[engine.issuedOrderId]? =
      some { engine.newRecord request with status := .acknowledged })
    (h0 : 0 ≤ (engine.submitLoop request).1.quantity)
    (hle : (engine.submitLoop request).1.quantity ≤ request.quantity) :
    engine.settle request (engine.submitLoop request).1 (engine.restedBook request) =
      (engine.accepted request, engine.acceptedResult request) := by
  have hfilled : submitFilled request (engine.submitLoop request).1 =
      request.quantity - (engine.submitLoop request).1.quantity := max_eq_right (sub_nonneg.2 hle)
  have habs : |request.quantity - (engine.submitLoop request).1.quantity - request.quantity| =
      (engine.submitLoop request).1.quantity := by
    rw [sub_sub_cancel_left, abs_neg, abs_of_nonneg h0]
  simp only [settle, accepted, acceptedResult, finalRecord, hfilled, habs, modifyD_of_some hr]
  split
  · rw [modifyD_of_some (by rw [KeyedMap.getElem?_insert, if_pos rfl]), KeyedMap.insert_insert]
  · split
    · rw [modifyD_of_some (by rw [KeyedMap.getElem?_insert, if_pos rfl]), KeyedMap.insert_insert]
    · rfl

/-- The book takes what the loop left of the new order. -/
theorem residual_rests {engine : MatchingEngine} {request : OrderRequest} (hacc : request.Acceptable)
    (hwf : (engine.submitLoop request).1.book.Wf)
    (hinst : (engine.submitLoop request).1.book.instrument.instrumentId = request.instrument.instrumentId)
    (hne : ∀ x ∈ (engine.submitLoop request).1.book.resting, x.orderId ≠ engine.issuedOrderId)
    (hq : kQuantityTolerance < (engine.submitLoop request).1.quantity)
    (hle : (engine.submitLoop request).1.quantity ≤ request.quantity) :
    (engine.submitLoop request).1.book.addOrder request engine.issuedOrderId
        (matchClientOrderId engine.nextClientOrderId) (submitFilled request (engine.submitLoop request).1) =
      (true, engine.restedBook request) ∧
    (engine.restedBook request).Wf ∧
    (engine.restedBook request).instrument = (engine.submitLoop request).1.book.instrument ∧
    (engine.restedBook request).resting =
      (engine.submitLoop request).1.book.restingOrderOf request engine.issuedOrderId
        (matchClientOrderId engine.nextClientOrderId) (request.quantity - (engine.submitLoop request).1.quantity) ::ₘ
      (engine.submitLoop request).1.book.resting := by
  have hfilled : submitFilled request (engine.submitLoop request).1 =
      request.quantity - (engine.submitLoop request).1.quantity := max_eq_right (sub_nonneg.2 hle)
  have hcompat : (engine.submitLoop request).1.book.isRequestCompatible request engine.issuedOrderId
      (matchClientOrderId engine.nextClientOrderId) (request.quantity - (engine.submitLoop request).1.quantity) = true :=
    OrderBook.isRequestCompatible_iff.2 ⟨matchOrderId_ne_empty _, matchClientOrderId_ne_empty _, hinst.symm,
      hacc.limit, hacc.price, hacc.quantity, sub_nonneg.2 hle, by linarith, hwf.orderIndex_eq_none hne⟩
  obtain ⟨book, hadd, hwf', hinst', hrest⟩ := OrderBook.addOrder_spec hwf hcompat
  have hrested : engine.restedBook request = book := by rw [restedBook, if_pos hq, hfilled, hadd]
  rw [hrested, hfilled]
  exact ⟨hadd, hwf', hinst', hrest⟩

theorem Sync.track {engine : MatchingEngine} (h : engine.Sync) {request : OrderRequest}
    (hnew : engine.orders[engine.issuedOrderId]? = none) {status : OrderStatus}
    (hr : RecordOk engine.issuedOrderId { engine.newRecord request with status := status }) :
    Synced (some engine.issuedOrderId) (engine.bookFor request.instrument) (engine.track request status).orders ∧
      RecordsOk (engine.track request status).orders := by
  have hs := h.bookFor request.instrument
  refine ⟨⟨hs.wf, fun o ho => ?_, fun id r hid hinst hopen hexc => ?_⟩, h.records.insert hr⟩
  · obtain ⟨r, hr, hrec⟩ := hs.tracked o ho
    refine ⟨r, ?_, hrec⟩
    rw [MatchingEngine.track, KeyedMap.getElem?_insert, if_neg]
    · exact hr
    · intro hid
      rw [← hid, hnew] at hr
      cases hr
  · rw [MatchingEngine.track, KeyedMap.getElem?_insert, if_neg (fun hid' => hexc (congrArg some hid'))] at hid
    exact hs.rests id r hid hinst hopen (nofun)

/-- Where an accepted `submit` stands after its matching loop: the new order has the record it was tracked with and
does not rest, and everything else is in step. -/
structure Matched (engine : MatchingEngine) (request : OrderRequest) (es : List Execution)
    (fills : List FillEvent) : Prop where
  run : LoopRun (submitRule request engine.issuedOrderId) (engine.submitStart request)
    (engine.submitLoop request).1 (engine.submitLoop request).2 es fills
  others : ∀ e ∈ es, e.resting.orderId ≠ engine.issuedOrderId
  before : Synced (some engine.issuedOrderId) (engine.bookFor request.instrument)
    (engine.track request .acknowledged).orders ∧ RecordsOk (engine.track request .acknowledged).orders
  tracked : (engine.submitLoop request).1.orders[engine.issuedOrderId]? =
    some { engine.newRecord request with status := .acknowledged }
  synced : Synced (some engine.issuedOrderId) (engine.submitLoop request).1.book (engine.submitLoop request).1.orders
  records : RecordsOk (engine.submitLoop request).1.orders
  apart : ∀ x ∈ (engine.submitLoop request).1.book.resting, x.orderId ≠ engine.issuedOrderId
  instrument : (engine.submitLoop request).1.book.instrument.instrumentId = request.instrument.instrumentId
  quantity_nonneg : 0 ≤ (engine.submitLoop request).1.quantity
  quantity_le : (engine.submitLoop request).1.quantity ≤ request.quantity

theorem Sync.match_spec {engine : MatchingEngine} (h : engine.Sync) {request : OrderRequest}
    (hnew : engine.orders[engine.issuedOrderId]? = none) (hacc : request.Acceptable) :
    ∃ es fills, engine.Matched request es fills := by
  obtain ⟨es, fills, hrun⟩ := submitLoop_spec h.booksOk request
  have hnewOk : RecordOk engine.issuedOrderId { engine.newRecord request with status := .acknowledged } :=
    .of_isOpen rfl rfl (le_refl _) hacc.quantity.le
  have hbefore := h.track hnew hnewOk
  obtain ⟨hsync, hok⟩ := hrun.executes.synced hbefore.1 hbefore.2
  -- the new id is not tracked, so nothing rests under it, and executions rest nothing
  have hne : ∀ o ∈ (engine.bookFor request.instrument).resting, o.orderId ≠ engine.issuedOrderId := by
    intro o ho hid
    obtain ⟨r, hr, -⟩ := (h.bookFor request.instrument).tracked o ho
    rw [hid, hnew] at hr
    cases hr
  obtain ⟨hfrom, hfrom'⟩ := hrun.executes.resting_from hbefore.1.wf
  have hothers : ∀ e ∈ es, e.resting.orderId ≠ engine.issuedOrderId := by
    intro e he
    obtain ⟨o, ho, hid, -⟩ := hfrom e he
    exact hid ▸ hne o ho
  have hstart : (engine.submitStart request).quantity = request.quantity := rfl
  have hquantity := hrun.quantity_eq
  have hexec := hrun.executes.executedQuantity_nonneg
  refine ⟨es, fills, hrun, hothers, hbefore, ?_, hsync, hok, fun x hx => ?_, ?_,
    hrun.quantity_nonneg hacc.quantity.le, by linarith⟩
  · rw [hrun.executes.getElem?_of_not_executed hbefore.1 hbefore.2 _ hothers, submitStart, MatchingEngine.track,
      KeyedMap.getElem?_insert, if_pos rfl]
  · obtain ⟨o, ho, hid, -⟩ := hfrom' x hx
    exact hid ▸ hne o ho
  · rw [(hrun.executes.wf hbefore.1.wf).2]
    exact (bookFor_ok h.booksOk request.instrument).2

/-- The final record is of the new order. -/
theorem finalRecord_same (engine : MatchingEngine) (request : OrderRequest) :
    (engine.finalRecord request).orderId = engine.issuedOrderId ∧
      (engine.finalRecord request).instrumentId = request.instrument.instrumentId ∧
      (engine.finalRecord request).side = request.side ∧
      (engine.finalRecord request).price = request.price ∧
      (engine.finalRecord request).quantity = request.quantity := by
  unfold finalRecord
  dsimp only
  split <;> exact ⟨rfl, rfl, rfl, rfl, rfl⟩

theorem finalRecord_of_le {engine : MatchingEngine} {request : OrderRequest}
    (hq : (engine.submitLoop request).1.quantity ≤ kQuantityTolerance) : engine.finalRecord request =
      { engine.newRecord request with status := .filled, filledQuantity := request.quantity } := by
  rw [finalRecord, if_pos hq]

theorem finalRecord_of_lt {engine : MatchingEngine} {request : OrderRequest}
    (hq : kQuantityTolerance < (engine.submitLoop request).1.quantity) :
    (engine.finalRecord request).status.isOpen = true ∧
      (engine.finalRecord request).filledQuantity = request.quantity - (engine.submitLoop request).1.quantity := by
  rw [finalRecord, if_neg (not_le.2 hq)]
  constructor
  · dsimp only
    split <;> rfl
  · rfl

namespace Matched

variable {engine : MatchingEngine} {request : OrderRequest} {es : List Execution} {fills : List FillEvent}

/-- The loop used the new order up: it does not rest, and its record is filled. -/
theorem filled (h : engine.Matched request es fills) (hacc : request.Acceptable)
    (hq : (engine.submitLoop request).1.quantity ≤ kQuantityTolerance) : engine.Submitted request es fills := by
  have hrested : engine.restedBook request = (engine.submitLoop request).1.book := by
    rw [restedBook, if_neg (not_lt.2 hq)]
  have hsettle := settle_eq h.tracked h.quantity_nonneg h.quantity_le
  have hrecord := finalRecord_of_le hq
  refine ⟨h.run, h.others, h.before, h.tracked, ?_, ?_, ?_, by rw [hrested, h.instrument]⟩
  · rw [submit_of_acceptable engine hacc, matchAndRest, if_neg (not_lt.2 hq), ← hsettle, hrested]
  · rw [hrested, accepted, hrecord]
    exact h.synced.close (by rintro _ ⟨⟩; rfl) h.apart rfl
  · rw [accepted, hrecord]
    exact h.records.insert
      ⟨rfl, Or.inr (Or.inl rfl), fun _ => rfl, (nomatch ·), fun _ => ⟨hacc.quantity.le, le_refl _⟩⟩

/-- The loop left some of the new order: that rests, with an open record. -/
theorem rested (h : engine.Matched request es fills) (hacc : request.Acceptable)
    (hq : kQuantityTolerance < (engine.submitLoop request).1.quantity) : engine.Submitted request es fills := by
  have htol := kQuantityTolerance_pos
  have hle := h.quantity_le
  obtain ⟨hadd, hwf, hinst, hrest⟩ := residual_rests hacc h.synced.wf h.instrument h.apart hq hle
  obtain ⟨hid, hinstrument, hside, hprice, hquantity⟩ := finalRecord_same engine request
  obtain ⟨hopen, hfilled⟩ := finalRecord_of_lt hq
  have hsettle := settle_eq h.tracked h.quantity_nonneg hle
  refine ⟨h.run, h.others, h.before, h.tracked, ?_, ?_, ?_, by rw [hinst, h.instrument]⟩
  · rw [submit_of_acceptable engine hacc, matchAndRest, if_pos hq, hadd, ← hsettle]
  · refine h.synced.rest (o := OrderBook.restingOrderOf _ request engine.issuedOrderId _ _) h.apart hwf hinst hrest ?_
    refine ⟨hinstrument, hside, hprice, hopen, ?_⟩
    rw [hquantity, hfilled]
    rfl
  · refine h.records.insert (.of_isOpen hid hopen ?_ ?_)
    · rw [hfilled]
      linarith
    · rw [hfilled, hquantity]
      linarith

end Matched

/-- The new order rests with the remaining quantity, or not at all, under the final record. -/
theorem Sync.submit_spec {engine : MatchingEngine} (h : engine.Sync) {request : OrderRequest}
    (hnew : engine.orders[engine.issuedOrderId]? = none) (hacc : request.Acceptable) :
    ∃ es fills, engine.Submitted request es fills := by
  obtain ⟨es, fills, hmatched⟩ := h.match_spec hnew hacc
  by_cases hq : (engine.submitLoop request).1.quantity ≤ kQuantityTolerance
  · exact ⟨es, fills, hmatched.filled hacc hq⟩
  · exact ⟨es, fills, hmatched.rested hacc (not_le.1 hq)⟩

/-! ### `process_market_event` -/

theorem processMarketEvent_spec {engine : MatchingEngine} (hb : BooksOk engine.books) (event : MarketEvent) :
    engine.processMarketEvent event = (engine, {}) ∨
    ∃ book es, engine.books[event.instrument.instrumentId]? = some book ∧
      MarketRun event book engine.orders (engine.marketLoops event book).1 (engine.marketLoops event book).2 es ∧
      engine.processMarketEvent event =
        ({ engine with
            books := engine.books.insert event.instrument.instrumentId (engine.marketLoops event book).1.book
            orders := (engine.marketLoops event book).1.orders
            nextFillId := (engine.marketLoops event book).1.nextFillId },
          { updates := (((es.map fun e => e.resting.orderId).insertionSort (· ≤ ·)).dedup).flatMap
              (appendOrderUpdate (engine.marketLoops event book).1.orders)
            fills := (engine.marketLoops event book).1.fills }) := by
  unfold processMarketEvent
  cases hbook : engine.books[event.instrument.instrumentId]? with
  | none => exact .inl rfl
  | some book =>
    obtain ⟨es, hrun⟩ := engine.marketLoops_spec event (hb _ book hbook).1
    refine .inr ⟨book, es, rfl, hrun, ?_⟩
    rw [← hrun.touched_eq]

/-! ### `cancel` -/

/-- The record that a successful `cancel` leaves. -/
def canceledRecord (r : OrderRecord) : OrderRecord := { r with status := .canceled }

theorem canceledRecord_same (r : OrderRecord) :
    (canceledRecord r).instrumentId = r.instrumentId ∧ (canceledRecord r).side = r.side := ⟨rfl, rfl⟩

/-- A `cancel` changes nothing and says `rejected`, or it takes a resting order out of its book. -/
theorem Sync.cancel_spec {engine : MatchingEngine} (h : engine.Sync) (orderId clientOrderId : String) :
    ((∀ r, engine.orders[orderId]? = some r → r.status.isTerminal = true) ∧
      ∃ clientOrderId' filled reason, engine.cancel orderId clientOrderId = (engine,
        { orderId := orderId
          clientOrderId := clientOrderId'
          updates := [makeUpdate orderId clientOrderId' .rejected filled (some reason)] })) ∨
    ∃ r book book' o, engine.orders[orderId]? = some r ∧ r.status.isOpen = true ∧
      engine.books[r.instrumentId]? = some book ∧ o.orderId = orderId ∧ Records o r ∧ book'.Wf ∧
      book'.instrument = book.instrument ∧ book.resting = o ::ₘ book'.resting ∧
      engine.cancel orderId clientOrderId =
        ({ engine with
            books := engine.books.insert r.instrumentId book'
            orders := engine.orders.insert orderId (canceledRecord r) },
          { orderId := orderId
            clientOrderId := r.clientOrderId
            updates := [makeUpdate orderId r.clientOrderId .pendingCancel r.filledQuantity none,
              makeUpdate orderId r.clientOrderId .canceled r.filledQuantity none] }) := by
  unfold cancel
  cases hr : engine.orders[orderId]? with
  | none => exact .inl ⟨(fun _ h => nomatch h), clientOrderId, 0, "open order not found", rfl⟩
  | some r =>
    cases ht : r.status.isTerminal with
    | true =>
      refine .inl ⟨?_, r.clientOrderId, r.filledQuantity, "order is not cancelable", by simp [ht]⟩
      rintro _ ⟨⟩
      exact ht
    | false =>
      have hopen := h.isOpen_of_not_terminal hr ht
      obtain ⟨book, hbook, o, ho, rfl, hrec⟩ := h.exists_resting hr hopen
      obtain ⟨book', hcancel, hwf, hinst, hrest⟩ := OrderBook.cancelOrder_spec (h.booksOk _ book hbook).1 ho
      refine .inr ⟨r, book, book', o, rfl, hopen, hbook, rfl, hrec, hwf, hinst, hrest, ?_⟩
      simp only [ht, hbook, Option.map_some, hcancel, canceledRecord, Bool.false_eq_true, ↓reduceIte]

/-! ### `restore_open_order` -/

/-- A `restore_open_order` under an untracked id changes no record, or it rests the order with its record. -/
theorem restoreOpenOrder_spec {engine : MatchingEngine} (hb : BooksOk engine.books) {orderId : String}
    (hnew : engine.orders[orderId]? = none) (clientOrderId : String) (request : OrderRequest) (filledQuantity : ℚ) :
    engine.restoreOpenOrder orderId clientOrderId request filledQuantity = engine ∨
    engine.restoreOpenOrder orderId clientOrderId request filledQuantity = { engine with
      books := engine.books.insert request.instrument.instrumentId (engine.bookFor request.instrument) } ∨
    ∃ book', 0 ≤ filledQuantity ∧ filledQuantity < request.quantity - kQuantityTolerance ∧ book'.Wf ∧
      book'.instrument = (engine.bookFor request.instrument).instrument ∧
      (∀ x ∈ (engine.bookFor request.instrument).resting, x.orderId ≠ orderId) ∧
      book'.resting = (engine.bookFor request.instrument).restingOrderOf request orderId clientOrderId filledQuantity ::ₘ
        (engine.bookFor request.instrument).resting ∧
      engine.restoreOpenOrder orderId clientOrderId request filledQuantity = { engine with
        books := engine.books.insert request.instrument.instrumentId book'
        orders := engine.orders.insert orderId (restoredRecord orderId clientOrderId request filledQuantity) } := by
  have hwf := (bookFor_ok hb request.instrument).1
  unfold restoreOpenOrder
  split
  · exact .inl rfl
  · split
    · exact .inl rfl
    · right
      cases hc : (engine.bookFor request.instrument).isRequestCompatible request orderId clientOrderId
          filledQuantity with
      | false =>
        left
        rw [OrderBook.addOrder_of_not_compatible hc]
        simp only [KeyedMap.erase_of_none hnew]
      | true =>
        right
        obtain ⟨-, -, -, -, -, -, h0, hf, hidx⟩ := OrderBook.isRequestCompatible_iff.1 hc
        obtain ⟨book', hadd, hwf', hinst, hrest⟩ := OrderBook.addOrder_spec hwf hc
        refine ⟨book', h0, hf, hwf', hinst, fun x hx hid => ?_, hrest, by rw [hadd]⟩
        obtain ⟨price, -, -, hloc, -⟩ := hwf.locate hx
        rw [hid, hidx] at hloc
        cases hloc

end MatchingEngine

end Wall
