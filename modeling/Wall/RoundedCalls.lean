import Wall.RoundedRecords

/-!
# The calls of the rounded engine

A call whose id is free, whose quantities rounding keeps and that leaves no order in a book whose record it closes
(`KeepsOpen`) moves the tracked records forward and returns fills of the new order and of open orders alone
(`Tracked.step`).
-/

namespace Wall

open KeyedMap

namespace Rounded

/-- Every book stands under its instrument's id, and its orders have open records. -/
def Tracked (rnd : ℚ → ℚ) (engine : MatchingEngine) : Prop :=
  ∀ (i : String) (book : OrderBook), engine.books[i]? = some book →
    book.instrument.instrumentId = i ∧ TracksBook rnd book engine.orders

/-- The quantities that a call brings are numbers of the format. -/
def Represented (s : Set ℚ) : EngineOp → Prop
  | .submit request => request.quantity ∈ s
  | .restoreOpenOrder _ _ request filledQuantity => request.quantity ∈ s ∧ filledQuantity ∈ s
  | _ => True

/-- The number of ids that a call takes from the counter. -/
def issues : EngineOp → Nat
  | .submit _ => 1
  | _ => 0

/-- What a call does to the tracked records, and whose fills it returns. -/
structure StepEffect (rnd : ℚ → ℚ) (engine : MatchingEngine) (op : EngineOp) (next : MatchingEngine × ExecutionResult) :
    Prop where
  tracked : Tracked rnd next.1
  evolve : OrdersEvolve engine.orders next.1.orders
  untracked : ∀ id, engine.orders[id]? = none → op.newId engine ≠ some id → next.1.orders[id]? = none
  fills : ∀ fill ∈ next.2.fills, op.newId engine = some fill.orderId ∨
    ∃ r, engine.orders[fill.orderId]? = some r ∧ r.status.isOpen = true
  nextOrderId_eq : next.1.nextOrderId = engine.nextOrderId + issues op

theorem TracksBook.empty (rnd : ℚ → ℚ) (instrument : Instrument) (orders : StringMap OrderRecord) :
    TracksBook rnd { instrument := instrument } orders :=
  ⟨OrderBook.empty_indexed instrument, fun o ho => by simp [OrderBook.resting_empty] at ho⟩

/-- Only the records of the resting orders matter. -/
theorem TracksBook.congr {rnd : ℚ → ℚ} {book : OrderBook} {orders orders' : StringMap OrderRecord}
    (h : TracksBook rnd book orders) (hsame : ∀ o ∈ book.resting, orders'[o.orderId]? = orders[o.orderId]?) :
    TracksBook rnd book orders' :=
  ⟨h.indexed, fun o ho => by rw [hsame o ho]; exact h.tracked o ho⟩

theorem TracksBook.insert_new {rnd : ℚ → ℚ} {book : OrderBook} {orders : StringMap OrderRecord}
    (h : TracksBook rnd book orders) {id : String} (hid : ∀ o ∈ book.resting, o.orderId ≠ id) (r : OrderRecord) :
    TracksBook rnd book (orders.insert id r) :=
  h.congr fun o ho => by rw [KeyedMap.getElem?_insert, if_neg (Ne.symm (hid o ho))]

/-- An untracked id does not rest. -/
private theorem TracksBook.ne_of_untracked {rnd : ℚ → ℚ} {book : OrderBook} {orders : StringMap OrderRecord}
    (h : TracksBook rnd book orders) {id : String} (hid : orders[id]? = none) :
    ∀ o ∈ book.resting, o.orderId ≠ id := by
  rintro o ho rfl
  obtain ⟨r, hr, -⟩ := h.tracked o ho
  rw [hid] at hr
  cases hr

/-- An order put behind the others, with an open record under its id. -/
theorem TracksBook.cons {rnd : ℚ → ℚ} {book book' : OrderBook} {orders : StringMap OrderRecord}
    (h : TracksBook rnd book orders) (hindexed : book'.Indexed) (hinst : book'.instrument = book.instrument)
    {o : RestingOrder} (hrest : book'.resting = o ::ₘ book.resting) {r : OrderRecord}
    (hr : OpenRecord rnd book.instrument.instrumentId r) : TracksBook rnd book' (orders.insert o.orderId r) := by
  have hnodup := hindexed.nodup
  rw [hrest, Multiset.map_cons, Multiset.nodup_cons] at hnodup
  refine ⟨hindexed, fun x hx => ?_⟩
  rw [hinst, KeyedMap.getElem?_insert]
  rw [hrest, Multiset.mem_cons] at hx
  rcases hx with rfl | hx
  · exact ⟨r, if_pos rfl, hr⟩
  · have hne : o.orderId ≠ x.orderId := fun hid => hnodup.1 (hid ▸ Multiset.mem_map_of_mem _ hx)
    rw [if_neg hne]
    exact h.tracked x hx

namespace Tracked

variable {rnd : ℚ → ℚ} {engine : MatchingEngine}

theorem bookFor (h : Tracked rnd engine) (instrument : Instrument) :
    (engine.bookFor instrument).instrument.instrumentId = instrument.instrumentId ∧
      TracksBook rnd (engine.bookFor instrument) engine.orders := by
  unfold MatchingEngine.bookFor
  cases hbook : engine.books[instrument.instrumentId]? with
  | none => exact ⟨rfl, .empty rnd instrument _⟩
  | some book => exact h _ book hbook

/-- Writing back one book and the records of its instrument. -/
theorem update (h : Tracked rnd engine) {engine' : MatchingEngine} {i : String} {book : OrderBook}
    (hbooks : engine'.books = engine.books.insert i book) (hi : book.instrument.instrumentId = i)
    (htracks : TracksBook rnd book engine'.orders) (hsame : SameOutside i engine.orders engine'.orders) :
    Tracked rnd engine' := by
  intro j b hb
  rw [hbooks, KeyedMap.getElem?_insert] at hb
  split at hb
  · rename_i hij
    cases hb
    exact ⟨hi.trans hij, htracks⟩
  · rename_i hij
    obtain ⟨hj, hbook⟩ := h j b hb
    refine ⟨hj, hbook.congr fun o ho => ?_⟩
    obtain ⟨r, hr, hopen⟩ := hbook.tracked o ho
    have hne : r.instrumentId ≠ i := fun hr => hij (by rw [← hr, hopen.instrument_eq, hj])
    rw [hr, (hsame _ r hne).2 hr]

/-- A new record over books that do not have its order. -/
theorem insert_new (h : Tracked rnd engine) {id : String} (hid : engine.orders[id]? = none)
    {engine' : MatchingEngine} (hbooks : engine'.books = engine.books) {r : OrderRecord}
    (horders : engine'.orders = engine.orders.insert id r) : Tracked rnd engine' := by
  intro i book hbook
  rw [hbooks] at hbook
  obtain ⟨hi, htracks⟩ := h i book hbook
  rw [horders]
  exact ⟨hi, htracks.insert_new (htracks.ne_of_untracked hid) r⟩

end Tracked

theorem tracked_empty (rnd : ℚ → ℚ) : Tracked rnd {} := fun i book hbook => by simp at hbook

/-! ### One call -/

section Submit

variable {rnd : ℚ → ℚ} {engine : MatchingEngine} {request : OrderRequest}

/-- The record of the new order when `submit` ends after `settle`. -/
def settledRecord (rnd : ℚ → ℚ) (request : OrderRequest) (loop : FillLoop) (r : OrderRecord) : OrderRecord :=
  let filled := submitFilled rnd request loop
  if |rnd (filled - request.quantity)| ≤ quantityTolerance rnd then
    { r with filledQuantity := request.quantity, status := .filled }
  else if filled > quantityTolerance rnd then { r with filledQuantity := filled, status := .partiallyFilled }
  else { r with filledQuantity := filled }

/-- What the matching part of `submit` leaves: a book and a record of the new order. -/
structure Settled (engine : MatchingEngine) (request : OrderRequest) (loop : FillLoop) (book : OrderBook)
    (r : OrderRecord) (next : MatchingEngine × ExecutionResult) : Prop where
  books_eq : next.1.books = engine.books.insert request.instrument.instrumentId book
  orders_eq : next.1.orders = loop.orders.insert engine.issuedOrderId r
  nextOrderId_eq : next.1.nextOrderId = engine.nextOrderId + 1
  fills_eq : next.2.fills = loop.fills

private theorem settle_settled {loop : FillLoop} {book : OrderBook} {r : OrderRecord}
    (hr : loop.orders[engine.issuedOrderId]? = some r) :
    Settled engine request loop book (settledRecord rnd request loop r) (settle rnd engine request loop book) := by
  unfold settle settledRecord
  simp only [modifyD_of_some hr]
  split
  · refine ⟨rfl, ?_, rfl, rfl⟩
    rw [modifyD_of_some (by rw [KeyedMap.getElem?_insert, if_pos rfl]), insert_insert]
  · split
    · refine ⟨rfl, ?_, rfl, rfl⟩
      rw [modifyD_of_some (by rw [KeyedMap.getElem?_insert, if_pos rfl]), insert_insert]
    · exact ⟨rfl, rfl, rfl, rfl⟩

/-- The three ends of `submit`: the book refuses what the loop has left, takes it, or nothing is left. -/
theorem matchAndRest_ends (rnd : ℚ → ℚ) (engine : MatchingEngine) (request : OrderRequest) :
    let loop := (submitLoop rnd engine request).1
    matchAndRest rnd engine request = rejectResidual rnd engine request loop loop.book ∨
    (∃ book, quantityTolerance rnd < loop.quantity ∧
      addOrder rnd loop.book request engine.issuedOrderId (matchClientOrderId engine.nextClientOrderId)
        (submitFilled rnd request loop) = (true, book) ∧
      matchAndRest rnd engine request = settle rnd engine request loop book) ∨
    matchAndRest rnd engine request = settle rnd engine request loop loop.book := by
  intro loop
  unfold matchAndRest
  by_cases hquantity : loop.quantity > quantityTolerance rnd
  · rw [if_pos hquantity]
    rcases hadd : addOrder rnd loop.book request engine.issuedOrderId (matchClientOrderId engine.nextClientOrderId)
      (submitFilled rnd request loop) with ⟨_ | _, book⟩
    · obtain rfl := addOrder_of_false hadd
      exact .inl rfl
    · exact .inr (.inl ⟨book, hquantity, rfl, rfl⟩)
  · rw [if_neg hquantity]
    exact .inr (.inr rfl)

/-- The matching part of `submit` rests the residual, or leaves the book as the loop left it. -/
private theorem matchAndRest_cases {r : OrderRecord}
    (hr : (submitLoop rnd engine request).1.orders[engine.issuedOrderId]? = some r) :
    let loop := (submitLoop rnd engine request).1
    (∃ r', r'.instrumentId = r.instrumentId ∧
      Settled engine request loop loop.book r' (matchAndRest rnd engine request)) ∨
    ∃ book, quantityTolerance rnd < loop.quantity ∧
      addOrder rnd loop.book request engine.issuedOrderId (matchClientOrderId engine.nextClientOrderId)
        (submitFilled rnd request loop) = (true, book) ∧
      Settled engine request loop book (settledRecord rnd request loop r) (matchAndRest rnd engine request) := by
  intro loop
  have hsame : (settledRecord rnd request loop r).instrumentId = r.instrumentId := by
    unfold settledRecord
    dsimp only
    split
    · rfl
    · split <;> rfl
  rcases matchAndRest_ends rnd engine request with heq | ⟨book, hquantity, hadd, heq⟩ | heq
  · refine .inl ⟨{ r with filledQuantity := submitFilled rnd request loop, status := .rejected }, rfl, ?_⟩
    rw [heq]
    exact ⟨rfl, by rw [rejectResidual, modifyD_of_some hr], rfl, rfl⟩
  · rw [heq]
    exact .inr ⟨book, hquantity, hadd, settle_settled hr⟩
  · rw [heq]
    exact .inl ⟨_, hsame, settle_settled hr⟩

theorem submit_cases (rnd : ℚ → ℚ) (engine : MatchingEngine) (request : OrderRequest) :
    (∃ reason, submit rnd engine request = engine.rejectNew request reason) ∨
      submit rnd engine request = matchAndRest rnd engine request ∧ request.Acceptable := by
  unfold submit
  split
  · exact .inl ⟨_, rfl⟩
  · rename_i htype
    split
    · exact .inl ⟨_, rfl⟩
    · rename_i hgood
      exact .inr ⟨rfl, OrderRequest.acceptable_of_checks htype hgood⟩

end Submit

section Step

variable {rnd : ℚ → ℚ} {engine : MatchingEngine}

/-- A record written under an id that was free before a stretch of calls. -/
private theorem OrdersEvolve.insert_free {orders orders' : StringMap OrderRecord} (h : OrdersEvolve orders orders')
    {id : String} (hid : orders[id]? = none) (r : OrderRecord) : OrdersEvolve orders (orders'.insert id r) := by
  intro id' r₁ hr₁
  rw [KeyedMap.getElem?_insert, if_neg]
  · exact h id' r₁ hr₁
  · rintro rfl
    rw [hid] at hr₁
    cases hr₁

theorem submitLoop_quantity_nonneg (rnd : ℚ → ℚ) (engine : MatchingEngine) (request : OrderRequest)
    (hquantity : 0 ≤ request.quantity) : 0 ≤ (submitLoop rnd engine request).1.quantity :=
  fillLoop_rule (R := fun loop _ loop' => 0 ≤ loop.quantity → 0 ≤ loop'.quantity) (fun _ h => h)
    (fun _ _ _ _ _ _ _ _ _ ih _ => ih (le_max_left _ _)) _ (engine.submitStart request) hquantity

variable (hrnd : Monotone rnd) (h0 : rnd 0 = 0) (hidem : ∀ x, rnd (rnd x) = rnd x)
include hrnd h0 hidem

/-- An order that rests keeps an open record. -/
private theorem openRecord_settled {request : OrderRequest} (hacc : request.Acceptable)
    (hfixed : rnd request.quantity = request.quantity)
    (hlt : submitFilled rnd request (submitLoop rnd engine request).1 <
      rnd (request.quantity - quantityTolerance rnd))
    (hquantity : quantityTolerance rnd < (submitLoop rnd engine request).1.quantity)
    (hrests : RestsOpen rnd engine request) :
    OpenRecord rnd request.instrument.instrumentId (settledRecord rnd request (submitLoop rnd engine request).1
      { engine.newRecord request with status := .acknowledged }) := by
  have hleft := submitLoop_quantity_nonneg rnd engine request hacc.quantity.le
  have hfilled : rnd (submitFilled rnd request (submitLoop rnd engine request).1) =
      submitFilled rnd request (submitLoop rnd engine request).1 ∧
      submitFilled rnd request (submitLoop rnd engine request).1 ≤ request.quantity := by
    unfold submitFilled
    constructor
    · rw [hrnd.map_max, h0, hidem]
    · refine max_le hacc.quantity.le ?_
      calc rnd (request.quantity - (submitLoop rnd engine request).1.quantity) ≤ rnd request.quantity :=
            hrnd (sub_le_self _ hleft)
        _ = request.quantity := hfixed
  have hopen := not_le.2 (hrests hquantity hlt)
  unfold settledRecord
  dsimp only
  rw [if_neg hopen]
  split
  · exact ⟨rfl, rfl, hfixed, hfilled.1, hfilled.2⟩
  · exact ⟨rfl, rfl, hfixed, hfilled.1, hfilled.2⟩

/-- What the matching loop of `submit` does when the new id is untracked: the new order's record stays as it was
stored, and the new id rests nowhere. -/
structure SubmitLoopEffect (rnd : ℚ → ℚ) (engine : MatchingEngine) (request : OrderRequest) (loop : FillLoop) :
    Prop where
  tracks : TracksBook rnd loop.book loop.orders
  instrument_eq : loop.book.instrument.instrumentId = request.instrument.instrumentId
  free : ∀ x ∈ loop.book.resting, x.orderId ≠ engine.issuedOrderId
  record_eq : loop.orders[engine.issuedOrderId]? = some { engine.newRecord request with status := .acknowledged }
  evolve : OrdersEvolve engine.orders loop.orders
  untracked : ∀ id, engine.orders[id]? = none → engine.issuedOrderId ≠ id → loop.orders[id]? = none
  sameOutside : SameOutside request.instrument.instrumentId engine.orders loop.orders
  fills : ∀ fill ∈ loop.fills, fill.orderId = engine.issuedOrderId

theorem Tracked.submitLoop (h : Tracked rnd engine) {request : OrderRequest}
    (hnew : engine.orders[engine.issuedOrderId]? = none)
    (hsteps : ∀ step ∈ submitSteps rnd engine request, step.KeepsOpen rnd) :
    SubmitLoopEffect rnd engine request (submitLoop rnd engine request).1 := by
  obtain ⟨hinst, hbook⟩ := h.bookFor request.instrument
  have hstart : TracksBook rnd (engine.submitStart request).book (engine.submitStart request).orders :=
    hbook.insert_new (hbook.ne_of_untracked hnew) _
  have hloop : LoopEffect rnd (fun _ fill => fill.orderId = engine.issuedOrderId) (engine.submitStart request)
      (Rounded.submitLoop rnd engine request).1 :=
    fillLoop_effect hrnd h0 hidem (submitRule request engine.issuedOrderId) (fun _ _ _ => rfl) _ _ hstart hsteps
  have hsame := hloop.sameOutside hstart
  change SameOutside (engine.bookFor request.instrument).instrument.instrumentId _ _ at hsame
  rw [hinst] at hsame
  have hstored : SameOutside request.instrument.instrumentId engine.orders (engine.submitStart request).orders :=
    SameOutside.insert_new rfl hnew
  have htrack : OrdersEvolve engine.orders (engine.submitStart request).orders := .insert_new hnew _
  refine ⟨hloop.tracks, by rw [hloop.instrument_eq]; exact hinst, ?_, ?_, htrack.trans hloop.evolve, ?_,
    hstored.trans hsame, ?_⟩
  · rintro x hx hid
    obtain ⟨o, ho, hox⟩ := hloop.resting_from x hx
    exact hbook.ne_of_untracked hnew o ho (hox.trans hid)
  · rw [hloop.untouched _ (hbook.ne_of_untracked hnew)]
    exact (KeyedMap.getElem?_insert _ _ _ _).trans (if_pos rfl)
  · intro id hid hne
    rw [hloop.untouched id (hbook.ne_of_untracked hid)]
    exact (KeyedMap.getElem?_insert _ _ _ _).trans ((if_neg hne).trans hid)
  · intro fill hfill
    rcases hloop.fills fill hfill with hnone | ⟨-, -, hid⟩
    · exact absurd hnone List.not_mem_nil
    · exact hid

omit hrnd h0 hidem in
/-- Whatever the end of `submit` is, it writes one book back and one record under the new id. -/
private theorem SubmitLoopEffect.stepEffect {request : OrderRequest} {loop : FillLoop}
    (hloop : SubmitLoopEffect rnd engine request loop) (h : Tracked rnd engine)
    (hnew : engine.orders[engine.issuedOrderId]? = none) {book : OrderBook} {r : OrderRecord}
    {next : MatchingEngine × ExecutionResult} (hsettled : Settled engine request loop book r next)
    (hi : book.instrument.instrumentId = request.instrument.instrumentId)
    (hr : r.instrumentId = request.instrument.instrumentId)
    (htracks : TracksBook rnd book (loop.orders.insert engine.issuedOrderId r)) :
    StepEffect rnd engine (.submit request) next := by
  rw [← hsettled.orders_eq] at htracks
  refine ⟨h.update hsettled.books_eq hi htracks ?_, ?_, fun id hid hne => ?_, fun fill hfill => ?_,
    hsettled.nextOrderId_eq⟩
  · rw [hsettled.orders_eq]
    refine hloop.sameOutside.trans (SameOutside.insert hr fun r' hr' => ?_)
    rw [hloop.record_eq] at hr'
    cases hr'
    rfl
  · rw [hsettled.orders_eq]
    exact OrdersEvolve.insert_free hloop.evolve hnew r
  · have hne' : engine.issuedOrderId ≠ id := fun hid => hne (congrArg some hid)
    rw [hsettled.orders_eq, KeyedMap.getElem?_insert, if_neg hne', hloop.untracked id hid hne']
  · rw [hsettled.fills_eq] at hfill
    exact .inl (congrArg some (hloop.fills fill hfill).symm)

theorem Tracked.submit (h : Tracked rnd engine) {request : OrderRequest}
    (hnew : engine.orders[engine.issuedOrderId]? = none) (hquantity : rnd request.quantity = request.quantity)
    (hkeeps : KeepsOpen rnd engine (.submit request)) :
    StepEffect rnd engine (.submit request) (submit rnd engine request) := by
  rcases submit_cases rnd engine request with ⟨reason, heq⟩ | ⟨heq, hacc⟩
  · rw [heq]
    refine ⟨h.insert_new hnew rfl rfl, .insert_new hnew _, fun id hid hne => ?_, ?_, rfl⟩
    · have hne' : engine.issuedOrderId ≠ id := fun hid => hne (congrArg some hid)
      rw [MatchingEngine.rejectNew, MatchingEngine.track, KeyedMap.getElem?_insert, if_neg hne', hid]
    · exact fun fill hfill => absurd hfill List.not_mem_nil
  · obtain ⟨hsteps, hrests⟩ := hkeeps hacc
    have hloop := h.submitLoop hrnd h0 hidem hnew hsteps
    rw [heq]
    rcases matchAndRest_cases hloop.record_eq with ⟨r, hr, hsettled⟩ | ⟨book, hleft, hadd, hsettled⟩
    · exact hloop.stepEffect h hnew hsettled hloop.instrument_eq hr (hloop.tracks.insert_new hloop.free r)
    · obtain ⟨hindexed, hinst, -, hlt, hrest⟩ := addOrder_spec hloop.tracks.indexed hadd
      have hopen := openRecord_settled hrnd h0 hidem hacc hquantity hlt hleft hrests
      have hopen' := hopen
      rw [← hloop.instrument_eq] at hopen'
      refine hloop.stepEffect h hnew hsettled ?_ hopen.instrument_eq (hloop.tracks.cons hindexed hinst hrest hopen')
      rw [hinst]
      exact hloop.instrument_eq

theorem Tracked.processMarketEvent (h : Tracked rnd engine) {event : MarketEvent}
    (hkeeps : KeepsOpen rnd engine (.processMarketEvent event)) :
    StepEffect rnd engine (.processMarketEvent event) (processMarketEvent rnd engine event) := by
  unfold Rounded.processMarketEvent
  cases hbook : engine.books[event.instrument.instrumentId]? with
  | none => exact ⟨h, .refl _, fun _ hid _ => hid, fun fill hfill => absurd hfill List.not_mem_nil, rfl⟩
  | some book =>
    obtain ⟨hi, htracks⟩ := h _ book hbook
    have hloop := marketLoops_effect hrnd h0 hidem engine event htracks (hkeeps book hbook)
    have hsame := hloop.sameOutside htracks
    change SameOutside book.instrument.instrumentId _ _ at hsame
    rw [hi] at hsame
    refine ⟨h.update rfl ?_ hloop.tracks hsame, hloop.evolve, fun id hid _ => ?_, fun fill hfill => ?_, rfl⟩
    · rw [hloop.instrument_eq]
      exact hi
    · exact (hloop.untouched id (htracks.ne_of_untracked hid)).trans hid
    · rcases hloop.fills fill hfill with hnone | ⟨o, ho, hid⟩
      · exact absurd hnone List.not_mem_nil
      · obtain ⟨r, hr, hopen⟩ := htracks.tracked o ho
        exact .inr ⟨r, hid ▸ hr, hopen.isOpen⟩

omit hrnd h0 hidem in
/-- A call that changes nothing. -/
theorem StepEffect.refl (h : Tracked rnd engine) {op : EngineOp} {result : ExecutionResult}
    (hfills : result.fills = []) (hop : issues op = 0) : StepEffect rnd engine op (engine, result) := by
  refine ⟨h, .refl _, fun _ hid _ => hid, fun fill hfill => ?_, ?_⟩
  · rw [hfills] at hfill
    exact absurd hfill List.not_mem_nil
  · rw [hop, Nat.add_zero]

omit hrnd h0 hidem in
theorem Tracked.cancel (h : Tracked rnd engine) (orderId clientOrderId : String) :
    StepEffect rnd engine (.cancel orderId clientOrderId) (engine.cancel orderId clientOrderId) := by
  unfold MatchingEngine.cancel
  cases hr : engine.orders[orderId]? with
  | none => exact .refl h rfl rfl
  | some r =>
    dsimp only
    cases ht : r.status.isTerminal with
    | true => exact .refl h rfl rfl
    | false =>
      rw [if_neg Bool.false_ne_true]
      cases hbook : engine.books[r.instrumentId]? with
      | none => exact .refl h rfl rfl
      | some book =>
        obtain ⟨hi, htracks⟩ := h _ book hbook
        rw [Option.map_some]
        by_cases hrests : ∃ o ∈ book.resting, o.orderId = orderId
        · obtain ⟨o, ho, rfl⟩ := hrests
          obtain ⟨book', hcancel, hindexed, hinst, hrest⟩ := htracks.indexed.cancelOrder_spec ho
          rw [hcancel]
          have hnodup := htracks.indexed.nodup
          rw [hrest, Multiset.map_cons, Multiset.nodup_cons] at hnodup
          -- the canceled order has left the book, so its record may close
          have hne : ∀ x ∈ book'.resting, x.orderId ≠ o.orderId :=
            fun x hx hid => hnodup.1 (hid ▸ Multiset.mem_map_of_mem _ hx)
          have hothers : TracksBook rnd book' engine.orders := by
            refine ⟨hindexed, fun x hx => ?_⟩
            rw [hinst]
            exact htracks.tracked x (hrest ▸ Multiset.mem_cons_of_mem hx)
          refine ⟨h.update rfl (by rw [hinst, hi]) (hothers.insert_new hne _) (SameOutside.insert rfl ?_),
            OrdersEvolve.insert_old hr ⟨rfl, le_refl _, fun hterm => ?_⟩, fun id hid _ => ?_,
            fun fill hfill => absurd hfill List.not_mem_nil, rfl⟩
          · intro r' hr'
            rw [hr] at hr'
            cases hr'
            rfl
          · rw [ht] at hterm
            cases hterm
          · rw [KeyedMap.getElem?_insert, if_neg, hid]
            rintro rfl
            rw [hr] at hid
            cases hid
        · push Not at hrests
          rw [OrderBook.cancelOrder_of_not_resting htracks.indexed hrests]
          exact .refl h rfl rfl

omit hidem in
theorem Tracked.restoreOpenOrder (h : Tracked rnd engine) {orderId : String}
    (hnew : engine.orders[orderId]? = none) (clientOrderId : String) {request : OrderRequest} {filledQuantity : ℚ}
    (hquantity : rnd request.quantity = request.quantity) (hfilled : rnd filledQuantity = filledQuantity) :
    StepEffect rnd engine (.restoreOpenOrder orderId clientOrderId request filledQuantity)
      (restoreOpenOrder rnd engine orderId clientOrderId request filledQuantity, {}) := by
  unfold Rounded.restoreOpenOrder
  split
  · exact .refl h rfl rfl
  · split
    · exact .refl h rfl rfl
    · obtain ⟨hi, htracks⟩ := h.bookFor request.instrument
      rcases hadd : addOrder rnd (engine.bookFor request.instrument) request orderId clientOrderId filledQuantity with
        ⟨_ | _, book⟩
      · obtain rfl := addOrder_of_false hadd
        dsimp only
        rw [erase_of_none hnew]
        exact ⟨h.update rfl hi htracks (.refl _ _), .refl _, fun _ hid _ => hid,
          fun fill hfill => absurd hfill List.not_mem_nil, rfl⟩
      · obtain ⟨hindexed, hinst, hf0, hlt, hrest⟩ := addOrder_spec htracks.indexed hadd
        have hle : filledQuantity ≤ request.quantity := by
          have htol := tolerance_nonneg hrnd h0
          calc filledQuantity ≤ rnd (request.quantity - quantityTolerance rnd) := hlt.le
            _ ≤ rnd request.quantity := hrnd (sub_le_self _ htol)
            _ = request.quantity := hquantity
        have hopen : OpenRecord rnd (engine.bookFor request.instrument).instrument.instrumentId
            (MatchingEngine.restoredRecord orderId clientOrderId request filledQuantity) :=
          ⟨hi.symm, MatchingEngine.restoredRecord_isOpen .., hquantity, hfilled, hle⟩
        refine ⟨h.update rfl (by rw [hinst, hi]) (htracks.cons hindexed hinst hrest hopen)
          (SameOutside.insert_new rfl hnew), .insert_new hnew _, fun id hid hne => ?_,
          fun fill hfill => absurd hfill List.not_mem_nil, rfl⟩
        rw [KeyedMap.getElem?_insert, if_neg fun he => hne (congrArg some he), hid]

/-- A call of numbers of the format that closes no order it leaves in a book. -/
theorem Tracked.step (h : Tracked rnd engine) {op : EngineOp} (hfresh : op.Fresh engine)
    (hrepresented : Represented {x | rnd x = x} op) (hkeeps : KeepsOpen rnd engine op) :
    StepEffect rnd engine op ((machine rnd).step engine op) := by
  cases op with
  | submit request => exact h.submit hrnd h0 hidem (hfresh _ rfl) hrepresented hkeeps
  | cancel orderId clientOrderId => exact h.cancel orderId clientOrderId
  | processMarketEvent event => exact h.processMarketEvent hrnd h0 hidem hkeeps
  | restoreOpenOrder orderId clientOrderId request filledQuantity =>
    exact h.restoreOpenOrder hrnd h0 (hfresh _ rfl) clientOrderId hrepresented.1 hrepresented.2

end Step

end Rounded

end Wall
