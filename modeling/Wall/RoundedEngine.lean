import Wall.Executions

/-!
# The matching engine in rounded arithmetic

`order_book.cpp` and `matching_engine.cpp` compute with doubles: every sum and every difference is rounded.  The
functions here are those of the exact engine with each computed number passed through `rnd`; comparisons, `min`,
`max` and `abs` round nothing, and a function that computes no number is the exact engine's own.  With `rnd = id` they
are the exact ones (`machine_id`).

A quantity to execute need not shrink with every fill once differences are rounded, so the fuel of a loop counts the
resting orders as well: a fill either uses the quantity up or takes its order out of the book.
-/

namespace Wall

open KeyedMap FirstMatch

namespace Rounded

variable (rnd : ℚ → ℚ)

/-- `1e-9` as the numbers of the program have it. -/
def quantityTolerance : ℚ := rnd kQuantityTolerance

/-! ### The order book -/

def isRequestCompatible (book : OrderBook) (request : OrderRequest) (orderId clientOrderId : String)
    (filledQuantity : ℚ) : Bool :=
  if orderId = "" ∨ clientOrderId = "" then false
  else if request.instrument.instrumentId ≠ book.instrument.instrumentId then false
  else if request.type ≠ .limit then false
  else if request.price = none ∨ request.price.getD 0 ≤ 0 then false
  else if request.quantity ≤ 0 ∨ filledQuantity < 0
      ∨ filledQuantity ≥ rnd (request.quantity - quantityTolerance rnd) then false
  else if book.orderIndex.contains orderId then false
  else true

def addOrder (book : OrderBook) (request : OrderRequest) (orderId clientOrderId : String)
    (filledQuantity : ℚ) : Bool × OrderBook :=
  if !isRequestCompatible rnd book request orderId clientOrderId filledQuantity then (false, book)
  else
    let remainingQuantity := rnd (request.quantity - filledQuantity)
    let restingOrder : RestingOrder :=
      { orderId := orderId
        clientOrderId := clientOrderId
        request := request
        remainingQuantity := max 0 remainingQuantity
        sequenceNumber := book.nextSequenceNumber }
    let price := request.price.getD 0
    let queue := (book.level request.side price).getD []
    let book' := book.setLevel request.side price (queue ++ [restingOrder])
    (true, { book' with
      orderIndex := book.orderIndex.insert orderId { side := request.side, price := price }
      orderCount := book.orderCount + 1
      nextSequenceNumber := book.nextSequenceNumber + 1 })

def applyFill (book : OrderBook) (orderId : String) (executedQuantity : ℚ) : Bool × OrderBook :=
  if executedQuantity ≤ quantityTolerance rnd then (false, book)
  else
    match book.orderIndex[orderId]? with
    | none => (false, book)
    | some locator =>
      match book.level locator.side locator.price with
      | none => (false, book)
      | some orders =>
        match orders.find? fun order => decide (order.orderId = orderId) with
        | none => (false, book)
        | some order =>
          if executedQuantity > rnd (order.remainingQuantity + quantityTolerance rnd) then (false, book)
          else
            let remainingQuantity := max 0 (rnd (order.remainingQuantity - executedQuantity))
            if remainingQuantity ≤ quantityTolerance rnd then
              let orders' := orders.eraseP fun order => decide (order.orderId = orderId)
              (true, { book.setLevel locator.side locator.price orders' with
                orderIndex := book.orderIndex.erase orderId
                orderCount := book.orderCount - 1 })
            else
              let orders' := replaceFirst (fun order => decide (order.orderId = orderId))
                { order with remainingQuantity := remainingQuantity } orders
              (true, book.setLevel locator.side locator.price orders')

/-! ### The records -/

def fillRecord (order : OrderRecord) (executedQuantity : ℚ) : OrderRecord :=
  let filled := min order.quantity (rnd (order.filledQuantity + executedQuantity))
  let filled := if |rnd (filled - order.quantity)| ≤ quantityTolerance rnd then order.quantity else filled
  { order with
    filledQuantity := filled
    status := if filled ≥ rnd (order.quantity - quantityTolerance rnd) then .filled else .partiallyFilled }

def applyFillToOrder (orders : StringMap OrderRecord) (orderId : String) (executedQuantity : ℚ) :
    StringMap OrderRecord :=
  match orders[orderId]? with
  | none => orders
  | some order =>
    if executedQuantity ≤ quantityTolerance rnd then orders
    else orders.insert orderId (fillRecord rnd order executedQuantity)

/-! ### The matching loop -/

def afterFill (loop : FillLoop) (rule : FillRule) (resting : RestingOrder) (executed : ℚ) (book : OrderBook) :
    FillLoop where
  book := book
  orders := applyFillToOrder rnd loop.orders resting.orderId executed
  nextFillId := loop.nextFillId + 1
  fills := loop.fills ++ [rule.fill loop.nextFillId resting executed]
  touchedOrders := loop.touchedOrders ++ [resting.orderId]
  quantity := max 0 (rnd (loop.quantity - executed))

def fillLoop (rule : FillRule) : Nat → FillLoop → FillLoop × LoopStop
  | 0, loop => (loop, .outOfFuel)
  | fuel + 1, loop =>
    if loop.quantity > quantityTolerance rnd then
      match loop.book.bestOrder rule.side with
      | none => (loop, .noMatch)
      | some resting =>
        if rule.stops resting then (loop, .noMatch)
        else
          let executed := min loop.quantity resting.remainingQuantity
          match applyFill rnd loop.book resting.orderId executed with
          | (false, _) => (loop, .fillFailed)
          | (true, book) => fillLoop rule fuel (afterFill rnd loop rule resting executed book)
    else (loop, .exhausted)

/-- Fuel for a loop on a book that has `quantity` to execute. -/
def loopFuel (quantity : ℚ) (book : OrderBook) : Nat := Wall.loopFuel quantity + (book.orderCount + 1)

/-- `process_buy_resting_orders` for one ask level. -/
def processBuyRestingOrders (event : MarketEvent) (level : BookLevel) : FillRule where
  side := .buy
  stops resting :=
    resting.request.price.all fun price => decide (rnd (price + quantityTolerance rnd) < level.price)
  fill := marketFill event level

/-- `process_sell_resting_orders` for one bid level. -/
def processSellRestingOrders (event : MarketEvent) (level : BookLevel) : FillRule where
  side := .sell
  stops resting :=
    resting.request.price.all fun price => decide (rnd (price - quantityTolerance rnd) > level.price)
  fill := marketFill event level

def processLevels (rule : BookLevel → FillRule) : List BookLevel → FillLoop → FillLoop × List LoopStop
  | [], loop => (loop, [])
  | level :: levels, loop =>
    let (loop, stop) := fillLoop rnd (rule level) (loopFuel level.quantity loop.book)
      { loop with quantity := level.quantity }
    let (loop, stops) := processLevels rule levels loop
    (loop, stop :: stops)

/-! ### The engine -/

/-- The matching loop of `submit`. -/
def submitLoop (engine : MatchingEngine) (request : OrderRequest) : FillLoop × LoopStop :=
  fillLoop rnd (submitRule request engine.issuedOrderId)
    (loopFuel request.quantity (engine.bookFor request.instrument)) (engine.submitStart request)

/-- The filled quantity that `submit` computes from what the loop left. -/
def submitFilled (request : OrderRequest) (loop : FillLoop) : ℚ := max 0 (rnd (request.quantity - loop.quantity))

/-- The end of `submit`: the final status of the new order and its last update. -/
def settle (engine : MatchingEngine) (request : OrderRequest) (loop : FillLoop) (book : OrderBook) :
    MatchingEngine × ExecutionResult :=
  let orderId := engine.issuedOrderId
  let clientOrderId := matchClientOrderId engine.nextClientOrderId
  let filledQuantity := submitFilled rnd request loop
  let acknowledged := makeUpdate orderId clientOrderId .acknowledged 0 none
  let orders := modifyD loop.orders orderId fun order => { order with filledQuantity := filledQuantity }
  let next := { engine.track request .acknowledged with
    books := engine.books.insert request.instrument.instrumentId book
    nextFillId := loop.nextFillId }
  let result : ExecutionResult := { orderId := orderId, clientOrderId := clientOrderId, fills := loop.fills }
  if |rnd (filledQuantity - request.quantity)| ≤ quantityTolerance rnd then
    ({ next with orders := modifyD orders orderId fun order =>
        { order with filledQuantity := request.quantity, status := .filled } },
      { result with updates := [acknowledged, makeUpdate orderId clientOrderId .filled filledQuantity none] })
  else if filledQuantity > quantityTolerance rnd then
    ({ next with orders := modifyD orders orderId fun order => { order with status := .partiallyFilled } },
      { result with updates :=
        [acknowledged, makeUpdate orderId clientOrderId .partiallyFilled filledQuantity none] })
  else ({ next with orders := orders }, { result with updates := [acknowledged] })

/-- The branch of `submit` for a residual that the book refuses. -/
def rejectResidual (engine : MatchingEngine) (request : OrderRequest) (loop : FillLoop) (book : OrderBook) :
    MatchingEngine × ExecutionResult :=
  let orderId := engine.issuedOrderId
  let clientOrderId := matchClientOrderId engine.nextClientOrderId
  let filledQuantity := submitFilled rnd request loop
  ({ engine.track request .acknowledged with
      books := engine.books.insert request.instrument.instrumentId book
      nextFillId := loop.nextFillId
      orders := modifyD loop.orders orderId fun order =>
        { order with filledQuantity := filledQuantity, status := .rejected } },
    { orderId := orderId
      clientOrderId := clientOrderId
      fills := loop.fills
      updates := [makeUpdate orderId clientOrderId .acknowledged 0 none,
        makeUpdate orderId clientOrderId .rejected filledQuantity (some "failed to rest residual order quantity")] })

/-- `submit` after its checks: match, rest what remains, settle. -/
def matchAndRest (engine : MatchingEngine) (request : OrderRequest) : MatchingEngine × ExecutionResult :=
  let loop := (submitLoop rnd engine request).1
  if loop.quantity > quantityTolerance rnd then
    match addOrder rnd loop.book request engine.issuedOrderId (matchClientOrderId engine.nextClientOrderId)
        (submitFilled rnd request loop) with
    | (false, book) => rejectResidual rnd engine request loop book
    | (true, book) => settle rnd engine request loop book
  else settle rnd engine request loop loop.book

def submit (engine : MatchingEngine) (request : OrderRequest) : MatchingEngine × ExecutionResult :=
  if request.type = .market then
    engine.rejectNew request "market orders are not supported by the matching engine"
  else if request.price = none ∨ request.price.getD 0 ≤ 0 ∨ request.quantity ≤ 0 then
    engine.rejectNew request "invalid matching-engine order request"
  else matchAndRest rnd engine request

/-- Where the loops of `process_market_event` start. -/
def marketStart (engine : MatchingEngine) (book : OrderBook) : FillLoop where
  book := book
  orders := engine.orders
  nextFillId := engine.nextFillId
  quantity := 0

/-- The loops of `process_market_event`: resting buys against the ask levels, then resting sells against the bid
levels. -/
def marketLoops (engine : MatchingEngine) (event : MarketEvent) (book : OrderBook) : FillLoop × List LoopStop :=
  let (loop, buyStops) := processLevels rnd (processBuyRestingOrders rnd event) event.askLevels
    (marketStart engine book)
  let (loop, sellStops) := processLevels rnd (processSellRestingOrders rnd event) event.bidLevels loop
  (loop, buyStops ++ sellStops)

def processMarketEvent (engine : MatchingEngine) (event : MarketEvent) : MatchingEngine × ExecutionResult :=
  match engine.books[event.instrument.instrumentId]? with
  | none => (engine, {})
  | some book =>
    let loop := (marketLoops rnd engine event book).1
    let touchedOrders := (loop.touchedOrders.insertionSort (· ≤ ·)).dedup
    ({ engine with
        books := engine.books.insert event.instrument.instrumentId loop.book
        orders := loop.orders
        nextFillId := loop.nextFillId },
      { updates := touchedOrders.flatMap (MatchingEngine.appendOrderUpdate loop.orders)
        fills := loop.fills })

def restoreOpenOrder (engine : MatchingEngine) (orderId clientOrderId : String) (request : OrderRequest)
    (filledQuantity : ℚ) : MatchingEngine :=
  if request.price = none ∨ request.price.getD 0 ≤ 0 ∨ request.quantity ≤ 0 then engine
  else if filledQuantity < 0 ∨ filledQuantity ≥ rnd (request.quantity - quantityTolerance rnd) then engine
  else
    match addOrder rnd (engine.bookFor request.instrument) request orderId clientOrderId filledQuantity with
    | (true, book) =>
      { engine with
        books := engine.books.insert request.instrument.instrumentId book
        orders := engine.orders.insert orderId
          (MatchingEngine.restoredRecord orderId clientOrderId request filledQuantity) }
    | (false, book) =>
      { engine with
        books := engine.books.insert request.instrument.instrumentId book
        orders := engine.orders.erase orderId }

/-- The engine as a machine; `cancel` computes no number. -/
def machine : Machine MatchingEngine EngineOp ExecutionResult where
  step engine
    | .submit request => submit rnd engine request
    | .cancel orderId clientOrderId => engine.cancel orderId clientOrderId
    | .processMarketEvent event => processMarketEvent rnd engine event
    | .restoreOpenOrder orderId clientOrderId request filledQuantity =>
      (restoreOpenOrder rnd engine orderId clientOrderId request filledQuantity, {})

/-! ### Without rounding -/

private theorem fillLoop_id (rule : FillRule) (fuel : Nat) (loop : FillLoop) :
    fillLoop id rule fuel loop = Wall.fillLoop rule fuel loop := by
  have htolerance : quantityTolerance id = kQuantityTolerance := rfl
  have hfill : ∀ (book : OrderBook) (orderId : String) (executed : ℚ),
      applyFill id book orderId executed = book.applyFill orderId executed := fun _ _ _ => rfl
  have hafter : ∀ (loop : FillLoop) (resting : RestingOrder) (executed : ℚ) (book : OrderBook),
      afterFill id loop rule resting executed book = loop.afterFill rule resting executed book := fun _ _ _ _ => rfl
  induction fuel generalizing loop with
  | zero => rfl
  | succ fuel ih =>
    rw [fillLoop, Wall.fillLoop, htolerance]
    split
    · cases loop.book.bestOrder rule.side with
      | none => rfl
      | some resting =>
        dsimp only
        split
        · rfl
        · rw [hfill]
          rcases loop.book.applyFill resting.orderId (min loop.quantity resting.remainingQuantity) with ⟨_ | _, book⟩
          · rfl
          · exact (ih _).trans (congrArg _ (hafter _ _ _ _))
    · rfl

/-- More fuel than enough changes nothing. -/
private theorem fillLoop_add (rule : FillRule) (fuel extra : Nat) (loop : FillLoop)
    (h : (Wall.fillLoop rule fuel loop).2 ≠ .outOfFuel) :
    Wall.fillLoop rule (fuel + extra) loop = Wall.fillLoop rule fuel loop := by
  induction fuel generalizing loop with
  | zero => exact absurd rfl h
  | succ fuel ih =>
    rw [Nat.succ_add]
    rw [Wall.fillLoop] at h ⊢
    rw [Wall.fillLoop]
    split
    · rename_i hq
      rw [if_pos hq] at h
      split
      · rfl
      · rename_i resting hbest
        simp only [hbest] at h
        split
        · rfl
        · rename_i hstops
          rw [if_neg hstops] at h
          dsimp only at h ⊢
          split
          · rfl
          · rename_i book hfill
            simp only [hfill] at h
            exact ih _ h
    · rfl

private theorem fillLoop_loopFuel_id (rule : FillRule) (loop : FillLoop) (book : OrderBook) :
    fillLoop id rule (loopFuel loop.quantity book) loop = Wall.fillLoop rule (Wall.loopFuel loop.quantity) loop := by
  rw [fillLoop_id, loopFuel]
  exact fillLoop_add rule _ _ loop (fillLoop_loopFuel rule loop)

private theorem processLevels_id (rule : BookLevel → FillRule) (levels : List BookLevel) (loop : FillLoop) :
    processLevels id rule levels loop = Wall.processLevels rule levels loop := by
  induction levels generalizing loop with
  | nil => rfl
  | cons level levels ih =>
    have hloop := fillLoop_loopFuel_id (rule level) { loop with quantity := level.quantity } loop.book
    dsimp only at hloop
    rw [processLevels, Wall.processLevels, hloop]
    dsimp only
    rw [ih]

/-- Without rounding the engine is the exact one. -/
theorem machine_id : machine id = MatchingEngine.machine := by
  have hsubmit : ∀ engine request, submit id engine request = MatchingEngine.submit engine request := by
    intro engine request
    have hloop : submitLoop id engine request = engine.submitLoop request :=
      fillLoop_loopFuel_id (submitRule request engine.issuedOrderId) (engine.submitStart request) _
    have hmatch : matchAndRest id engine request = engine.matchAndRest request := by
      unfold matchAndRest
      rw [hloop]
      rfl
    unfold submit
    rw [hmatch]
    rfl
  have hmarket : ∀ engine event, processMarketEvent id engine event = engine.processMarketEvent event := by
    intro engine event
    have hloops : ∀ book, marketLoops id engine event book = engine.marketLoops event book := by
      intro book
      unfold marketLoops
      simp only [processLevels_id]
      rfl
    unfold processMarketEvent
    simp only [hloops]
    rfl
  unfold machine MatchingEngine.machine
  congr
  funext engine op
  cases op with
  | submit request => exact hsubmit engine request
  | cancel => rfl
  | processMarketEvent event => exact hmarket engine event
  | restoreOpenOrder => rfl

end Rounded

end Wall
