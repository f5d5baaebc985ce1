import Wall.EngineRuns

/-!
# Matched volume balances

`Drift i orders orders' x` says that from `orders` to `orders'` the signed filled quantity of instrument `i` has
moved by `x`, up to the tolerance for each order that became filled meanwhile: completing an order is the only
moment at which the records round.  Drifts add up (`Drift.trans`), every write of a record is one
(`Drift.write_old`, `Drift.write_new`), and so is a chain of executions (`Executes.drift`).

In `submit` the makers' drift cancels the taker's, so over a run from the empty engine what the records hold is what
the market events filled.
-/

namespace Wall

open KeyedMap

/-! ### Drift -/

/-- The signed filled quantity of the tracked orders of an instrument. -/
def signedFilled (i : String) (orders : StringMap OrderRecord) : ℚ :=
  sumOver (fun r : OrderRecord => if r.instrumentId = i then r.side.signed r.filledQuantity else 0) orders

/-- The number of tracked orders of an instrument that are filled. -/
def filledCount (i : String) (orders : StringMap OrderRecord) : ℚ :=
  sumOver (fun r : OrderRecord => if r.instrumentId = i ∧ r.status = .filled then 1 else 0) orders

def Drift (i : String) (orders orders' : StringMap OrderRecord) (x : ℚ) : Prop :=
  |signedFilled i orders' - signedFilled i orders - x| ≤
    kQuantityTolerance * (filledCount i orders' - filledCount i orders)

/-- One for a filled order. -/
def filledMark (r : OrderRecord) : ℚ := if r.status = .filled then 1 else 0

private theorem filledMark_of_ne {r : OrderRecord} (h : r.status ≠ .filled) : filledMark r = 0 := if_neg h

private theorem filledMark_of_isOpen {r : OrderRecord} (h : r.status.isOpen = true) : filledMark r = 0 :=
  filledMark_of_ne (OrderStatus.ne_of_isOpen h rfl)

namespace Drift

variable {i : String} {orders orders₁ orders₂ : StringMap OrderRecord} {x y : ℚ}

theorem refl (i : String) (orders : StringMap OrderRecord) : Drift i orders orders 0 := by
  simp [Drift]

theorem trans (h₁ : Drift i orders orders₁ x) (h₂ : Drift i orders₁ orders₂ y) : Drift i orders orders₂ (x + y) := by
  unfold Drift at *
  have habs := abs_add_le (signedFilled i orders₁ - signedFilled i orders - x)
    (signedFilled i orders₂ - signedFilled i orders₁ - y)
  have hsum : signedFilled i orders₁ - signedFilled i orders - x +
      (signedFilled i orders₂ - signedFilled i orders₁ - y) =
      signedFilled i orders₂ - signedFilled i orders - (x + y) := by ring
  rw [hsum] at habs
  linarith

theorem cast (h : Drift i orders orders₁ x) (hxy : x = y) : Drift i orders orders₁ y := hxy ▸ h

/-- Overwriting a record with one of the same instrument and side. -/
theorem write_old {id j : String} {side : OrderSide} {r r' : OrderRecord} (hr : orders[id]? = some r)
    (hold : r.instrumentId = j ∧ r.side = side) (hnew : r'.instrumentId = j ∧ r'.side = side)
    (hx : |r'.filledQuantity - r.filledQuantity - x| ≤ kQuantityTolerance * (filledMark r' - filledMark r)) :
    Drift i orders (orders.insert id r') (if j = i then side.signed x else 0) := by
  have hsum := sumOver_insert_old
    (fun r : OrderRecord => if r.instrumentId = i then r.side.signed r.filledQuantity else 0) hr r'
  have hcount := sumOver_insert_old
    (fun r : OrderRecord => if r.instrumentId = i ∧ r.status = .filled then (1 : ℚ) else 0) hr r'
  rw [← signedFilled, ← signedFilled, hold.1, hold.2, hnew.1, hnew.2] at hsum
  rw [← filledCount, ← filledCount, hold.1, hnew.1] at hcount
  unfold Drift
  by_cases hri : j = i
  · simp only [hri, true_and, ↓reduceIte] at hsum hcount ⊢
    have hs : signedFilled i (orders.insert id r') - signedFilled i orders - side.signed x =
        side.signed (r'.filledQuantity - r.filledQuantity - x) := by
      rw [OrderSide.signed_sub, OrderSide.signed_sub]
      linarith
    have hc : filledCount i (orders.insert id r') - filledCount i orders = filledMark r' - filledMark r := by
      unfold filledMark
      linarith
    rw [hs, OrderSide.abs_signed, hc]
    exact hx
  · simp only [hri, false_and, ↓reduceIte] at hsum hcount ⊢
    have hs : signedFilled i (orders.insert id r') - signedFilled i orders - 0 = 0 := by linarith
    have hc : filledCount i (orders.insert id r') - filledCount i orders = 0 := by linarith
    rw [hs, hc, abs_zero, mul_zero]

/-- Tracking a new order that is unfilled. -/
theorem write_new {id : String} {r : OrderRecord} (hid : orders[id]? = none) (hf : r.filledQuantity = 0)
    (hst : r.status ≠ .filled) : Drift i orders (orders.insert id r) 0 := by
  have hs : signedFilled i (orders.insert id r) = signedFilled i orders := by
    rw [signedFilled, sumOver_insert_new _ hid, hf, OrderSide.signed_zero, ite_self, zero_add, signedFilled]
  have hc : filledCount i (orders.insert id r) = filledCount i orders := by
    rw [filledCount, sumOver_insert_new _ hid, if_neg (fun h => hst h.2), zero_add, filledCount]
  rw [Drift, hs, hc]
  simp

end Drift

/-- The signed quantity that a chain of executions takes from the resting orders' point of view. -/
def signedExecuted (es : List Execution) : ℚ := (es.map fun e => e.resting.request.side.signed e.quantity).sum

private theorem fillRecord_mark {o : RestingOrder} {r : OrderRecord} (hrec : Records o r) {executed : ℚ}
    (hle : executed ≤ o.remainingQuantity) :
    |(fillRecord r executed).filledQuantity - r.filledQuantity - executed| ≤
      kQuantityTolerance * (filledMark (fillRecord r executed) - filledMark r) := by
  have hrem := hrec.remaining_eq
  rw [fillRecord_eq (by linarith), filledMark_of_isOpen hrec.isOpen]
  split
  · rename_i hclose
    rw [filledMark, if_pos rfl]
    simp only [sub_zero, mul_one]
    rw [abs_of_nonneg (by linarith)]
    exact hclose
  · rw [filledMark_of_ne (by simp)]
    simp

/-- A chain of executions moves the filled quantity of the book's instrument by what it executes. -/
theorem Executes.drift {except : Option String} {book book' : OrderBook} {orders orders' : StringMap OrderRecord}
    {es : List Execution} (h : Executes book orders es book' orders') (hs : Synced except book orders)
    (hok : RecordsOk orders) (i : String) :
    Drift i orders orders' (if book.instrument.instrumentId = i then signedExecuted es else 0) := by
  refine h.record_induction (P := fun orders es orders' =>
    Drift i orders orders' (if book.instrument.instrumentId = i then signedExecuted es else 0)) hs hok rfl ?_ ?_
  · intro orders
    exact (Drift.refl i orders).cast (by simp [signedExecuted])
  · intro orders r e es orders' hr hrec hi _ hpos hle ih
    have hnew : (fillRecord r e.quantity).instrumentId = book.instrument.instrumentId ∧
        (fillRecord r e.quantity).side = e.resting.request.side := ⟨hi, hrec.side_eq⟩
    refine ((Drift.write_old hr ⟨hi, hrec.side_eq⟩ hnew (fillRecord_mark hrec hle)).trans ih).cast ?_
    split
    · simp [signedExecuted]
    · exact add_zero 0

/-! ### One call -/

/-- Fills that match a chain of executions one by one, on the side of the resting orders. -/
private theorem signedFills_of_forall₂ {i j : String} {es : List Execution} {fills : List FillEvent}
    (h : List.Forall₂ (fun e f => f.instrument.instrumentId = j ∧ f.side = e.resting.request.side ∧
      f.quantity = e.quantity) es fills) :
    signedFills i fills = if j = i then signedExecuted es else 0 := by
  induction h with
  | nil => simp [signedExecuted]
  | cons hef _ ih =>
    obtain ⟨hj, hside, hquantity⟩ := hef
    rw [signedFills, List.map_cons, List.sum_cons, ← signedFills, ih, hj, hside, hquantity]
    split
    · simp [signedExecuted]
    · exact add_zero 0

/-- The fills of a market event carry the executions of the book they come from. -/
private theorem MarketRun.signedFills_eq {event : MarketEvent} {book : OrderBook} {orders : StringMap OrderRecord}
    {loop : FillLoop} {stops : List LoopStop} {es : List Execution}
    (h : MarketRun event book orders loop stops es) (hb : book.Wf)
    (hi : book.instrument.instrumentId = event.instrument.instrumentId) (i : String) :
    signedFills i loop.fills = if book.instrument.instrumentId = i then signedExecuted es else 0 := by
  refine signedFills_of_forall₂ ?_
  have hfrom := (h.executes.resting_from hb).1
  have hfills := h.fills_of
  clear h
  generalize loop.fills = fills at hfills
  induction hfills with
  | nil => exact .nil
  | @cons e f es fills hef _ ih =>
    refine .cons ?_ (ih fun e' he' => hfrom e' (List.mem_cons_of_mem _ he'))
    obtain ⟨level, n, rfl⟩ := hef
    obtain ⟨o, ho, -, hreq⟩ := hfrom e (List.mem_cons_self ..)
    obtain ⟨p, q, -, -, hok⟩ := hb.exists_orderOk ho
    refine ⟨?_, rfl, rfl⟩
    unfold marketFill
    dsimp only
    split
    · exact hi.symm
    · rw [← hreq]
      exact hok.instrument_eq

namespace MatchingEngine

/-- The makers of a `submit` give what the new order takes. -/
private theorem Submitted.signedExecuted_eq {engine : MatchingEngine} {request : OrderRequest} {es : List Execution}
    {fills : List FillEvent} (h : engine.Submitted request es fills) :
    signedExecuted es = -request.side.signed (executedQuantity es) := by
  have hside : ∀ e ∈ es, e.resting.request.side = request.side.opposite := fun e he => (h.run.accepted e he).1
  clear h
  induction es with
  | nil => simp [signedExecuted]
  | cons e es ih =>
    have hes := ih fun e' he' => hside e' (List.mem_cons_of_mem _ he')
    rw [signedExecuted, List.map_cons, List.sum_cons, ← signedExecuted, hes, hside e (List.mem_cons_self ..),
      OrderSide.signed_opposite, executedQuantity_cons, OrderSide.signed_add]
    ring

/-- The new order's own record drifts by what it executes. -/
private theorem Submitted.drift_final {engine : MatchingEngine} {request : OrderRequest} {es : List Execution}
    {fills : List FillEvent} (h : engine.Submitted request es fills) (hq : 0 < request.quantity) (i : String) :
    Drift i (engine.submitLoop request).1.orders (engine.accepted request).orders
      (if request.instrument.instrumentId = i then request.side.signed (executedQuantity es) else 0) := by
  have hquantity : (engine.submitLoop request).1.quantity = request.quantity - executedQuantity es := h.run.quantity_eq
  have h0 := h.run.quantity_nonneg hq.le
  have hevolves := finalRecord_evolves hq h.quantity_le
  rw [accepted_orders]
  refine Drift.write_old h.tracked ⟨rfl, rfl⟩ ?_ ?_
  · rw [hevolves.same]
    exact ⟨rfl, rfl⟩
  · have hmark : filledMark { engine.newRecord request with status := .acknowledged } = 0 :=
      filledMark_of_ne (nomatch ·)
    have hzero : ({ engine.newRecord request with status := .acknowledged } : OrderRecord).filledQuantity = 0 := rfl
    rw [hmark, hzero, finalRecord]
    dsimp only
    split
    · rename_i hclose
      rw [filledMark, if_pos rfl]
      simp only [sub_zero, mul_one]
      have hrem : request.quantity - executedQuantity es = (engine.submitLoop request).1.quantity := hquantity.symm
      rw [hrem, abs_of_nonneg h0]
      exact hclose
    · rw [filledMark_of_ne, hquantity]
      · simp
      · dsimp only
        split <;> simp

theorem Submitted.drift {engine : MatchingEngine} {request : OrderRequest} {es : List Execution}
    {fills : List FillEvent} (h : engine.Submitted request es fills) (hb : BooksOk engine.books)
    (hq : 0 < request.quantity) (hnew : engine.orders[engine.issuedOrderId]? = none) (i : String) :
    Drift i engine.orders (engine.accepted request).orders 0 := by
  have htrack : Drift i engine.orders (engine.track request .acknowledged).orders 0 := by
    rw [track_orders]
    exact Drift.write_new hnew rfl (by rintro ⟨⟩)
  have hchain := h.run.executes.drift h.before.1 h.before.2 i
  have hinst : (engine.submitStart request).book.instrument.instrumentId = request.instrument.instrumentId :=
    (bookFor_ok hb request.instrument).2
  rw [hinst, h.signedExecuted_eq] at hchain
  refine (htrack.trans (hchain.trans (h.drift_final hq i))).cast ?_
  split
  · ring
  · ring

/-- The fills that a call returns for resting orders executed by a market event. -/
def marketFillsOf (engine : MatchingEngine) : EngineOp → List FillEvent
  | .processMarketEvent event => (engine.processMarketEvent event).2.fills
  | _ => []

/-- A call that restores nothing moves an instrument's filled quantity by its market fills. -/
theorem Sync.drift_step {engine : MatchingEngine} (h : engine.Sync) {op : EngineOp} (hf : op.Fresh engine)
    (hop : op.isRestore = false) (i : String) :
    Drift i engine.orders (machine.step engine op).1.orders (signedFills i (engine.marketFillsOf op)) := by
  cases op with
  | submit request =>
    have hnew := hf _ rfl
    show Drift i engine.orders (engine.submit request).1.orders 0
    rcases engine.submit_cases request with ⟨reason, heq, -⟩ | ⟨-, hacc⟩
    · rw [heq, rejectNew, track_orders]
      exact Drift.write_new hnew rfl (by rintro ⟨⟩)
    · obtain ⟨es, fills, hs⟩ := h.submit_spec hnew hacc
      rw [hs.eq]
      exact hs.drift h.booksOk hacc.quantity hnew i
  | cancel orderId clientOrderId =>
    show Drift i engine.orders (engine.cancel orderId clientOrderId).1.orders 0
    rcases h.cancel_spec orderId clientOrderId with ⟨-, _, _, _, heq⟩ | ⟨r, _, _, _, hr, hopen, -, -, -, -, -, -, heq⟩
    · rw [heq]
      exact .refl _ _
    · -- canceling changes no filled quantity and no order's being filled
      have hmark' : filledMark (canceledRecord r) = 0 := filledMark_of_ne (by rintro ⟨⟩)
      rw [heq]
      show Drift i engine.orders (engine.orders.insert orderId (canceledRecord r)) 0
      have hsame : |(canceledRecord r).filledQuantity - r.filledQuantity - 0| ≤
          kQuantityTolerance * (filledMark (canceledRecord r) - filledMark r) := by
        rw [filledMark_of_isOpen hopen, hmark']
        simp [canceledRecord]
      have hdrift := Drift.write_old (i := i) hr ⟨rfl, rfl⟩ (canceledRecord_same r) hsame
      exact hdrift.cast (by simp)
  | processMarketEvent event =>
    show Drift i engine.orders (engine.processMarketEvent event).1.orders
      (signedFills i (engine.processMarketEvent event).2.fills)
    rcases processMarketEvent_spec h.booksOk event with heq | ⟨book, es, hbook, hrun, heq⟩
    · rw [heq]
      exact .refl _ _
    · have hs := h.synced _ book hbook
      rw [heq, hrun.signedFills_eq hs.wf (h.instrument _ book hbook) i]
      exact hrun.executes.drift hs h.records i
  | restoreOpenOrder => cases hop

/-! ### Runs -/

/-- The fills that the `process_market_event` calls of a run return. -/
def marketFills : MatchingEngine → List EngineOp → List FillEvent
  | _, [] => []
  | engine, op :: ops => engine.marketFillsOf op ++ marketFills (machine.step engine op).1 ops

private theorem drift_run {engine : MatchingEngine} {ops : List EngineOp}
    (h : machine.Admissible (fun engine op => engine.Sync ∧ op.Fresh engine) engine ops)
    (hops : ∀ op ∈ ops, op.isRestore = false) (i : String) :
    Drift i engine.orders (machine.run engine ops).orders (signedFills i (marketFills engine ops)) := by
  induction ops generalizing engine with
  | nil => exact .refl _ _
  | cons op ops ih =>
    rw [marketFills, signedFills_append]
    exact (h.1.1.drift_step h.1.2 (hops op (List.mem_cons_self ..)) i).trans
      (ih h.2 fun op' hop => hops op' (List.mem_cons_of_mem _ hop))

end MatchingEngine

/-- The filled quantity of an instrument's tracked orders of one side. -/
def filledOn (i : String) (side : OrderSide) (orders : StringMap OrderRecord) : ℚ :=
  sumOver (fun r : OrderRecord => if r.instrumentId = i ∧ r.side = side then r.filledQuantity else 0) orders

/-- The quantity of an instrument's fills of one side. -/
def fillsOn (i : String) (side : OrderSide) (fills : List FillEvent) : ℚ :=
  (fills.map fun f => if f.instrument.instrumentId = i ∧ f.side = side then f.quantity else 0).sum

private theorem signedFilled_eq (i : String) (orders : StringMap OrderRecord) :
    signedFilled i orders = filledOn i .buy orders - filledOn i .sell orders := by
  have hsum : signedFilled i orders + filledOn i .sell orders = filledOn i .buy orders := by
    unfold signedFilled filledOn
    rw [← sumOver_add]
    refine sumOver_congr fun id r _ => ?_
    cases hside : r.side <;> by_cases hi : r.instrumentId = i <;> simp [hi, OrderSide.signed]
  linarith

private theorem signedFills_eq (i : String) (fills : List FillEvent) :
    signedFills i fills = fillsOn i .buy fills - fillsOn i .sell fills := by
  induction fills with
  | nil => simp [fillsOn]
  | cons f fills ih =>
    simp only [signedFills, fillsOn, List.map_cons, List.sum_cons] at ih ⊢
    rw [ih]
    cases hside : f.side <;> by_cases hi : f.instrument.instrumentId = i <;> simp [hi, OrderSide.signed] <;> ring

namespace MatchingEngine

/-- Over a run of `submit`, `cancel` and `process_market_event` calls from the empty engine, an instrument's filled
buy volume less its market buy fills is its filled sell volume less its market sell fills, up to the tolerance for
each of its filled orders. -/
theorem matched_volume_balances (ops : List EngineOp) (hops : ∀ op ∈ ops, op.isRestore = false) (i : String) :
    let engine := machine.run {} ops
    let fills := marketFills {} ops
    let bought := filledOn i .buy engine.orders - fillsOn i .buy fills
    let sold := filledOn i .sell engine.orders - fillsOn i .sell fills
    |bought - sold| ≤ kQuantityTolerance * filledCount i engine.orders := by
  intro engine fills bought sold
  have hdrift := drift_run (restoresFresh_of_isRestore hops).admissible_empty hops i
  have hempty : signedFilled i ({} : MatchingEngine).orders = 0 := sumOver_empty _
  have hcount : filledCount i ({} : MatchingEngine).orders = 0 := sumOver_empty _
  rw [Drift, hempty, hcount, sub_zero, sub_zero, signedFilled_eq, signedFills_eq] at hdrift
  have hrearrange : bought - sold = filledOn i .buy engine.orders - filledOn i .sell engine.orders -
      (fillsOn i .buy fills - fillsOn i .sell fills) := by ring
  rw [hrearrange]
  exact hdrift

theorem matched_volume_balances_exampleRun :
    let ops : List EngineOp := [.submit (exampleRequest .sell 2 100), .submit (exampleRequest .buy 1 101),
      .processMarketEvent { instrument := (exampleRequest .buy 1 1).instrument, bidLevels := [⟨100, 5⟩] }]
    let engine := machine.run {} ops
    let fills := marketFills {} ops
    let bought := filledOn "btc-usdt" .buy engine.orders - fillsOn "btc-usdt" .buy fills
    let sold := filledOn "btc-usdt" .sell engine.orders - fillsOn "btc-usdt" .sell fills
    |bought - sold| ≤ kQuantityTolerance * filledCount "btc-usdt" engine.orders :=
  matched_volume_balances _ (by decide) "btc-usdt"

end MatchingEngine

end Wall
