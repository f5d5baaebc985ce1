import Wall.GreedyMatching
import Wall.Uncrossed

/-!
# What `submit` reports is what it did

`submit` takes a remainder within the tolerance for nothing: it snaps the record's filled quantity to the quantity of
the order, and puts the quantity that was executed into the update.  The record, the update and the fills agree
exactly if no such remainder is left, that is, if the resting orders that the request crosses do not add up to just
less than its quantity (`submit_reports_iff`).
-/

namespace Wall

open KeyedMap Greedy

/-- Some of the first resting orders of the queue, all crossed by the request, together leave more than nothing and
at most the tolerance of its quantity. -/
def OrderRequest.LeavesDust (request : OrderRequest) (queue : List RestingOrder) : Prop :=
  ∃ first, first <+: queue.takeWhile (crosses request) ∧
    0 < request.quantity - (first.map RestingOrder.remainingQuantity).sum ∧
    request.quantity - (first.map RestingOrder.remainingQuantity).sum ≤ kQuantityTolerance

namespace MatchingEngine

/-- The last update has the status and the filled quantity of the record, the fills add up to that quantity, and an
order is not filled without a fill. -/
def ReportsItself (next : MatchingEngine × ExecutionResult) : Prop :=
  ∃ u r, next.2.updates.getLast? = some u ∧ next.1.getOrder next.2.orderId = some r ∧ u.status = r.status ∧
    u.filledQuantity = r.filledQuantity ∧ r.filledQuantity = (next.2.fills.map FillEvent.quantity).sum ∧
    (r.status = .filled → next.2.fills ≠ [])

private theorem rejectNew_reports (engine : MatchingEngine) (request : OrderRequest) (reason : String) :
    ReportsItself (engine.rejectNew request reason) :=
  ⟨_, { engine.newRecord request with status := .rejected }, rfl, (getElem?_insert ..).trans (if_pos rfl), rfl, rfl,
    rfl, nofun⟩

/-! ### The matching loop -/

/-- What the loop leaves of the quantity: not negative, and short of it by the fills. -/
private theorem submitLoop_quantity {engine : MatchingEngine} (hb : BooksOk engine.books) {request : OrderRequest}
    (hacc : request.Acceptable) :
    let loop := (engine.submitLoop request).1
    0 ≤ loop.quantity ∧ loop.quantity ≤ request.quantity ∧
      submitFilled request loop = request.quantity - loop.quantity ∧
      (loop.fills.map FillEvent.quantity).sum = request.quantity - loop.quantity := by
  intro loop
  obtain ⟨es, fills, hrun⟩ := submitLoop_spec hb request
  have hquantity : loop.quantity = request.quantity - executedQuantity es := hrun.quantity_eq
  have hexecuted := hrun.executes.executedQuantity_nonneg
  have hle : loop.quantity ≤ request.quantity := by linarith
  refine ⟨hrun.quantity_nonneg hacc.quantity.le, hle, max_eq_right (sub_nonneg.2 hle), ?_⟩
  have hfills : loop.fills = fills := hrun.fills_eq
  have htotal : es.map Execution.quantity = fills.map FillEvent.quantity :=
    forall₂_map_eq hrun.fills_of (by rintro e fill ⟨n, rfl⟩; rfl)
  rw [hfills, ← htotal, hquantity, sub_sub_cancel]
  rfl

/-- A loop that executed no more than the tolerance executed nothing. -/
private theorem submitLoop_idle {engine : MatchingEngine} (hb : BooksOk engine.books) {request : OrderRequest}
    (h : request.quantity - (engine.submitLoop request).1.quantity ≤ kQuantityTolerance) :
    (engine.submitLoop request).1.orders = (engine.track request .acknowledged).orders ∧
      (engine.submitLoop request).1.quantity = request.quantity := by
  obtain ⟨es, fills, hrun⟩ := submitLoop_spec hb request
  have hquantity : (engine.submitLoop request).1.quantity = request.quantity - executedQuantity es :=
    hrun.quantity_eq
  have hpos := hrun.executes.quantity_pos
  have hexecutes := hrun.executes
  generalize (engine.submitLoop request).1.book = book' at hexecutes
  generalize (engine.submitLoop request).1.orders = orders' at hexecutes ⊢
  cases hexecutes with
  | nil => exact ⟨rfl, by rw [hquantity, executedQuantity_nil, sub_zero]⟩
  | @cons _ _ _ _ _ es resting executed hbest hlt hle hfill htail =>
    have hrest := htail.executedQuantity_nonneg
    rw [hquantity, executedQuantity_cons, sub_sub_cancel] at h
    dsimp only at h
    linarith

/-! ### The end of `submit` -/

private theorem reportsItself_iff {next : MatchingEngine × ExecutionResult} {u : OrderUpdate} {r : OrderRecord}
    (hu : next.2.updates.getLast? = some u) (hr : next.1.getOrder next.2.orderId = some r) :
    ReportsItself next ↔ u.status = r.status ∧ u.filledQuantity = r.filledQuantity ∧
      r.filledQuantity = (next.2.fills.map FillEvent.quantity).sum ∧ (r.status = .filled → next.2.fills ≠ []) := by
  constructor
  · rintro ⟨u', r', hu', hr', h⟩
    rw [hu, Option.some.injEq] at hu'
    rw [hr, Option.some.injEq] at hr'
    rw [hu', hr']
    exact h
  · exact fun h => ⟨u, r, hu, hr, h⟩

private theorem rejectResidual_reports {engine : MatchingEngine} (hb : BooksOk engine.books) {request : OrderRequest}
    (hacc : request.Acceptable) (book : OrderBook) :
    ReportsItself (engine.rejectResidual request (engine.submitLoop request).1 book) := by
  obtain ⟨-, -, hfilled, htotal⟩ := submitLoop_quantity hb hacc
  refine (reportsItself_iff rfl ((getElem?_modifyD ..).trans (if_pos rfl))).2 ⟨rfl, rfl, ?_, nofun⟩
  exact hfilled.trans htotal.symm

/-- What is said at the end of `submit` is right exactly if the loop has left nothing, or more than the tolerance. -/
private theorem settle_reports_iff {engine : MatchingEngine} (hb : BooksOk engine.books) {request : OrderRequest}
    (hacc : request.Acceptable) (book : OrderBook) :
    ReportsItself (engine.settle request (engine.submitLoop request).1 book) ↔
      ¬(0 < (engine.submitLoop request).1.quantity ∧ (engine.submitLoop request).1.quantity ≤ kQuantityTolerance) := by
  obtain ⟨h0, hle, hfilled, htotal⟩ := submitLoop_quantity hb hacc
  have habs : |request.quantity - (engine.submitLoop request).1.quantity - request.quantity| =
      (engine.submitLoop request).1.quantity := by
    rw [sub_sub_cancel_left, abs_neg, abs_of_nonneg h0]
  have hwritten : ∀ f : OrderRecord → OrderRecord, (modifyD (engine.submitLoop request).1.orders engine.issuedOrderId
      f)[engine.issuedOrderId]? = some (f ((engine.submitLoop request).1.orders[engine.issuedOrderId]?.getD default)) :=
    fun f => (getElem?_modifyD ..).trans (if_pos rfl)
  have hrewritten : ∀ f g : OrderRecord → OrderRecord, (modifyD (modifyD (engine.submitLoop request).1.orders
      engine.issuedOrderId f) engine.issuedOrderId g)[engine.issuedOrderId]? =
        some (g (f ((engine.submitLoop request).1.orders[engine.issuedOrderId]?.getD default))) := by
    intro f g
    rw [getElem?_modifyD, if_pos rfl, hwritten, Option.getD_some]
  unfold settle
  dsimp only
  rw [hfilled, habs]
  by_cases hq : (engine.submitLoop request).1.quantity ≤ kQuantityTolerance
  · rw [if_pos hq]
    refine Iff.trans (reportsItself_iff rfl (hrewritten ..)) ?_
    rw [not_and]
    -- the record says the whole quantity, the update what was executed
    constructor
    · rintro ⟨-, hsame, -⟩ hpos
      have hsame' : request.quantity - (engine.submitLoop request).1.quantity = request.quantity := hsame
      linarith
    · intro hnone
      have hzero : (engine.submitLoop request).1.quantity = 0 :=
        (not_lt.1 fun hpos => hnone hpos hq).antisymm h0
      rw [hzero, sub_zero] at htotal
      refine ⟨rfl, ?_, htotal.symm, fun _ hnil => ?_⟩
      · show request.quantity - (engine.submitLoop request).1.quantity = request.quantity
        rw [hzero, sub_zero]
      · have hnil' : (engine.submitLoop request).1.fills = [] := hnil
        rw [hnil', List.map_nil, List.sum_nil] at htotal
        exact hacc.quantity.ne htotal
  · rw [if_neg hq]
    refine iff_of_true ?_ fun h => hq h.2
    by_cases hpartial : request.quantity - (engine.submitLoop request).1.quantity > kQuantityTolerance
    · rw [if_pos hpartial]
      exact Iff.mpr (reportsItself_iff rfl (hrewritten ..)) ⟨rfl, rfl, htotal.symm, nofun⟩
    · -- nothing was executed, so the record is the one that was stored at first
      rw [if_neg hpartial]
      refine Iff.mpr (reportsItself_iff rfl (hwritten ..)) ?_
      obtain ⟨horders, hquantity⟩ := submitLoop_idle hb (not_lt.1 hpartial)
      have hrecord : (engine.submitLoop request).1.orders[engine.issuedOrderId]?.getD default =
          { engine.newRecord request with status := .acknowledged } := by
        rw [horders, track_orders, getElem?_insert, if_pos rfl, Option.getD_some]
      rw [hrecord]
      refine ⟨rfl, ?_, htotal.symm, nofun⟩
      show (0 : ℚ) = request.quantity - (engine.submitLoop request).1.quantity
      rw [hquantity, sub_self]

/-- After its checks `submit` reports itself exactly if no dust is left. -/
private theorem matchAndRest_reports_iff {engine : MatchingEngine} (hb : BooksOk engine.books) {request : OrderRequest}
    (hacc : request.Acceptable) : ReportsItself (engine.matchAndRest request) ↔
      ¬ request.LeavesDust ((engine.bookFor request.instrument).sideQueue request.side.opposite) := by
  obtain ⟨fills, hwalks⟩ := submitLoop_walk hb request
  have hwf := (bookFor_ok hb request.instrument).1
  have hamounts : ∀ o ∈ (engine.bookFor request.instrument).sideQueue request.side.opposite,
      0 ≤ restingLots.amount o := fun o ho =>
    (kQuantityTolerance_pos.trans (hwf.tolerance_lt (hwf.mem_sideQueue_iff.1 ho).1)).le
  have hdust : (0 < (engine.submitLoop request).1.quantity ∧
      (engine.submitLoop request).1.quantity ≤ kQuantityTolerance) ↔
      request.LeavesDust ((engine.bookFor request.instrument).sideQueue request.side.opposite) := by
    rw [hwalks.quantity_eq]
    exact walk_wanted_dust_iff hamounts request.quantity
  rw [← hdust]
  unfold matchAndRest
  dsimp only
  split
  · rename_i hq
    split
    · exact iff_of_true (rejectResidual_reports hb hacc _) fun h => absurd hq (not_lt.2 h.2)
    · exact settle_reports_iff hb hacc _
  · exact settle_reports_iff hb hacc _

/-- In every state that calls reach, and for every request: the last update of `submit` has the status and the filled
quantity of the record, which are what the fills add up to, and a filled order has a fill, exactly if the request is
refused, or the first resting orders that it crosses never add up to just less than its quantity. -/
theorem submit_reports_iff (ops : List EngineOp) (request : OrderRequest) :
    let engine := machine.run {} ops
    ReportsItself (engine.submit request) ↔ ¬(request.Acceptable ∧
      request.LeavesDust ((engine.bookFor request.instrument).sideQueue request.side.opposite)) := by
  intro engine
  rcases engine.submit_cases request with ⟨reason, heq, -, hnot⟩ | ⟨heq, hacc⟩
  · rw [heq]
    exact iff_of_true (rejectNew_reports ..) fun h => hnot h.1
  · rw [heq, matchAndRest_reports_iff (booksOk_run ops) hacc]
    exact not_congr (and_iff_right hacc).symm

/-- An order for less than the tolerance is filled without a fill. -/
theorem dust_order_filled_without_fill :
    ¬ ReportsItself ((machine.run {} []).submit (exampleRequest .buy (1 / 2000000000) 100)) := by
  set next := (machine.run {} []).submit (exampleRequest .buy (1 / 2000000000) 100) with hnext
  rintro ⟨u, r, -, hr, -, -, -, hfills⟩
  have hstatus : (next.1.getOrder next.2.orderId).map OrderRecord.status = some .filled := by
    rw [hnext]
    decide +kernel
  rw [hr, Option.map_some, Option.some.injEq] at hstatus
  refine hfills hstatus ?_
  rw [hnext]
  decide +kernel

end MatchingEngine

end Wall
