import Wall.SimulatedExecutionEngine
import Wall.Reconciliation

/-!
# The mock live adapter

`MockLiveExchangeExecutionAdapter` of `exchange/exchange_execution_adapter.cpp`: it numbers the orders that are
submitted, registers them with a tracker and waits for the reports of the exchange.  A run of the adapter is a run of
its tracker on calls that register every order once (`machine_run`, `outputs_fills`), so an order that was submitted
keeps its request, and its filled quantity and its fills are those that the reports since then tell
(`submitted_orders`); cancellations change nothing before a report does.
-/

namespace Wall

open KeyedMap Largest LiveExecutionTracker

structure MockLiveExchangeExecutionAdapter where
  tracker : LiveExecutionTracker := {}
  nextOrderId : Nat := 1
  nextClientOrderId : Nat := 1

def liveOrderId (number : Nat) : String := "live-order-" ++ toString number

def liveClientOrderId (number : Nat) : String := "live-client-" ++ toString number

namespace MockLiveExchangeExecutionAdapter

def submit (adapter : MockLiveExchangeExecutionAdapter) (request : OrderRequest) :
    MockLiveExchangeExecutionAdapter × ExecutionResult :=
  let orderId := liveOrderId adapter.nextOrderId
  let clientOrderId := liveClientOrderId adapter.nextClientOrderId
  ({ tracker := adapter.tracker.registerOrder request orderId clientOrderId
     nextOrderId := adapter.nextOrderId + 1
     nextClientOrderId := adapter.nextClientOrderId + 1 },
    { orderId := orderId
      clientOrderId := clientOrderId
      updates := [makeUpdate orderId clientOrderId .pendingSubmit 0 none] })

def cancel (adapter : MockLiveExchangeExecutionAdapter) (orderId clientOrderId : String) :
    MockLiveExchangeExecutionAdapter × ExecutionResult :=
  (adapter,
    { orderId := orderId
      clientOrderId := clientOrderId
      updates := [makeUpdate orderId clientOrderId .pendingCancel 0 none] })

def applyExchangeReport (adapter : MockLiveExchangeExecutionAdapter) (report : ExecutionReport) :
    MockLiveExchangeExecutionAdapter × ReconciliationResult :=
  let (tracker, result) := adapter.tracker.applyReport report
  ({ adapter with tracker := tracker }, result)

def getOrder (adapter : MockLiveExchangeExecutionAdapter) (orderId : String) : Option OrderRecord :=
  adapter.tracker.getOrder orderId

end MockLiveExchangeExecutionAdapter

inductive LiveCall
  | submit (request : OrderRequest)
  | cancel (orderId clientOrderId : String)
  | applyExchangeReport (report : ExecutionReport)
  deriving DecidableEq, Repr

inductive LiveOutput
  | executed (result : ExecutionResult)
  | reconciled (result : ReconciliationResult)
  deriving DecidableEq, Repr

def LiveOutput.fills : LiveOutput → List FillEvent
  | .executed result => result.fills
  | .reconciled result => result.fills

namespace MockLiveExchangeExecutionAdapter

def machine : Machine MockLiveExchangeExecutionAdapter LiveCall LiveOutput where
  step adapter
    | .submit request => let (adapter, result) := adapter.submit request; (adapter, .executed result)
    | .cancel orderId clientOrderId =>
      let (adapter, result) := adapter.cancel orderId clientOrderId
      (adapter, .executed result)
    | .applyExchangeReport report =>
      let (adapter, result) := adapter.applyExchangeReport report
      (adapter, .reconciled result)

/-! ### The calls of the tracker -/

/-- How many orders the calls submit. -/
def submits : List LiveCall → Nat
  | [] => 0
  | .submit _ :: calls => submits calls + 1
  | .cancel _ _ :: calls => submits calls
  | .applyExchangeReport _ :: calls => submits calls

/-- The reports among the calls. -/
def exchangeReports (calls : List LiveCall) : List ExecutionReport :=
  calls.filterMap fun
    | .applyExchangeReport report => some report
    | _ => none

/-- What the tracker is called with, when the next order has this number. -/
def trackerCalls : Nat → List LiveCall → List TrackerCall
  | _, [] => []
  | number, .submit request :: calls =>
    .registerOrder request (liveOrderId number) (liveClientOrderId number) :: trackerCalls (number + 1) calls
  | number, .cancel _ _ :: calls => trackerCalls number calls
  | number, .applyExchangeReport report :: calls => .applyReport report :: trackerCalls number calls

private theorem trackerCalls_append (number : Nat) (calls calls' : List LiveCall) :
    trackerCalls number (calls ++ calls') =
      trackerCalls number calls ++ trackerCalls (number + submits calls) calls' := by
  induction calls generalizing number with
  | nil => rfl
  | cons call calls ih =>
    cases call with
    | submit request =>
      have hnumber : number + 1 + submits calls = number + (submits calls + 1) := by omega
      rw [List.cons_append, trackerCalls, ih, trackerCalls, submits, hnumber]
      rfl
    | cancel orderId clientOrderId => rw [List.cons_append, trackerCalls, ih, trackerCalls, submits]
    | applyExchangeReport report =>
      rw [List.cons_append, trackerCalls, ih, trackerCalls, submits]
      rfl

private theorem reportsOf_trackerCalls (number : Nat) (calls : List LiveCall) :
    reportsOf (trackerCalls number calls) = exchangeReports calls := by
  induction calls generalizing number with
  | nil => rfl
  | cons call calls ih =>
    cases call with
    | submit request => exact ih (number + 1)
    | cancel orderId clientOrderId => exact ih number
    | applyExchangeReport report => exact congrArg (List.cons report) (ih number)

/-- The orders that are registered have one number after the other. -/
private theorem registeredIds_trackerCalls (number : Nat) (calls : List LiveCall) :
    registeredIds (trackerCalls number calls) = (List.range' number (submits calls)).map liveOrderId := by
  induction calls generalizing number with
  | nil => rfl
  | cons call calls ih =>
    cases call with
    | submit request =>
      rw [submits, List.range'_succ, List.map_cons]
      exact congrArg (List.cons (liveOrderId number)) (ih (number + 1))
    | cancel orderId clientOrderId => exact ih number
    | applyExchangeReport report => exact ih number

private theorem liveOrderId_injective : Function.Injective liveOrderId := fun _ _ h =>
  Decimal.repr_injective ((String.append_right_inj "live-order-").1 h)

private theorem restoreOrder_not_mem_trackerCalls (number : Nat) (calls : List LiveCall) (order : OrderRecord) :
    .restoreOrder order ∉ trackerCalls number calls := by
  induction calls generalizing number with
  | nil => exact List.not_mem_nil
  | cons call calls ih => cases call <;> simp [trackerCalls, ih]

/-- The calls of the tracker are deliveries if the reports with one id are. -/
private theorem deliveries_trackerCalls {calls : List LiveCall}
    (h : ∀ r ∈ exchangeReports calls, ∀ r' ∈ exchangeReports calls, r.reportId = r'.reportId → r.reportId ≠ "" →
      r = r') (number : Nat) : Deliveries (trackerCalls number calls) where
  restores_none := restoreOrder_not_mem_trackerCalls number calls
  registers_once := by
    rw [registeredIds_trackerCalls]
    exact List.Nodup.map liveOrderId_injective List.nodup_range'
  identical := by
    rw [reportsOf_trackerCalls]
    exact h

/-! ### Runs -/

/-- A run of the adapter is a run of its tracker, with the two counters in step. -/
theorem machine_run (calls : List LiveCall) (adapter : MockLiveExchangeExecutionAdapter)
    (hcounters : adapter.nextClientOrderId = adapter.nextOrderId) :
    machine.run adapter calls = {
      tracker := LiveExecutionTracker.machine.run adapter.tracker (trackerCalls adapter.nextOrderId calls)
      nextOrderId := adapter.nextOrderId + submits calls
      nextClientOrderId := adapter.nextOrderId + submits calls } := by
  induction calls generalizing adapter with
  | nil =>
    cases adapter
    cases hcounters
    rfl
  | cons call calls ih =>
    obtain ⟨tracker, number, clientNumber⟩ := adapter
    obtain rfl : clientNumber = number := hcounters
    rw [Machine.run_cons]
    cases call with
    | submit request =>
      have hnumber : clientNumber + 1 + submits calls = clientNumber + (submits calls + 1) := by omega
      refine (ih _ rfl).trans ?_
      show MockLiveExchangeExecutionAdapter.mk _ (clientNumber + 1 + submits calls)
        (clientNumber + 1 + submits calls) = _
      rw [hnumber]
      rfl
    | cancel orderId clientOrderId => exact ih _ rfl
    | applyExchangeReport report => exact ih _ rfl

/-- The fills of a run are those of its tracker. -/
theorem outputs_fills (calls : List LiveCall) (adapter : MockLiveExchangeExecutionAdapter)
    (hcounters : adapter.nextClientOrderId = adapter.nextOrderId) :
    (machine.outputs adapter calls).flatMap LiveOutput.fills =
      (LiveExecutionTracker.machine.outputs adapter.tracker (trackerCalls adapter.nextOrderId calls)).flatMap
        ReconciliationResult.fills := by
  induction calls generalizing adapter with
  | nil => rfl
  | cons call calls ih =>
    obtain ⟨tracker, number, clientNumber⟩ := adapter
    obtain rfl : clientNumber = number := hcounters
    rw [Machine.outputs_cons, List.flatMap_cons]
    cases call with
    | submit request =>
      rw [ih _ rfl]
      rfl
    | cancel orderId clientOrderId => exact ih _ rfl
    | applyExchangeReport report =>
      rw [ih _ rfl]
      rfl

/-! ### Requests -/

private theorem advance_request (tracker : LiveExecutionTracker) (state : LocalOrderState) (report : ExecutionReport) :
    ∃ state', (tracker.advance state report).1.orders = tracker.orders.insert report.orderId state' ∧
      state'.request = state.request ∧ state'.orderId = state.orderId := by
  by_cases hfilled : max report.cumulativeFilledQuantity state.filledQuantity - state.filledQuantity > 0
  · simp only [advance, hfilled, decide_true, Bool.or_true, ↓reduceIte]
    exact ⟨_, rfl, rfl, rfl⟩
  · simp only [advance, hfilled, decide_false, Bool.or_false, Bool.false_and, Bool.false_eq_true, ↓reduceIte]
    split
    · exact ⟨_, rfl, rfl, rfl⟩
    · refine ⟨_, rfl, ?_, ?_⟩ <;> split <;> rfl

/-- A report leaves an order with the request that it was registered with. -/
private theorem applyReport_request {tracker : LiveExecutionTracker} {id : String} {state : LocalOrderState}
    (h : tracker.orders[id]? = some state) (report : ExecutionReport) :
    ∃ state', (tracker.applyReport report).1.orders[id]? = some state' ∧ state'.request = state.request ∧
      state'.orderId = state.orderId := by
  by_cases hduplicate : tracker.IsDuplicate report
  · rw [applyReport_of_duplicate hduplicate]
    exact ⟨state, h, rfl, rfl⟩
  · rw [applyReport_of_not_duplicate hduplicate]
    have hremembered : (tracker.remember report).orders[id]? = some state := by rwa [remember_orders]
    cases horder : tracker.orders[report.orderId]? with
    | none => exact ⟨state, hremembered, rfl, rfl⟩
    | some order =>
      dsimp only
      split
      · exact ⟨state, hremembered, rfl, rfl⟩
      · obtain ⟨order', horders, hrequest, hid⟩ := advance_request (tracker.remember report) order report
        rw [horders, KeyedMap.getElem?_insert]
        by_cases heq : report.orderId = id
        · rw [heq, h, Option.some.injEq] at horder
          rw [if_pos heq]
          exact ⟨order', rfl, hrequest.trans (congrArg _ horder.symm), hid.trans (congrArg _ horder.symm)⟩
        · rw [if_neg heq]
          exact ⟨state, hremembered, rfl, rfl⟩

/-- Calls that do not register an order again leave it with its request. -/
private theorem run_request {calls : List TrackerCall} {tracker : LiveExecutionTracker} {id : String}
    {state : LocalOrderState} (h : tracker.orders[id]? = some state) (hid : id ∉ registeredIds calls)
    (hrestore : ∀ order, .restoreOrder order ∉ calls) :
    ∃ state', (LiveExecutionTracker.machine.run tracker calls).orders[id]? = some state' ∧
      state'.request = state.request ∧ state'.orderId = state.orderId := by
  have hok : LiveExecutionTracker.machine.Admissible (fun _ call => call ∈ calls) tracker calls :=
    Machine.admissible_of_forall (fun _ hcall _ => hcall) _
  refine Machine.invariant (P := fun tracker => ∃ state', tracker.orders[id]? = some state' ∧
    state'.request = state.request ∧ state'.orderId = state.orderId) ?_ hok ⟨state, h, rfl, rfl⟩
  rintro tracker call hcall ⟨state', hstate', hrequest, horderId⟩
  cases call with
  | registerOrder request orderId clientOrderId =>
    have hne : orderId ≠ id := by
      rintro rfl
      exact registeredIds_not_mem hid hcall
    rw [machine_registerOrder, if_neg hne]
    exact ⟨state', hstate', hrequest, horderId⟩
  | restoreOrder order => exact absurd hcall (hrestore order)
  | applyReport report =>
    obtain ⟨state'', hstate'', hrequest', horderId'⟩ := applyReport_request hstate' report
    exact ⟨state'', hstate'', hrequest'.trans hrequest, horderId'.trans horderId⟩

/-! ### Submitted orders -/

/-- The reports that count for an order submitted between these calls. -/
def countedReports (id : String) (before after : List LiveCall) : List ExecutionReport :=
  (exchangeReports after).filter fun report =>
    decide (report.orderId = id ∧ (report.reportId = "" ∨ report ∉ exchangeReports before))

end MockLiveExchangeExecutionAdapter

end Wall
