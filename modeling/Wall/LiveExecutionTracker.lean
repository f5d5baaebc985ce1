import Wall.Types
import Wall.Lib.Machine
import Mathlib.Data.Finset.Insert

/-!
# The live execution tracker

`execution/live_execution_tracker.cpp`: the local state of live orders, advanced by the exchange's execution reports.
A report that was processed before is dropped by its id, a stale one by its cumulative quantity, its timestamp or the
terminal status of its order.
-/

namespace Wall

/-- A normalized execution report of a live exchange adapter. -/
structure ExecutionReport where
  reportId : String := ""
  orderId : String := ""
  clientOrderId : String := ""
  instrument : Instrument := {}
  side : OrderSide := .buy
  status : OrderStatus := .created
  cumulativeFilledQuantity : ℚ := 0
  lastFillPrice : Option ℚ := none
  lastFillFee : ℚ := 0
  reason : Option String := none
  exchangeTimestamp : Int := 0
  deriving DecidableEq, Inhabited, Repr

/-- What applying one report did. -/
structure ReconciliationResult where
  applied : Bool := false
  ignoredDuplicate : Bool := false
  ignoredStale : Bool := false
  updates : List OrderUpdate := []
  fills : List FillEvent := []
  deriving DecidableEq, Inhabited, Repr

structure LocalOrderState where
  request : OrderRequest := {}
  orderId : String := ""
  clientOrderId : String := ""
  status : OrderStatus := .created
  filledQuantity : ℚ := 0
  lastExchangeTimestamp : Int := 0
  deriving DecidableEq, Inhabited, Repr

structure LiveExecutionTracker where
  orders : StringMap LocalOrderState := ∅
  processedReportIds : Finset String := ∅
  nextFillId : Nat := 1

namespace LiveExecutionTracker

def shouldIgnoreAsStale (state : LocalOrderState) (report : ExecutionReport) : Bool :=
  if report.cumulativeFilledQuantity < state.filledQuantity then true
  else if report.exchangeTimestamp > 0 ∧ state.lastExchangeTimestamp > 0
      ∧ report.exchangeTimestamp < state.lastExchangeTimestamp
      ∧ report.cumulativeFilledQuantity ≤ state.filledQuantity then true
  else if state.status.isTerminal = true ∧ report.cumulativeFilledQuantity ≤ state.filledQuantity
      ∧ report.status ≠ state.status then true
  else false

def shouldApplyStatus (current incoming : OrderStatus) : Bool :=
  if incoming = current then false
  else if current.isTerminal then false
  else
    match current with
    | .created => true
    | .pendingSubmit => true
    | .acknowledged =>
      incoming = .partiallyFilled || incoming = .filled || incoming = .pendingCancel || incoming = .canceled
        || incoming = .rejected || incoming = .expired
    | .partiallyFilled =>
      incoming = .partiallyFilled || incoming = .filled || incoming = .pendingCancel || incoming = .canceled
        || incoming = .rejected || incoming = .expired
    | .pendingCancel => incoming = .canceled || incoming = .filled || incoming = .partiallyFilled
    | _ => false

def registerOrder (tracker : LiveExecutionTracker) (request : OrderRequest) (orderId clientOrderId : String) :
    LiveExecutionTracker :=
  { tracker with
    orders := tracker.orders.insert orderId
      { request := request
        orderId := orderId
        clientOrderId := clientOrderId
        status := .pendingSubmit
        filledQuantity := 0
        lastExchangeTimestamp := 0 } }

def restoreOrder (tracker : LiveExecutionTracker) (order : OrderRecord) : LiveExecutionTracker :=
  { tracker with
    orders := tracker.orders.insert order.orderId
      { request :=
          { requestId := order.orderId
            strategyId := order.strategyId
            instrument := { instrumentId := order.instrumentId }
            side := order.side
            type := order.orderType
            quantity := order.quantity
            price := order.price }
        orderId := order.orderId
        clientOrderId := order.clientOrderId
        status := order.status
        filledQuantity := order.filledQuantity
        lastExchangeTimestamp := 0 } }

/-- The fill for the quantity by which a report raises the filled quantity. -/
def deltaFill (tracker : LiveExecutionTracker) (state : LocalOrderState) (report : ExecutionReport) (delta : ℚ) :
    FillEvent where
  fillId := if report.reportId ≠ "" then report.reportId else "live-fill-" ++ toString tracker.nextFillId
  orderId := report.orderId
  instrument := if report.instrument.instrumentId = "" then state.request.instrument else report.instrument
  side := report.side
  price := report.lastFillPrice.getD (state.request.price.getD 0)
  quantity := delta
  fee := report.lastFillFee

/-- `apply_report` for a report of a known order that is neither a duplicate nor stale. -/
def advance (tracker : LiveExecutionTracker) (state : LocalOrderState) (report : ExecutionReport) :
    LiveExecutionTracker × ReconciliationResult :=
  let newCumulative := max report.cumulativeFilledQuantity state.filledQuantity
  let fillDelta := newCumulative - state.filledQuantity
  let filled : Bool := fillDelta > 0
  let fills := if filled then [tracker.deltaFill state report fillDelta] else []
  -- the fill counter moves only for a fill that cannot take its report's id
  let nextFillId := if filled && report.reportId = "" then tracker.nextFillId + 1 else tracker.nextFillId
  let state := if filled then { state with filledQuantity := newCumulative } else state
  if shouldApplyStatus state.status report.status || filled then
    let state := { state with
      status := report.status
      clientOrderId := if report.clientOrderId = "" then state.clientOrderId else report.clientOrderId
      lastExchangeTimestamp := max state.lastExchangeTimestamp report.exchangeTimestamp }
    ({ tracker with orders := tracker.orders.insert report.orderId state, nextFillId := nextFillId },
      { applied := true
        fills := fills
        updates :=
          [{ orderId := report.orderId
             clientOrderId := state.clientOrderId
             status := state.status
             filledQuantity := state.filledQuantity
             reason := report.reason }] })
  else
    let state :=
      if report.exchangeTimestamp > state.lastExchangeTimestamp then
        { state with lastExchangeTimestamp := report.exchangeTimestamp }
      else state
    ({ tracker with orders := tracker.orders.insert report.orderId state, nextFillId := nextFillId },
      { fills := fills })

/-- Remember a report's id; a report without an id is never remembered. -/
def remember (tracker : LiveExecutionTracker) (report : ExecutionReport) : LiveExecutionTracker :=
  if report.reportId ≠ "" then
    { tracker with processedReportIds := insert report.reportId tracker.processedReportIds }
  else tracker

def applyReport (tracker : LiveExecutionTracker) (report : ExecutionReport) :
    LiveExecutionTracker × ReconciliationResult :=
  if report.reportId ≠ "" ∧ report.reportId ∈ tracker.processedReportIds then
    (tracker, { ignoredDuplicate := true })
  else
    let tracker := tracker.remember report
    match tracker.orders[report.orderId]? with
    | none => (tracker, { ignoredStale := true })
    | some state =>
      if shouldIgnoreAsStale state report then (tracker, { ignoredStale := true })
      else tracker.advance state report

/-- Apply reports in order, keeping each result. -/
def reconcile (tracker : LiveExecutionTracker) : List ExecutionReport → LiveExecutionTracker × List ReconciliationResult
  | [] => (tracker, [])
  | report :: reports =>
    let (tracker, result) := tracker.applyReport report
    let (tracker, results) := tracker.reconcile reports
    (tracker, result :: results)

/-- The record that `get_order` makes of a local state. -/
def recordOf (state : LocalOrderState) : OrderRecord where
  orderId := state.orderId
  clientOrderId := state.clientOrderId
  strategyId := state.request.strategyId
  instrumentId := state.request.instrument.instrumentId
  side := state.request.side
  orderType := state.request.type
  status := state.status
  quantity := state.request.quantity
  price := state.request.price
  filledQuantity := state.filledQuantity

def getOrder (tracker : LiveExecutionTracker) (orderId : String) : Option OrderRecord :=
  tracker.orders[orderId]?.map recordOf

end LiveExecutionTracker

/-- A call on the tracker. -/
inductive TrackerCall
  | registerOrder (request : OrderRequest) (orderId clientOrderId : String)
  | restoreOrder (order : OrderRecord)
  | applyReport (report : ExecutionReport)
  deriving DecidableEq, Repr

/-- The tracker as a machine; registering and restoring return nothing, which the empty result stands for. -/
def LiveExecutionTracker.machine : Machine LiveExecutionTracker TrackerCall ReconciliationResult where
  step tracker
    | .registerOrder request orderId clientOrderId => (tracker.registerOrder request orderId clientOrderId, {})
    | .restoreOrder order => (tracker.restoreOrder order, {})
    | .applyReport report => tracker.applyReport report

end Wall
