import Wall.Lib.Decimal
import Wall.Lib.Machine
import Wall.MatchingEngine

/-!
# The simulated execution engine

`execution/simulated_execution_engine.cpp`, under `submit`, `complete_open_order` and `cancel_open_order` calls.  An
order whose quantity reaches the threshold is filled in part when it is submitted and stays open; any other accepted
order is filled at once.  Each branch of a call has its equation (`submit_rejected` to `cancelOpenOrder_open`).
-/

namespace Wall

open KeyedMap

structure SimulatedExecutionConfig where
  partialFillThreshold : ℚ := 0
  partialFillRatio : ℚ := 0
  deriving DecidableEq, Inhabited, Repr

structure OpenOrderState where
  request : OrderRequest := {}
  clientOrderId : String := ""
  filledQuantity : ℚ := 0
  deriving DecidableEq, Inhabited, Repr

structure SimulatedExecutionEngine where
  config : SimulatedExecutionConfig
  openOrders : StringMap OpenOrderState := ∅
  nextOrderId : Nat := 1
  nextClientOrderId : Nat := 1
  nextFillId : Nat := 1

def simOrderId (number : Nat) : String := "sim-order-" ++ toString number

def simClientOrderId (number : Nat) : String := "sim-client-" ++ toString number

def simFillId (number : Nat) : String := "sim-fill-" ++ toString number

/-- The ratio clamped between zero and one. -/
def SimulatedExecutionConfig.clampPartialFillRatio (config : SimulatedExecutionConfig) : ℚ :=
  if config.partialFillRatio < 0 then 0 else if 1 < config.partialFillRatio then 1 else config.partialFillRatio

namespace SimulatedExecutionEngine

/-! ### The code -/

def submit (engine : SimulatedExecutionEngine) (request : OrderRequest) :
    SimulatedExecutionEngine × ExecutionResult :=
  let orderId := simOrderId engine.nextOrderId
  let clientOrderId := simClientOrderId engine.nextClientOrderId
  let engine := { engine with
    nextOrderId := engine.nextOrderId + 1
    nextClientOrderId := engine.nextClientOrderId + 1 }
  let result : ExecutionResult := { orderId := orderId, clientOrderId := clientOrderId }
  if request.type = .market then
    (engine, { result with updates := [makeUpdate orderId clientOrderId .rejected 0
      (some "market orders are not supported by the simulator")] })
  else
    match request.price with
    | none =>
      (engine, { result with updates := [makeUpdate orderId clientOrderId .rejected 0
        (some "invalid simulated order request")] })
    | some price =>
      if request.quantity ≤ 0 then
        (engine, { result with updates := [makeUpdate orderId clientOrderId .rejected 0
          (some "invalid simulated order request")] })
      else
        let acknowledged := makeUpdate orderId clientOrderId .acknowledged 0 none
        let fill : FillEvent :=
          { fillId := simFillId engine.nextFillId
            orderId := orderId
            instrument := request.instrument
            side := request.side
            price := price
            fee := 0 }
        if request.quantity ≥ engine.config.partialFillThreshold ∧ engine.config.partialFillThreshold > 0 then
          let partialFillQuantity := request.quantity * engine.config.clampPartialFillRatio
          ({ engine with
              nextFillId := engine.nextFillId + 1
              openOrders := engine.openOrders.insertIfNew orderId
                { request := request, clientOrderId := clientOrderId, filledQuantity := partialFillQuantity } },
            { result with
              updates := [acknowledged,
                makeUpdate orderId clientOrderId .partiallyFilled partialFillQuantity none]
              fills := [{ fill with quantity := partialFillQuantity }] })
        else
          ({ engine with nextFillId := engine.nextFillId + 1 },
            { result with
              updates := [acknowledged, makeUpdate orderId clientOrderId .filled request.quantity none]
              fills := [{ fill with quantity := request.quantity }] })

def completeOpenOrder (engine : SimulatedExecutionEngine) (orderId : String) :
    SimulatedExecutionEngine × ExecutionResult :=
  match engine.openOrders[orderId]? with
  | none =>
    (engine,
      { orderId := orderId, updates := [makeUpdate orderId "" .rejected 0 (some "open order not found")] })
  | some order =>
    let remainingQuantity := order.request.quantity - order.filledQuantity
    ({ engine with
        nextFillId := engine.nextFillId + 1
        openOrders := engine.openOrders.erase orderId },
      { orderId := orderId
        clientOrderId := order.clientOrderId
        updates := [makeUpdate orderId order.clientOrderId .filled order.request.quantity none]
        fills := [
          { fillId := simFillId engine.nextFillId
            orderId := orderId
            instrument := order.request.instrument
            side := order.request.side
            price := order.request.price.getD 0
            quantity := remainingQuantity
            fee := 0 }] })

def cancelOpenOrder (engine : SimulatedExecutionEngine) (orderId : String) :
    SimulatedExecutionEngine × ExecutionResult :=
  match engine.openOrders[orderId]? with
  | none =>
    (engine,
      { orderId := orderId, updates := [makeUpdate orderId "" .rejected 0 (some "open order not found")] })
  | some order =>
    ({ engine with openOrders := engine.openOrders.erase orderId },
      { orderId := orderId
        clientOrderId := order.clientOrderId
        updates := [makeUpdate orderId order.clientOrderId .pendingCancel order.filledQuantity none,
          makeUpdate orderId order.clientOrderId .canceled order.filledQuantity none] })

end SimulatedExecutionEngine

inductive SimulatedCall
  | submit (request : OrderRequest)
  | completeOpenOrder (orderId : String)
  | cancelOpenOrder (orderId : String)
  deriving DecidableEq, Repr

/-- The request is one that the simulator accepts. -/
def OrderRequest.Simulable (request : OrderRequest) : Prop :=
  request.type ≠ .market ∧ request.price.isSome ∧ 0 < request.quantity

instance (request : OrderRequest) : Decidable request.Simulable := inferInstanceAs (Decidable (_ ∧ _ ∧ _))

namespace SimulatedExecutionEngine

/-- The engine, one call after another. -/
def machine : Machine SimulatedExecutionEngine SimulatedCall ExecutionResult where
  step := fun engine call =>
    match call with
    | .submit request => engine.submit request
    | .completeOpenOrder orderId => engine.completeOpenOrder orderId
    | .cancelOpenOrder orderId => engine.cancelOpenOrder orderId

variable (engine : SimulatedExecutionEngine) {request : OrderRequest} {orderId : String} {order : OpenOrderState}

/-! ### What a call does -/

/-- The id that the next order gets. -/
def issuedId : String := simOrderId engine.nextOrderId

/-- The engine with the numbers of one order taken. -/
def numbered : SimulatedExecutionEngine :=
  { engine with
    nextOrderId := engine.nextOrderId + 1
    nextClientOrderId := engine.nextClientOrderId + 1 }

/-- The order is filled in part when it is submitted. -/
def OpensPartly (request : OrderRequest) : Prop :=
  request.quantity ≥ engine.config.partialFillThreshold ∧ engine.config.partialFillThreshold > 0

instance : Decidable (engine.OpensPartly request) := inferInstanceAs (Decidable (_ ∧ _))

/-- The part that is filled when the order is submitted. -/
def partialFillQuantity (request : OrderRequest) : ℚ := request.quantity * engine.config.clampPartialFillRatio

/-- The state of an order filled in part. -/
def openedOrder (request : OrderRequest) : OpenOrderState where
  request := request
  clientOrderId := simClientOrderId engine.nextClientOrderId
  filledQuantity := engine.partialFillQuantity request

/-- The fill of the order that is submitted, of this quantity. -/
def submitFill (request : OrderRequest) (quantity : ℚ) : FillEvent where
  fillId := simFillId engine.nextFillId
  orderId := engine.issuedId
  instrument := request.instrument
  side := request.side
  price := request.price.getD 0
  quantity := quantity
  fee := 0

/-- An update of the order that is submitted. -/
def submitUpdate (status : OrderStatus) (filledQuantity : ℚ) (reason : Option String) : OrderUpdate :=
  makeUpdate engine.issuedId (simClientOrderId engine.nextClientOrderId) status filledQuantity reason

theorem submit_rejected (h : ¬ request.Simulable) : ∃ reason, engine.submit request = (engine.numbered,
    { orderId := engine.issuedId
      clientOrderId := simClientOrderId engine.nextClientOrderId
      updates := [engine.submitUpdate .rejected 0 (some reason)] }) := by
  unfold submit
  by_cases htype : request.type = .market
  · exact ⟨_, if_pos htype⟩
  · simp only [if_neg htype]
    cases hprice : request.price with
    | none => exact ⟨_, rfl⟩
    | some price =>
      have hquantity : request.quantity ≤ 0 := not_lt.1 fun hpos => h ⟨htype, by simp [hprice], hpos⟩
      exact ⟨_, if_pos hquantity⟩

theorem submit_partly (h : request.Simulable) (hopens : engine.OpensPartly request) :
    engine.submit request =
      ({ engine.numbered with
          nextFillId := engine.nextFillId + 1
          openOrders := engine.openOrders.insertIfNew engine.issuedId (engine.openedOrder request) },
        { orderId := engine.issuedId
          clientOrderId := simClientOrderId engine.nextClientOrderId
          updates := [engine.submitUpdate .acknowledged 0 none,
            engine.submitUpdate .partiallyFilled (engine.partialFillQuantity request) none]
          fills := [engine.submitFill request (engine.partialFillQuantity request)] }) := by
  obtain ⟨htype, hprice, hquantity⟩ := h
  obtain ⟨price, hprice⟩ := Option.isSome_iff_exists.1 hprice
  unfold submit
  simp only [if_neg htype, hprice, if_neg (not_le.2 hquantity)]
  refine (if_pos hopens).trans ?_
  simp only [submitFill, hprice]
  rfl

theorem submit_filled (h : request.Simulable) (hopens : ¬ engine.OpensPartly request) :
    engine.submit request =
      ({ engine.numbered with nextFillId := engine.nextFillId + 1 },
        { orderId := engine.issuedId
          clientOrderId := simClientOrderId engine.nextClientOrderId
          updates := [engine.submitUpdate .acknowledged 0 none, engine.submitUpdate .filled request.quantity none]
          fills := [engine.submitFill request request.quantity] }) := by
  obtain ⟨htype, hprice, hquantity⟩ := h
  obtain ⟨price, hprice⟩ := Option.isSome_iff_exists.1 hprice
  unfold submit
  simp only [if_neg htype, hprice, if_neg (not_le.2 hquantity)]
  refine (if_neg hopens).trans ?_
  simp only [submitFill, hprice]
  rfl

/-- What a completion or a cancel of an order that is not open returns. -/
def notFound (orderId : String) : ExecutionResult where
  orderId := orderId
  updates := [makeUpdate orderId "" .rejected 0 (some "open order not found")]

variable {engine}

theorem completeOpenOrder_notFound (h : engine.openOrders[orderId]? = none) :
    engine.completeOpenOrder orderId = (engine, notFound orderId) := by
  rw [completeOpenOrder, h]
  rfl

theorem cancelOpenOrder_notFound (h : engine.openOrders[orderId]? = none) :
    engine.cancelOpenOrder orderId = (engine, notFound orderId) := by
  rw [cancelOpenOrder, h]
  rfl

theorem completeOpenOrder_open (h : engine.openOrders[orderId]? = some order) :
    engine.completeOpenOrder orderId =
      ({ engine with
          nextFillId := engine.nextFillId + 1
          openOrders := engine.openOrders.erase orderId },
        { orderId := orderId
          clientOrderId := order.clientOrderId
          updates := [makeUpdate orderId order.clientOrderId .filled order.request.quantity none]
          fills := [
            { fillId := simFillId engine.nextFillId
              orderId := orderId
              instrument := order.request.instrument
              side := order.request.side
              price := order.request.price.getD 0
              quantity := order.request.quantity - order.filledQuantity
              fee := 0 }] }) := by
  rw [completeOpenOrder, h]

theorem cancelOpenOrder_open (h : engine.openOrders[orderId]? = some order) :
    engine.cancelOpenOrder orderId =
      ({ engine with openOrders := engine.openOrders.erase orderId },
        { orderId := orderId
          clientOrderId := order.clientOrderId
          updates := [makeUpdate orderId order.clientOrderId .pendingCancel order.filledQuantity none,
            makeUpdate orderId order.clientOrderId .canceled order.filledQuantity none] }) := by
  rw [cancelOpenOrder, h]

theorem simOrderId_injective {m n : Nat} (h : simOrderId m = simOrderId n) : m = n :=
  Decimal.repr_injective ((String.append_right_inj "sim-order-").1 h)

end SimulatedExecutionEngine

end Wall
