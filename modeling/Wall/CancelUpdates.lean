import Wall.RepositoryMirror
import Wall.Uncrossed

/-!
# What a repository makes of a cancel

`cancel` answers with updates that speak of the order when it succeeds, and with one `rejected` update that speaks of
the request when it refuses.  `save_order_update` reads both alike.  So after a refusal the repository still has the
engine's filled quantity, and says `rejected` of an order whose status the engine has left as it was.
-/

namespace Wall

open KeyedMap InMemoryOrderRepository

namespace MatchingEngine

/-- The order is not terminal and rests in the book of its instrument, so that `cancel` takes it out. -/
def Cancelable (engine : MatchingEngine) (r : OrderRecord) (orderId : String) : Prop :=
  r.status.isTerminal = false ∧
    ∃ book, engine.findBook r.instrumentId = some book ∧ ∃ o ∈ book.resting, o.orderId = orderId

/-- The status and the filled quantity that the engine has for an order. -/
def stateOf (engine : MatchingEngine) (orderId : String) : Option (OrderStatus × ℚ) :=
  (engine.getOrder orderId).map fun r => (r.status, r.filledQuantity)

private theorem cancel_of_cancelable {engine : MatchingEngine} (hb : BooksOk engine.books) {r : OrderRecord}
    {orderId : String} (hr : engine.getOrder orderId = some r) (h : engine.Cancelable r orderId)
    (clientOrderId : String) :
    (engine.cancel orderId clientOrderId).1.getOrder orderId = some (canceledRecord r) ∧
    (engine.cancel orderId clientOrderId).2.updates =
      [makeUpdate orderId r.clientOrderId .pendingCancel r.filledQuantity none,
        makeUpdate orderId r.clientOrderId .canceled r.filledQuantity none] := by
  obtain ⟨hopen, book, hbook, o, ho, rfl⟩ := h
  obtain ⟨book', hcancel, -⟩ := OrderBook.cancelOrder_spec (hb _ book hbook).1 ho
  rw [getOrder] at hr
  rw [findBook] at hbook
  unfold cancel
  simp only [hr, hopen, hbook, Option.map_some, hcancel, Bool.false_eq_true, if_false]
  exact ⟨(getElem?_insert ..).trans (if_pos rfl), trivial⟩

private theorem cancel_of_not_cancelable {engine : MatchingEngine} (hb : BooksOk engine.books) {r : OrderRecord}
    {orderId : String} (hr : engine.getOrder orderId = some r) (h : ¬ engine.Cancelable r orderId)
    (clientOrderId : String) :
    (engine.cancel orderId clientOrderId).1 = engine ∧ ∃ reason, (engine.cancel orderId clientOrderId).2.updates =
      [makeUpdate orderId r.clientOrderId .rejected r.filledQuantity (some reason)] := by
  rw [getOrder] at hr
  unfold cancel
  simp only [hr]
  cases hterminal : r.status.isTerminal with
  | true => exact ⟨rfl, _, rfl⟩
  | false =>
    cases hbook : engine.books[r.instrumentId]? with
    | none => exact ⟨rfl, _, rfl⟩
    | some book =>
      have hnot : ∀ o ∈ book.resting, o.orderId ≠ orderId := fun o ho hid =>
        h ⟨hterminal, book, hbook, o, ho, hid⟩
      simp only [Bool.false_eq_true, if_false, Option.map_some,
        OrderBook.cancelOrder_of_not_resting (hb _ book hbook).1.toIndexed hnot]
      exact ⟨trivial, _, rfl⟩

/-- In every state that calls reach, a cancel of a tracked order, whatever the repository says of it before: when the
repository has read the updates it has the engine's filled quantity, and the engine's status exactly if the order
could be canceled or was rejected before.  When the cancel is refused the engine is as it was, and the repository says
`rejected`. -/
theorem cancel_persisted (ops : List EngineOp) (repository : InMemoryOrderRepository) (orderId clientOrderId : String)
    (r : OrderRecord) (hr : (machine.run {} ops).getOrder orderId = some r) :
    let engine := machine.run {} ops
    let next := engine.cancel orderId clientOrderId
    let repository' := next.2.updates.foldl saveOrderUpdate repository
    (repository'.stateOf orderId).map Prod.snd = (next.1.stateOf orderId).map Prod.snd ∧
    (repository'.stateOf orderId = next.1.stateOf orderId ↔ engine.Cancelable r orderId ∨ r.status = .rejected) ∧
    (¬ engine.Cancelable r orderId →
      next.1 = engine ∧ repository'.stateOf orderId = some (.rejected, r.filledQuantity)) := by
  intro engine next repository'
  have hb : BooksOk engine.books := booksOk_run ops
  by_cases h : engine.Cancelable r orderId
  · obtain ⟨hrecord, hupdates⟩ := cancel_of_cancelable hb hr h clientOrderId
    have hstate : next.1.stateOf orderId = some (.canceled, r.filledQuantity) := by
      rw [stateOf, hrecord]
      rfl
    have hstate' : repository'.stateOf orderId = some (.canceled, r.filledQuantity) := by
      show (List.foldl saveOrderUpdate repository next.2.updates).stateOf orderId = _
      rw [hupdates, List.foldl_cons, List.foldl_cons, List.foldl_nil, stateOf_saveOrderUpdate]
      exact if_pos rfl
    rw [hstate, hstate']
    exact ⟨rfl, iff_of_true rfl (.inl h), fun hnot => absurd h hnot⟩
  · obtain ⟨hengine, reason, hupdates⟩ := cancel_of_not_cancelable hb hr h clientOrderId
    have hstate : next.1.stateOf orderId = some (r.status, r.filledQuantity) := by
      rw [hengine, stateOf, hr]
      rfl
    have hstate' : repository'.stateOf orderId = some (.rejected, r.filledQuantity) := by
      show (List.foldl saveOrderUpdate repository next.2.updates).stateOf orderId = _
      rw [hupdates, List.foldl_cons, List.foldl_nil, stateOf_saveOrderUpdate]
      exact if_pos rfl
    rw [hstate, hstate', Option.some.injEq, Prod.mk.injEq]
    refine ⟨rfl, ?_, fun _ => ⟨hengine, rfl⟩⟩
    constructor
    · exact fun heq => .inr heq.1.symm
    · exact fun hrejected => ⟨(hrejected.resolve_left h).symm, rfl⟩

/-- A sell order, and the buy order that fills it. -/
def exampleFilled : List EngineOp := [.submit (exampleRequest .sell 2 100), .submit (exampleRequest .buy 2 100)]

/-- The record of the sell order in the end. -/
def exampleFilledRecord : OrderRecord where
  orderId := "match-order-1"
  clientOrderId := "match-client-1"
  instrumentId := "btc-usdt"
  side := .sell
  status := .filled
  quantity := 2
  price := some 100
  filledQuantity := 2

theorem cancel_persisted_exampleFilled :
    let next := (machine.run {} exampleFilled).cancel "match-order-1" "match-client-1"
    next.1 = machine.run {} exampleFilled ∧
      (next.2.updates.foldl saveOrderUpdate {}).stateOf "match-order-1" = some (.rejected, 2) := by
  have hr : (machine.run {} exampleFilled).getOrder "match-order-1" = some exampleFilledRecord := by decide +kernel
  exact (cancel_persisted exampleFilled {} _ "match-client-1" exampleFilledRecord hr).2.2 fun h => by cases h.1

/-- A repository that has the filled order as the engine has it says `rejected` after the refused cancel. -/
theorem refused_cancel_overwrites_status :
    let engine := machine.run {} exampleFilled
    let repository : InMemoryOrderRepository :=
      { orders := (∅ : StringMap OrderRecord).insert "match-order-1" exampleFilledRecord }
    let next := engine.cancel "match-order-1" "match-client-1"
    repository.stateOf "match-order-1" = engine.stateOf "match-order-1" ∧
      (next.2.updates.foldl saveOrderUpdate repository).stateOf "match-order-1" ≠ next.1.stateOf "match-order-1" := by
  decide +kernel

end MatchingEngine

end Wall
