import Wall.BookInvariant
import Wall.Lib.Machine

/-!
# Runs of the order book

Any sequence of calls, with any arguments, keeps a book well formed, and a call that returns `false` changes
nothing.
-/

namespace Wall

inductive BookOp
  | addOrder (request : OrderRequest) (orderId clientOrderId : String) (filledQuantity : ℚ)
  | cancelOrder (orderId : String)
  | applyFill (orderId : String) (executedQuantity : ℚ)

namespace OrderBook

/-- One call on a book: the flag it returns and the book it leaves. -/
def call (book : OrderBook) : BookOp → Bool × OrderBook
  | .addOrder request orderId clientOrderId filledQuantity =>
    book.addOrder request orderId clientOrderId filledQuantity
  | .cancelOrder orderId => book.cancelOrder orderId
  | .applyFill orderId executedQuantity => book.applyFill orderId executedQuantity

/-- The book as a machine that reads calls and answers flags. -/
def machine : Machine OrderBook BookOp Bool where
  step book op := ((book.call op).2, (book.call op).1)

/-- A call that returns `false` leaves the book as it was. -/
private theorem call_of_false {book : OrderBook} (op : BookOp) :
    (book.call op).1 = false → (book.call op).2 = book := by
  cases op with
  | addOrder request orderId clientOrderId filledQuantity =>
    show (book.addOrder request orderId clientOrderId filledQuantity).1 = false →
      (book.addOrder request orderId clientOrderId filledQuantity).2 = _
    fun_cases addOrder <;> simp
  | cancelOrder orderId =>
    show (book.cancelOrder orderId).1 = false → (book.cancelOrder orderId).2 = _
    fun_cases cancelOrder <;> simp
  | applyFill orderId executedQuantity =>
    show (book.applyFill orderId executedQuantity).1 = false → (book.applyFill orderId executedQuantity).2 = _
    fun_cases applyFill <;> simp

/-- What one call can do to the resting orders of a well-formed book. -/
theorem Wf.call {book : OrderBook} (hb : book.Wf) (op : BookOp) :
    (book.call op).2.Wf ∧ (book.call op).2.instrument = book.instrument := by
  cases hc : (book.call op).1 with
  | false => rw [call_of_false op hc]; exact ⟨hb, rfl⟩
  | true =>
    cases op with
    | addOrder request orderId clientOrderId filledQuantity =>
      cases hcompat : book.isRequestCompatible request orderId clientOrderId filledQuantity with
      | false => rw [OrderBook.call, addOrder_of_not_compatible hcompat] at hc; cases hc
      | true =>
        obtain ⟨book', he, hwf, hinst, -⟩ := addOrder_spec hb hcompat
        rw [OrderBook.call, he]
        exact ⟨hwf, hinst⟩
    | cancelOrder orderId =>
      by_cases hr : ∃ o ∈ book.resting, o.orderId = orderId
      · obtain ⟨o, ho, rfl⟩ := hr
        obtain ⟨book', he, hwf, hinst, -⟩ := cancelOrder_spec hb ho
        rw [OrderBook.call, he]
        exact ⟨hwf, hinst⟩
      · push Not at hr
        rw [OrderBook.call, cancelOrder_of_not_resting hb.toIndexed hr] at hc
        cases hc
    | applyFill orderId executedQuantity =>
      by_cases hr : ∃ o ∈ book.resting, o.orderId = orderId
      · obtain ⟨o, ho, rfl⟩ := hr
        by_cases hx : kQuantityTolerance < executedQuantity ∧
            executedQuantity ≤ o.remainingQuantity + kQuantityTolerance
        · obtain ⟨book', he, hwf, hinst, -⟩ := applyFill_spec hb ho hx.1 hx.2
          rw [OrderBook.call, he]
          exact ⟨hwf, hinst⟩
        · rw [not_and_or, not_lt, not_le] at hx
          rw [OrderBook.call, applyFill_of_out_of_range hb ho hx] at hc
          cases hc
      · push Not at hr
        rw [OrderBook.call, applyFill_of_not_resting hb hr] at hc
        cases hc

private theorem machine_run_wf (instrument : Instrument) (ops : List BookOp) :
    (machine.run { instrument := instrument } ops).Wf ∧
      (machine.run { instrument := instrument } ops).instrument = instrument := by
  have hok : machine.Admissible (fun _ _ => True) { instrument := instrument } ops :=
    Machine.admissible_of_forall (fun _ _ _ => trivial) _
  refine Machine.invariant (P := fun book : OrderBook => book.Wf ∧ book.instrument = instrument) ?_ hok
    ⟨empty_wf instrument, rfl⟩
  rintro book op - ⟨hb, hi⟩
  exact ⟨(hb.call op).1, (hb.call op).2.trans hi⟩

/-- In every book that calls can reach from the empty one, the index names exactly the resting orders, each resting
once at the place its locator names, the counter counts them, no level is empty, every resting order fits its place,
and a call that returns `false` changes nothing. -/
theorem reachable_book_consistent (instrument : Instrument) (ops : List BookOp) :
    let book := machine.run { instrument := instrument } ops
    (∀ id, book.orderIndex.contains id = true ↔ id ∈ book.resting.map RestingOrder.orderId) ∧
    (book.resting.map RestingOrder.orderId).Nodup ∧
    (∀ id locator, book.orderIndex[id]? = some locator →
      ∃ q, book.level locator.side locator.price = some q ∧ ∃ o ∈ q, o.orderId = id) ∧
    book.orderCount = book.resting.card ∧
    (∀ side price q, book.level side price = some q → q ≠ [] ∧
      (∀ o ∈ q, o.request.side = side ∧ o.request.price = some price ∧
        o.request.instrument.instrumentId = instrument.instrumentId ∧
        kQuantityTolerance < o.remainingQuantity ∧ o.remainingQuantity ≤ o.request.quantity ∧
        o.sequenceNumber < book.nextSequenceNumber) ∧
      q.Pairwise fun o o' => o.sequenceNumber < o'.sequenceNumber) ∧
    ∀ op, (book.call op).1 = false → (book.call op).2 = book := by
  intro book
  obtain ⟨hb, hinst⟩ : book.Wf ∧ book.instrument = instrument := machine_run_wf instrument ops
  refine ⟨fun id => ?_, hb.nodup, fun id locator h => ?_, hb.count, fun side price q hq => ?_,
    fun op => call_of_false op⟩
  · rw [Multiset.mem_map, ← Std.ExtTreeMap.isSome_getElem?_eq_contains, Option.isSome_iff_exists]
    constructor
    · rintro ⟨locator, h⟩
      obtain ⟨o, ho, hid, -⟩ := (hb.index id locator).1 h
      exact ⟨o, ho, hid⟩
    · rintro ⟨o, ho, rfl⟩
      obtain ⟨price, -, -, h, -⟩ := hb.locate ho
      exact ⟨_, h⟩
  · obtain ⟨o, ho, hid, hside, hprice⟩ := (hb.index id locator).1 h
    obtain ⟨price, q, hp, -, hq, hoq, -⟩ := hb.locate ho
    rw [hprice, Option.some.injEq] at hp
    exact ⟨q, by rw [hp, ← hside]; exact hq, o, hoq, hid⟩
  · have hok := hb.level side price q hq
    refine ⟨hok.nonempty, fun o ho => ?_, hok.increasing⟩
    have h := hok.orders o ho
    have hmem := mem_resting.2 ⟨side, price, q, hq, ho⟩
    exact ⟨h.side_eq, h.price_eq, hinst ▸ h.instrument_eq, hb.tolerance_lt hmem, hb.remaining_le hmem, h.sequence_lt⟩

end OrderBook

end Wall
