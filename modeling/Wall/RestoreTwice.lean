import Wall.Uncrossed

/-!
# Restoring an order twice

`restore_open_order` writes the order's record before it asks the book, and erases it when the book refuses.  The book
refuses an order that rests in it already, so a second call with the same arguments erases the record that the first
one wrote and leaves the order resting.  The calls do no harm only where nothing is restored and no record of a
resting order is there to be erased (`restore_twice_iff`).
-/

namespace Wall

open KeyedMap

namespace MatchingEngine

/-- The checks with which `restore_open_order` returns before it touches anything. -/
def RestoreReturns (request : OrderRequest) (filledQuantity : ℚ) : Prop :=
  (request.price = none ∨ request.price.getD 0 ≤ 0 ∨ request.quantity ≤ 0) ∨
    filledQuantity < 0 ∨ filledQuantity ≥ request.quantity - kQuantityTolerance

/-- An order rests under the id in some book. -/
def RestsUnder (engine : MatchingEngine) (orderId : String) : Prop :=
  ∃ i book, engine.findBook i = some book ∧ ∃ o ∈ book.resting, o.orderId = orderId

/-- A second call leaves the records and the books as the first one did, and together they leave no order to rest
without a record that did not before. -/
def RestoresOnce (engine : MatchingEngine) (orderId clientOrderId : String) (request : OrderRequest)
    (filledQuantity : ℚ) : Prop :=
  let first := engine.restoreOpenOrder orderId clientOrderId request filledQuantity
  let second := first.restoreOpenOrder orderId clientOrderId request filledQuantity
  second.orders = first.orders ∧ second.books = first.books ∧
    ∀ id, second.RestsUnder id → second.getOrder id = none → engine.RestsUnder id ∧ engine.getOrder id = none

section Cases

variable {engine : MatchingEngine} {orderId clientOrderId : String} {request : OrderRequest} {filledQuantity : ℚ}

private theorem restore_of_returns (h : RestoreReturns request filledQuantity) :
    engine.restoreOpenOrder orderId clientOrderId request filledQuantity = engine := by
  unfold restoreOpenOrder
  rcases h with h | h
  · exact if_pos h
  · rw [if_pos h, ite_self]

private theorem restore_of_refused (hreturns : ¬ RestoreReturns request filledQuantity)
    (h : (engine.bookFor request.instrument).isRequestCompatible request orderId clientOrderId filledQuantity = false) :
    engine.restoreOpenOrder orderId clientOrderId request filledQuantity =
      { engine with
        books := engine.books.insert request.instrument.instrumentId (engine.bookFor request.instrument)
        orders := engine.orders.erase orderId } := by
  rw [RestoreReturns, not_or] at hreturns
  rw [restoreOpenOrder, if_neg hreturns.1, if_neg hreturns.2, OrderBook.addOrder_of_not_compatible h]

private theorem restore_of_accepted (hb : BooksOk engine.books) (hreturns : ¬ RestoreReturns request filledQuantity)
    (h : (engine.bookFor request.instrument).isRequestCompatible request orderId clientOrderId filledQuantity = true) :
    ∃ book, book.Wf ∧ (∃ o ∈ book.resting, o.orderId = orderId) ∧
      engine.restoreOpenOrder orderId clientOrderId request filledQuantity =
        { engine with
          books := engine.books.insert request.instrument.instrumentId book
          orders := engine.orders.insert orderId (restoredRecord orderId clientOrderId request filledQuantity) } := by
  rw [RestoreReturns, not_or] at hreturns
  obtain ⟨book, hadd, hwf, -, hrest⟩ := OrderBook.addOrder_spec (bookFor_ok hb request.instrument).1 h
  refine ⟨book, hwf, ⟨_, hrest ▸ Multiset.mem_cons_self _ _, rfl⟩, ?_⟩
  rw [restoreOpenOrder, if_neg hreturns.1, if_neg hreturns.2, hadd]

/-- The book refuses an order whose id rests in it. -/
private theorem refused_of_resting {book : OrderBook} (hb : book.Wf) (h : ∃ o ∈ book.resting, o.orderId = orderId) :
    book.isRequestCompatible request orderId clientOrderId filledQuantity = false := by
  refine Bool.eq_false_iff.2 fun hcompat => ?_
  obtain ⟨o, ho, rfl⟩ := h
  obtain ⟨-, -, -, -, -, -, -, -, hindex⟩ := OrderBook.isRequestCompatible_iff.1 hcompat
  obtain ⟨price, q, -, hlocated, -⟩ := hb.locate ho
  cases hindex.symm.trans hlocated

/-- What is restored is erased again. -/
private theorem not_restoresOnce_of_accepted (hb : BooksOk engine.books)
    (hreturns : ¬ RestoreReturns request filledQuantity)
    (h : (engine.bookFor request.instrument).isRequestCompatible request orderId clientOrderId filledQuantity = true) :
    ¬ engine.RestoresOnce orderId clientOrderId request filledQuantity := by
  obtain ⟨book, hwf, hrests, heq⟩ := restore_of_accepted hb hreturns h
  rintro ⟨horders, -⟩
  rw [heq, restore_of_refused hreturns] at horders
  · have hlookup := congrArg (fun orders : StringMap OrderRecord => orders[orderId]?) horders
    dsimp only at hlookup
    rw [getElem?_erase, if_pos rfl, getElem?_insert, if_pos rfl] at hlookup
    cases hlookup
  · rw [bookFor_of_some ((getElem?_insert ..).trans (if_pos rfl))]
    exact refused_of_resting hwf hrests

/-- Where the books are the ones before, and an empty one perhaps, the same orders rest. -/
private theorem restsUnder_iff_of_found {engine' : MatchingEngine} {instrument : Instrument} {id : String}
    (hfound : ∀ i, engine'.findBook i =
      if instrument.instrumentId = i then some (engine.bookFor instrument) else engine.findBook i) :
    engine'.RestsUnder id ↔ engine.RestsUnder id := by
  constructor
  · rintro ⟨i, book, hbook, o, ho, hid⟩
    rw [hfound] at hbook
    split at hbook
    · cases hbook
      exact ⟨_, _, findBook_of_resting ho, o, ho, hid⟩
    · exact ⟨i, book, hbook, o, ho, hid⟩
  · rintro ⟨i, book, hbook, o, ho, hid⟩
    refine ⟨i, book, ?_, o, ho, hid⟩
    rw [hfound]
    split
    · rename_i hi
      subst hi
      exact congrArg some (bookFor_of_some hbook)
    · exact hbook

/-- What is refused stays refused, and it does harm if it erases the record of a resting order. -/
private theorem restoresOnce_iff_of_refused (hreturns : ¬ RestoreReturns request filledQuantity)
    (h : (engine.bookFor request.instrument).isRequestCompatible request orderId clientOrderId filledQuantity = false) :
    engine.RestoresOnce orderId clientOrderId request filledQuantity ↔
      ¬(engine.RestsUnder orderId ∧ ∃ r, engine.getOrder orderId = some r) := by
  set first := engine.restoreOpenOrder orderId clientOrderId request filledQuantity with hfirst
  have heq := restore_of_refused hreturns h
  rw [← hfirst] at heq
  have hfound : ∀ i, first.findBook i = if request.instrument.instrumentId = i then
      some (engine.bookFor request.instrument) else engine.findBook i := by
    intro i
    rw [heq]
    exact getElem?_insert ..
  have hrecord : ∀ id, first.getOrder id = if orderId = id then none else engine.getOrder id := by
    intro id
    rw [heq]
    exact getElem?_erase ..
  -- the book is as it was, so it refuses the second restore too, which finds nothing more to erase
  have hsecond : first.restoreOpenOrder orderId clientOrderId request filledQuantity = first := by
    have hbook : first.bookFor request.instrument = engine.bookFor request.instrument :=
      bookFor_of_some ((hfound _).trans (if_pos rfl))
    rw [restore_of_refused hreturns (by rw [hbook]; exact h), hbook, heq]
    dsimp only
    rw [insert_insert, erase_of_none ((getElem?_erase ..).trans (if_pos rfl))]
  have hrests : ∀ id, first.RestsUnder id ↔ engine.RestsUnder id := fun id => restsUnder_iff_of_found hfound
  unfold RestoresOnce
  dsimp only
  rw [← hfirst, hsecond]
  constructor
  · rintro ⟨-, -, hkept⟩ ⟨hresting, r, hr⟩
    have hnone := (hkept orderId ((hrests _).2 hresting) ((hrecord _).trans (if_pos rfl))).2
    cases hnone.symm.trans hr
  · refine fun hnot => ⟨rfl, rfl, fun id hresting hnone => ?_⟩
    have hbefore := (hrests id).1 hresting
    refine ⟨hbefore, ?_⟩
    rw [hrecord] at hnone
    split at hnone
    · rename_i hid
      subst hid
      cases hr : engine.getOrder orderId with
      | none => rfl
      | some r => exact absurd ⟨hbefore, r, hr⟩ hnot
    · exact hnone

end Cases

end MatchingEngine

end Wall
