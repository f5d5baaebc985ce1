import Wall.NumberFormats
import Wall.RoundedLimit

/-!
# The rounded loops end

A quantity that is left to execute need not shrink when differences are rounded, but a fill that does not use it up
takes its order out of the book.  So in every reachable state the loops of the engine end by themselves, with at most
one fill more than there are orders (`loops_end`).
-/

namespace Wall

open Rounding

namespace Rounded

variable {rnd : ℚ → ℚ}

/-- An order that is added rests with what is left of it. -/
private theorem Stocked.addOrder {book book' : OrderBook} (h : Stocked book) {request : OrderRequest}
    {orderId clientOrderId : String} {filledQuantity : ℚ}
    (hadd : addOrder rnd book request orderId clientOrderId filledQuantity = (true, book')) :
    Stocked book' ∧ book'.instrument = book.instrument := by
  obtain ⟨hindexed, hinst, -, -, hrest⟩ := addOrder_spec h.indexed hadd
  refine ⟨⟨hindexed, fun o ho => ?_⟩, hinst⟩
  rw [hrest] at ho
  rcases Multiset.mem_cons.1 ho with rfl | ho
  · exact le_max_left _ _
  · exact h.nonneg o ho

private theorem BooksStocked.cancel {engine : MatchingEngine} (h : BooksStocked engine)
    (orderId clientOrderId : String) : BooksStocked (engine.cancel orderId clientOrderId).1 := by
  unfold MatchingEngine.cancel
  cases horder : engine.orders[orderId]? with
  | none => exact h
  | some order =>
    dsimp only
    split
    · exact h
    · split
      · rename_i book hbook
        obtain ⟨book₀, hbook₀, hcancel⟩ := Option.map_eq_some_iff.1 hbook
        obtain ⟨hi, hstocked⟩ := h _ book₀ hbook₀
        -- the book refuses an order that does not rest
        have hrests : ∃ o ∈ book₀.resting, o.orderId = orderId := by
          by_contra hnone
          rw [OrderBook.cancelOrder_of_not_resting hstocked.indexed
            fun o ho hid => hnone ⟨o, ho, hid⟩] at hcancel
          cases hcancel
        obtain ⟨o, ho, rfl⟩ := hrests
        obtain ⟨book', heq, hindexed, hinst, hrest⟩ := hstocked.indexed.cancelOrder_spec ho
        cases hcancel.symm.trans heq
        exact h.insert rfl (hinst ▸ hi) ⟨hindexed, fun x hx => hstocked.nonneg x (hrest ▸ Multiset.mem_cons_of_mem hx)⟩
      · exact h

private theorem BooksStocked.restoreOpenOrder {engine : MatchingEngine} (h : BooksStocked engine)
    (orderId clientOrderId : String) (request : OrderRequest) (filledQuantity : ℚ) :
    BooksStocked (restoreOpenOrder rnd engine orderId clientOrderId request filledQuantity) := by
  obtain ⟨hi, hstocked⟩ := h.bookFor request.instrument
  unfold Rounded.restoreOpenOrder
  split
  · exact h
  · split
    · exact h
    · split
      · rename_i book hadd
        obtain ⟨hstocked', hinst⟩ := hstocked.addOrder hadd
        exact h.insert rfl (hinst ▸ hi) hstocked'
      · rename_i book hadd
        rw [addOrder_of_false hadd]
        exact h.insert rfl hi hstocked

section Steps

variable (h0 : rnd 0 = 0) (htol : 0 ≤ quantityTolerance rnd)
include htol

private theorem BooksStocked.engineStep {engine : MatchingEngine} (h : BooksStocked engine) (op : EngineOp) :
    BooksStocked ((machine rnd).step engine op).1 := by
  cases op with
  | submit request => exact (h.call htol (.submit request)).stocked
  | cancel orderId clientOrderId => exact h.cancel orderId clientOrderId
  | processMarketEvent event => exact (h.call htol (.market event)).stocked
  | restoreOpenOrder orderId clientOrderId request filledQuantity =>
    exact h.restoreOpenOrder orderId clientOrderId request filledQuantity

include h0

/-- What `submit` returns has at most one fill more than there are orders in the instrument's book. -/
private theorem length_submit_fills_le {engine : MatchingEngine} (h : BooksStocked engine) (request : OrderRequest) :
    (submit rnd engine request).2.fills.length ≤ restingCount engine request.instrument.instrumentId + 1 := by
  rcases submit_cases rnd engine request with ⟨reason, heq⟩ | ⟨heq, -⟩
  · rw [heq]
    exact Nat.zero_le _
  · have hlength := (moves_submitLoop htol h request).length_fills
    rw [heq, (matchAndRest_books rnd engine request).1, hlength.trans (Nat.zero_add _), ← h.card_bookFor]
    exact (submitLoop_ends h0 htol engine request (h.bookFor _).2.indexed).2

private theorem length_marketEvent_fills_le {engine : MatchingEngine} (h : BooksStocked engine) (event : MarketEvent) :
    (processMarketEvent rnd engine event).2.fills.length ≤
      restingCount engine event.instrument.instrumentId + (event.askLevels.length + event.bidLevels.length) := by
  unfold processMarketEvent
  cases hbook : engine.books[event.instrument.instrumentId]? with
  | none => exact Nat.zero_le _
  | some book =>
    obtain ⟨hi, hstocked⟩ := h _ book hbook
    have hlength := (moves_marketLoops htol engine hstocked hi).length_fills
    rw [restingCount, hbook, Option.elim_some, hstocked.indexed.count]
    exact (hlength.trans (Nat.zero_add _)).le.trans (marketLoops_end h0 htol engine event hstocked.indexed).2

end Steps

/-- For doubles, or any other numbers that results are rounded to a nearest one of: in every state that calls on an
empty engine lead to, the loops of `submit` and `process_market_event` end by themselves, with at most one fill for each
order in the instrument's book and one for the request, or one for each level. -/
theorem loops_end {s : Set ℚ} (hrnd : IsNearest s rnd) (hzero : (0 : ℚ) ∈ s) (ops : List EngineOp) :
    let engine := (machine rnd).run {} ops
    (∀ request, (submitLoop rnd engine request).2 ≠ .outOfFuel ∧
      (submit rnd engine request).2.fills.length ≤ restingCount engine request.instrument.instrumentId + 1) ∧
    ∀ event, (∀ book ∈ engine.books[event.instrument.instrumentId]?,
        LoopStop.outOfFuel ∉ (marketLoops rnd engine event book).2) ∧
      (processMarketEvent rnd engine event).2.fills.length ≤
        restingCount engine event.instrument.instrumentId + (event.askLevels.length + event.bidLevels.length) := by
  intro engine
  have h0 : rnd 0 = 0 := hrnd.fixed_iff.2 hzero
  have htol := tolerance_nonneg hrnd.monotone h0
  have hbooks : BooksStocked engine := by
    have hempty : BooksStocked {} := fun i book hbook => by simp at hbook
    exact Machine.invariant_of_step (P := BooksStocked) (fun engine op h => h.engineStep htol op) hempty ops
  refine ⟨fun request => ⟨(submitLoop_ends h0 htol engine request (hbooks.bookFor _).2.indexed).1,
    length_submit_fills_le h0 htol hbooks request⟩, fun event => ⟨fun book hbook => ?_,
    length_marketEvent_fills_le h0 htol hbooks event⟩⟩
  exact (marketLoops_end h0 htol engine event (hbooks _ book hbook).2.indexed).1

/-- One order of `0.3` rests, and an event offers `0.03` ten times. -/
theorem loops_end_exampleRun :
    let engine := (machine toDouble).run {} [.submit (MatchingEngine.exampleRequest .buy (toDouble (3 / 10)) 100)]
    (processMarketEvent toDouble engine
      { instrument := (MatchingEngine.exampleRequest .buy 1 100).instrument
        askLevels := List.replicate 10 ⟨100, toDouble (3 / 100)⟩ }).2.fills.length ≤ 1 + (10 + 0) :=
  ((loops_end nearest_toDouble zero_mem_doubles
    [.submit (MatchingEngine.exampleRequest .buy (toDouble (3 / 10)) 100)]).2 _).2.trans (by decide +kernel)

end Rounded

end Wall
