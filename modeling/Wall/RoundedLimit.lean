import Wall.RoundedCore
import Wall.RoundedCalls
import Wall.RoundedExposure

/-!
# The position limit

`RiskEngine::evaluate` compares the quantity of one request with `max_position_quantity`; it looks neither at the
position nor at the orders that are already open.  What a position can become is bounded by its exposure: the net
quantity on a side together with what the orders resting on that side have left (`exposure`).  Executions move
quantity from the resting orders to the position, and a new order raises the exposure of its side by its quantity.
Besides, every addition and subtraction is rounded: an exposure can also grow by as much as a call's results are
rounded (`callError`), which is nothing in exact arithmetic.  So exposures stay within the limit when a call leaves room
for its request and for its rounding (`exposure_step`).
-/

namespace Wall

open KeyedMap Rounding

namespace Rounded

variable (rnd : ℚ → ℚ)

/-! ### The exposure -/

/-- The signed quantities of an instrument's fills. -/
def signedQuantities (i : String) (fills : List FillEvent) : List ℚ :=
  (fills.filter fun fill => fill.instrument.instrumentId = i).map fun fill => fill.side.signed fill.quantity

/-- What the orders resting on a side of an instrument's book have left. -/
def restingIn (engine : MatchingEngine) (i : String) (side : OrderSide) : ℚ :=
  engine.books[i]?.elim 0 (restingOn side)

/-- What the net quantity of an instrument becomes on a side if all that rests on that side executes. -/
def exposure (core : TradingCore) (i : String) (side : OrderSide) : ℚ :=
  side.signed (core.portfolio.netOf i) + restingIn core.engine i side

/-- The instrument of a call. -/
def callInstrument : TradingOp → String
  | .market event => event.instrument.instrumentId
  | .submit request => request.instrument.instrumentId

/-- What a call adds to the exposure of a side: the quantity of a request of that side that `submit` does not
reject. -/
def added (side : OrderSide) : TradingOp → ℚ
  | .market _ => 0
  | .submit request => if request.Acceptable ∧ request.side = side then request.quantity else 0

/-- How far the engine rounds the quantities of a call. -/
def engineError (engine : MatchingEngine) : TradingOp → ℚ
  | .market event =>
    match engine.books[event.instrument.instrumentId]? with
    | none => 0
    | some book => ((marketSteps rnd engine event book).map (LoopStep.restingError rnd)).sum
  | .submit request =>
    if request.Acceptable then
      ((submitSteps rnd engine request).map fun step => step.restingError rnd + step.availableError rnd).sum +
        residualError rnd request (submitLoop rnd engine request).1
    else 0

/-- How far a call rounds quantities: in the engine, and in the additions of its fills to the position. -/
def callError (core : TradingCore) (op : TradingOp) : ℚ :=
  engineError rnd core.engine op + sumErrors rnd (core.portfolio.netOf (callInstrument op))
    (signedQuantities (callInstrument op) ((machine rnd).step core.engine op.engineOp).2.fills)

/-! ### The position -/

private theorem signedQuantities_cons (i : String) (fill : FillEvent) (fills : List FillEvent) :
    signedQuantities i (fill :: fills) =
      if fill.instrument.instrumentId = i then fill.side.signed fill.quantity :: signedQuantities i fills
      else signedQuantities i fills := by
  by_cases hi : fill.instrument.instrumentId = i <;> simp [signedQuantities, hi]

/-- Where all fills are of one instrument, another's position has none of them. -/
private theorem signedQuantities_of_ne {i j : String} (hj : j ≠ i) {fills : List FillEvent}
    (h : ∀ fill ∈ fills, fill.instrument.instrumentId = i) : signedQuantities j fills = [] := by
  rw [signedQuantities, List.filter_eq_nil_iff.2, List.map_nil]
  intro fill hfill
  rw [decide_eq_true_iff, h fill hfill]
  exact hj.symm

@[simp] theorem updateUnrealized_netQuantity (position : Position) (markPrice : ℚ) :
    (updateUnrealized rnd position markPrice).netQuantity = position.netQuantity := by
  unfold updateUnrealized
  split <;> rfl

theorem applyFillToPosition_netQuantity (markPrices : StringMap ℚ) (position : Position) (fill : FillEvent) :
    (applyFillToPosition rnd markPrices position fill).netQuantity =
      rnd (position.netQuantity + fill.side.signed fill.quantity) := by
  have hexecute : (executeFill rnd position fill).netQuantity =
      rnd (position.netQuantity + fill.side.signed fill.quantity) := by
    unfold executeFill
    dsimp only
    split <;> rfl
  unfold applyFillToPosition
  split <;> rw [updateUnrealized_netQuantity, hexecute]

private theorem netOf_applyFillToPortfolio (portfolio : PortfolioService) (fill : FillEvent) (i : String) :
    (applyFillToPortfolio rnd portfolio fill).netOf i =
      if fill.instrument.instrumentId = i then rnd (portfolio.netOf i + fill.side.signed fill.quantity)
      else portfolio.netOf i := by
  unfold PortfolioService.netOf PortfolioService.getPosition applyFillToPortfolio
  dsimp only
  rw [getElem?_modifyD]
  by_cases hi : fill.instrument.instrumentId = i
  · subst hi
    have hopen : ∀ position : Position,
        (PortfolioService.openPosition position fill).netQuantity = position.netQuantity := by
      intro position
      unfold PortfolioService.openPosition
      split <;> rfl
    rw [if_pos rfl, if_pos rfl]
    cases portfolio.positions[fill.instrument.instrumentId]? <;>
      rw [Option.elim_some, applyFillToPosition_netQuantity, hopen] <;> rfl
  · rw [if_neg hi, if_neg hi]

/-- The fills of a result are added to the position one by one. -/
theorem netOf_applyFills (fills : List FillEvent) (portfolio : PortfolioService) (i : String) :
    (fills.foldl (applyFillToPortfolio rnd) portfolio).netOf i =
      sumFrom rnd (portfolio.netOf i) (signedQuantities i fills) := by
  induction fills generalizing portfolio with
  | nil => rfl
  | cons fill fills ih =>
    rw [List.foldl_cons, ih, netOf_applyFillToPortfolio, signedQuantities_cons]
    split <;> rfl

theorem netOf_setMarkPrice (portfolio : PortfolioService) (j i : String) (price : ℚ) :
    (setMarkPrice rnd portfolio j price).netOf i = portfolio.netOf i := by
  unfold PortfolioService.netOf PortfolioService.getPosition setMarkPrice
  dsimp only
  split
  · rename_i position hposition
    rw [KeyedMap.getElem?_insert]
    split
    · rename_i hji
      rw [← hji, hposition]
      exact updateUnrealized_netQuantity rnd position price
    · rfl
  · rfl

@[simp] theorem coreStep_engine (core : TradingCore) (op : TradingOp) :
    (coreStep rnd core op).engine = ((machine rnd).step core.engine op.engineOp).1 := by
  cases op with
  | market event =>
    show (onMarket rnd core event).engine = (processMarketEvent rnd core.engine event).1
    unfold onMarket
    dsimp only
    split <;> rfl
  | submit request => rfl

theorem netOf_coreStep (core : TradingCore) (op : TradingOp) (i : String) :
    (coreStep rnd core op).portfolio.netOf i = sumFrom rnd (core.portfolio.netOf i)
      (signedQuantities i ((machine rnd).step core.engine op.engineOp).2.fills) := by
  cases op with
  | market event =>
    have hfills : (coreStep rnd core (.market event)).portfolio.netOf i =
        ((processMarketEvent rnd core.engine event).2.fills.foldl (applyFillToPortfolio rnd) core.portfolio).netOf
          i := by
      show (onMarket rnd core event).portfolio.netOf i = _
      unfold onMarket
      dsimp only
      split
      · exact netOf_setMarkPrice rnd _ _ _ _
      · rfl
    rw [hfills]
    exact netOf_applyFills rnd _ _ _
  | submit request => exact netOf_applyFills rnd _ _ _

/-- What moves a position towards a side is filled on that side. -/
theorem sum_signedQuantities_side {i : String} {fills : List FillEvent} (h : ∀ fill ∈ fills, 0 ≤ fill.quantity)
    (side : OrderSide) :
    ((signedQuantities i fills).map fun x => max (side.signed x) 0).sum = filledOn i side fills := by
  rw [signedQuantities, List.map_map, filledOn]
  congr 1
  refine List.map_congr_left fun fill hfill => ?_
  have hquantity := h fill (List.mem_filter.1 hfill).1
  rw [Function.comp_apply, filledPart]
  cases fill.side <;> cases side <;> simp [OrderSide.signed, hquantity]

private theorem signed_sum_le (side : OrderSide) (xs : List ℚ) :
    side.signed xs.sum ≤ (xs.map fun x => max (side.signed x) 0).sum := by
  induction xs with
  | nil => exact (OrderSide.signed_zero side).le
  | cons x xs ih =>
    rw [List.sum_cons, OrderSide.signed_add, List.map_cons, List.sum_cons]
    exact add_le_add (le_max_left _ _) ih

/-- A position moves towards a side by the fills of that side at most, up to the rounding of the additions. -/
private theorem signed_sumFrom_le (side : OrderSide) (i : String) (net : ℚ) {fills : List FillEvent}
    (h : ∀ fill ∈ fills, 0 ≤ fill.quantity) :
    side.signed (sumFrom rnd net (signedQuantities i fills)) ≤
      side.signed net + filledOn i side fills + sumErrors rnd net (signedQuantities i fills) := by
  have hsum := abs_le.1 (abs_sumFrom_sub_le rnd net (signedQuantities i fills))
  have hfilled := signed_sum_le side (signedQuantities i fills)
  rw [sum_signedQuantities_side h] at hfilled
  cases side
  · simp only [OrderSide.signed] at hfilled ⊢
    linarith [hsum.2]
  · simp only [OrderSide.signed] at hfilled ⊢
    linarith [hsum.1]

variable {rnd}

/-! ### The books -/

/-- What a call on an instrument does to the books: it keeps them stocked and the other instruments' books, fills that
instrument alone, and raises what its fills and its book come to on a side by at most `bound`. -/
structure CallMoves (engine : MatchingEngine) (i : String) (bound : OrderSide → ℚ)
    (next : MatchingEngine × ExecutionResult) : Prop where
  stocked : BooksStocked next.1
  others : ∀ j, j ≠ i → next.1.books[j]? = engine.books[j]?
  fills_of : ∀ fill ∈ next.2.fills, fill.instrument.instrumentId = i ∧ 0 ≤ fill.quantity
  moves_le : ∀ side, filledOn i side next.2.fills + restingIn next.1 i side ≤
    restingIn engine i side + bound side

/-- A call without fills that leaves the books alone. -/
private theorem CallMoves.of_books_eq {engine : MatchingEngine} (h : BooksStocked engine) {i : String}
    {bound : OrderSide → ℚ} (hbound : ∀ side, 0 ≤ bound side) {next : MatchingEngine × ExecutionResult}
    (hbooks : next.1.books = engine.books) (hfills : next.2.fills = []) : CallMoves engine i bound next := by
  refine ⟨fun j book hbook => h j book (hbooks ▸ hbook), fun j _ => by rw [hbooks], fun fill hfill => ?_, fun side => ?_⟩
  · rw [hfills] at hfill
    exact absurd hfill List.not_mem_nil
  · rw [hfills, restingIn, hbooks, filledOn_nil, zero_add]
    exact le_add_of_nonneg_right (hbound side)

/-- A call that writes one book back. -/
private theorem CallMoves.of_insert {engine : MatchingEngine} (h : BooksStocked engine) {i : String}
    {bound : OrderSide → ℚ} {next : MatchingEngine × ExecutionResult} {book : OrderBook}
    (hbooks : next.1.books = engine.books.insert i book) (hi : book.instrument.instrumentId = i) (hbook : Stocked book)
    (hfills : ∀ fill ∈ next.2.fills, fill.instrument.instrumentId = i ∧ 0 ≤ fill.quantity)
    (hmoves : ∀ side, filledOn i side next.2.fills + restingOn side book ≤
      restingIn engine i side + bound side) : CallMoves engine i bound next := by
  refine ⟨h.insert hbooks hi hbook, fun j hj => ?_, hfills, fun side => ?_⟩
  · rw [hbooks, KeyedMap.getElem?_insert, if_neg hj.symm]
  · rw [restingIn, hbooks, KeyedMap.getElem?_insert, if_pos rfl]
    exact hmoves side

private theorem restingOn_empty (side : OrderSide) (instrument : Instrument) :
    restingOn side { instrument := instrument } = 0 := by
  rw [restingOn, OrderBook.resting_empty, Multiset.map_zero, Multiset.sum_zero]

private theorem restingOn_bookFor (engine : MatchingEngine) (instrument : Instrument) (side : OrderSide) :
    restingOn side (engine.bookFor instrument) = restingIn engine instrument.instrumentId side := by
  unfold MatchingEngine.bookFor restingIn
  cases engine.books[instrument.instrumentId]? with
  | none => exact restingOn_empty side instrument
  | some book => rfl

/-- The end of `submit` rests at most what the loop has left, up to rounding, and returns the loop's fills. -/
theorem matchAndRest_books (rnd : ℚ → ℚ) (engine : MatchingEngine) (request : OrderRequest) :
    let loop := (submitLoop rnd engine request).1
    (matchAndRest rnd engine request).2.fills = loop.fills ∧
      ∃ book, (matchAndRest rnd engine request).1.books = engine.books.insert request.instrument.instrumentId book ∧
      (book = loop.book ∨ quantityTolerance rnd < loop.quantity ∧ addOrder rnd loop.book request engine.issuedOrderId
        (matchClientOrderId engine.nextClientOrderId) (submitFilled rnd request loop) = (true, book)) := by
  intro loop
  have hsettle : ∀ book, (settle rnd engine request loop book).2.fills = loop.fills ∧
      (settle rnd engine request loop book).1.books =
        engine.books.insert request.instrument.instrumentId book := by
    intro book
    unfold settle
    dsimp only
    split
    · exact ⟨rfl, rfl⟩
    · split <;> exact ⟨rfl, rfl⟩
  rcases matchAndRest_ends rnd engine request with heq | ⟨book, hquantity, hadd, heq⟩ | heq
  · exact ⟨by rw [heq]; rfl, loop.book, by rw [heq]; rfl, .inl rfl⟩
  · exact ⟨by rw [heq, (hsettle book).1], book, by rw [heq, (hsettle book).2], .inr ⟨hquantity, hadd⟩⟩
  · exact ⟨by rw [heq, (hsettle _).1], loop.book, by rw [heq, (hsettle _).2], .inl rfl⟩

private theorem residual_le (rnd : ℚ → ℚ) (request : OrderRequest) {loop : FillLoop} (hleft : 0 ≤ loop.quantity)
    (hrests : quantityTolerance rnd < loop.quantity) :
    max 0 (rnd (request.quantity - submitFilled rnd request loop)) ≤
      loop.quantity + residualError rnd request loop := by
  have hfilled : rnd (request.quantity - loop.quantity) ≤ submitFilled rnd request loop := le_max_right _ _
  have hlow := sub_error_le rnd (request.quantity - loop.quantity)
  have hhigh := le_add_error rnd (request.quantity - submitFilled rnd request loop)
  have herror := error_nonneg rnd (request.quantity - loop.quantity)
  have herror' := error_nonneg rnd (request.quantity - submitFilled rnd request loop)
  rw [residualError, if_pos hrests]
  refine max_le ?_ ?_ <;> linarith

private theorem residualError_nonneg (rnd : ℚ → ℚ) (request : OrderRequest) (loop : FillLoop) :
    0 ≤ residualError rnd request loop := by
  unfold residualError
  split
  · exact add_nonneg (error_nonneg rnd _) (error_nonneg rnd _)
  · exact le_refl _

private theorem added_nonneg (side : OrderSide) (op : TradingOp) : 0 ≤ added side op := by
  cases op with
  | market event => exact le_refl _
  | submit request =>
    by_cases h : request.Acceptable ∧ request.side = side
    · rw [added, if_pos h]
      exact h.1.quantity.le
    · rw [added, if_neg h]

private theorem engineError_nonneg (engine : MatchingEngine) (op : TradingOp) : 0 ≤ engineError rnd engine op := by
  have hsum : ∀ (steps : List LoopStep) (cost : LoopStep → ℚ), (∀ step, 0 ≤ cost step) → 0 ≤ (steps.map cost).sum := by
    intro steps cost hcost
    refine List.sum_nonneg fun x hx => ?_
    obtain ⟨step, -, rfl⟩ := List.mem_map.1 hx
    exact hcost step
  unfold engineError
  cases op with
  | market event =>
    dsimp only
    split
    · exact le_refl _
    · exact hsum _ _ fun step => error_nonneg rnd _
  | submit request =>
    dsimp only
    split
    · exact add_nonneg (hsum _ _ fun step => add_nonneg (error_nonneg rnd _) (error_nonneg rnd _))
        (residualError_nonneg rnd request _)
    · exact le_refl _

section Calls

variable (htol : 0 ≤ quantityTolerance rnd)
include htol

theorem BooksStocked.processMarketEvent {engine : MatchingEngine} (h : BooksStocked engine) (event : MarketEvent) :
    CallMoves engine event.instrument.instrumentId (fun _ => engineError rnd engine (.market event))
      (processMarketEvent rnd engine event) := by
  unfold Rounded.processMarketEvent
  cases hbook : engine.books[event.instrument.instrumentId]? with
  | none =>
    apply CallMoves.of_books_eq h
    · exact fun _ => engineError_nonneg engine _
    · rfl
    · rfl
  | some book =>
    obtain ⟨hi, hstocked⟩ := h _ book hbook
    have hmoves := moves_marketLoops htol engine hstocked hi
    refine .of_insert h rfl (by rw [hmoves.instrument_eq]; exact hi) hmoves.stocked (fun fill hfill => ?_) fun side => ?_
    · exact (hmoves.fills_of fill hfill).resolve_left List.not_mem_nil
    · have hle := hmoves.balance_le side
      simpa [balance, marketStart, restingIn, engineError, hbook] using hle

theorem BooksStocked.matchAndRest {engine : MatchingEngine} (h : BooksStocked engine) {request : OrderRequest}
    (hacc : request.Acceptable) :
    CallMoves engine request.instrument.instrumentId
      (fun side => added side (.submit request) + engineError rnd engine (.submit request))
      (matchAndRest rnd engine request) := by
  have hmoves := moves_submitLoop htol h request
  have hleft := submitLoop_quantity_nonneg rnd engine request hacc.quantity.le
  have hinst : (submitLoop rnd engine request).1.book.instrument.instrumentId = request.instrument.instrumentId := by
    rw [hmoves.instrument_eq]
    exact (h.bookFor request.instrument).1
  obtain ⟨hfills, book, hbooks, hbook⟩ := matchAndRest_books rnd engine request
  -- the loop's balance, with what the request brought
  have hloop : ∀ side, filledOn request.instrument.instrumentId side (submitLoop rnd engine request).1.fills +
      restingOn side (submitLoop rnd engine request).1.book +
        (if request.side = side then (submitLoop rnd engine request).1.quantity +
          residualError rnd request (submitLoop rnd engine request).1 else 0) ≤
      restingIn engine request.instrument.instrumentId side + (added side (.submit request) +
        engineError rnd engine (.submit request)) := by
    intro side
    have hle := hmoves.balance_le side
    have hresidual := residualError_nonneg rnd request (submitLoop rnd engine request).1
    have hstart : (engine.submitStart request).fills = [] := rfl
    have hquantity : (engine.submitStart request).quantity = request.quantity := rfl
    have hstartBook : restingOn side (engine.submitStart request).book =
        restingIn engine request.instrument.instrumentId side := restingOn_bookFor engine request.instrument side
    rw [balance, balance, hstart, hquantity, hstartBook, filledOn_nil, zero_add] at hle
    simp only [Option.some.injEq] at hle
    rw [added, engineError, if_pos hacc]
    simp only [hacc, true_and]
    split at hle <;> rename_i hside
    · rw [if_pos hside, if_pos hside]
      linarith
    · rw [if_neg hside, if_neg hside]
      linarith
  rcases hbook with rfl | ⟨hrests, hadd⟩
  · refine .of_insert h hbooks hinst hmoves.stocked (fun fill hfill => ?_) fun side => ?_
    · exact (hmoves.fills_of fill (hfills ▸ hfill)).resolve_left List.not_mem_nil
    · have hle := hloop side
      have hresidual := residualError_nonneg rnd request (submitLoop rnd engine request).1
      rw [hfills]
      split at hle <;> linarith
  · obtain ⟨hindexed, hinst', -, -, hrest⟩ := addOrder_spec hmoves.stocked.indexed hadd
    refine .of_insert h hbooks (by rw [hinst', hinst]) ⟨hindexed, fun o ho => ?_⟩ (fun fill hfill => ?_) fun side => ?_
    · rw [hrest, Multiset.mem_cons] at ho
      rcases ho with rfl | ho
      · exact le_max_left _ _
      · exact hmoves.stocked.nonneg o ho
    · exact (hmoves.fills_of fill (hfills ▸ hfill)).resolve_left List.not_mem_nil
    · have hle := hloop side
      have hresidual := residual_le rnd request hleft hrests
      rw [hfills, restingOn, hrest, Multiset.map_cons, Multiset.sum_cons, restingPart, restingOrderOf]
      rw [restingOn] at hle
      dsimp only
      split at hle <;> rename_i hside
      · rw [if_pos hside]
        linarith
      · rw [if_neg hside]
        linarith

/-- What a call does to the exposures, the position apart. -/
theorem BooksStocked.call {engine : MatchingEngine} (h : BooksStocked engine) (op : TradingOp) :
    CallMoves engine (callInstrument op) (fun side => added side op + engineError rnd engine op)
      ((machine rnd).step engine op.engineOp) := by
  cases op with
  | market event =>
    have hmarket := h.processMarketEvent htol event
    simp only [added, zero_add]
    exact hmarket
  | submit request =>
    show CallMoves engine request.instrument.instrumentId _ (submit rnd engine request)
    rcases submit_cases rnd engine request with ⟨reason, heq⟩ | ⟨heq, hacc⟩
    · rw [heq]
      exact .of_books_eq h (fun side => add_nonneg (added_nonneg side _) (engineError_nonneg engine _)) rfl rfl
    · rw [heq]
      exact h.matchAndRest htol hacc

/-- A call that leaves room for its request and its rounding leaves every exposure within the limit. -/
theorem exposure_step {limit : ℚ} {core : TradingCore} (hs : BooksStocked core.engine) {op : TradingOp}
    (hop : ∀ side, exposure core (callInstrument op) side + added side op + callError rnd core op ≤ limit)
    (h : ∀ i side, exposure core i side ≤ limit) :
    BooksStocked (coreStep rnd core op).engine ∧ ∀ i side, exposure (coreStep rnd core op) i side ≤ limit := by
  have hcall := hs.call htol op
  rw [coreStep_engine]
  refine ⟨hcall.stocked, fun i side => ?_⟩
  rw [exposure, netOf_coreStep, coreStep_engine]
  by_cases hi : i = callInstrument op
  · subst hi
    have hposition := signed_sumFrom_le rnd side (callInstrument op) (core.portfolio.netOf (callInstrument op))
      fun fill hfill => (hcall.fills_of fill hfill).2
    have hmoves := hcall.moves_le side
    have hkeeps := hop side
    unfold exposure callError at hkeeps
    linarith
  · have hothers := h i side
    rw [signedQuantities_of_ne hi fun fill hfill => (hcall.fills_of fill hfill).1, restingIn, hcall.others i hi]
    exact hothers

end Calls

/-! ### A fresh core -/

theorem exposure_empty {limit : ℚ} (hlimit : 0 < limit) {core : TradingCore} (hengine : core.engine = {})
    (hportfolio : core.portfolio = {}) (i : String) (side : OrderSide) : exposure core i side ≤ limit := by
  have hnet : ({} : PortfolioService).netOf i = 0 := rfl
  have hresting : restingIn {} i side = 0 := rfl
  rw [exposure, hengine, hportfolio, hnet, hresting, OrderSide.signed_zero, add_zero]
  exact hlimit.le

end Rounded

end Wall
