import Wall.RoundedFills
import Wall.TradingCore
import Wall.Lib.Rounding
import Mathlib.Algebra.Order.BigOperators.Group.Multiset

/-!
# What rests, and what is rounded

A fill moves its quantity from an order that rests to the fills of its side.  In rounded arithmetic the order keeps
what is left after rounding, so what rests and what has been filled together can grow by as much as the difference was
rounded (`Moves`), and by nothing else: the loops only fill, and `submit` brings the quantity of its request.
-/

namespace Wall

open KeyedMap Rounding

namespace Rounded

/-! ### What rests on a side -/

/-- What an order has left, if it rests on the side. -/
def restingPart (side : OrderSide) (o : RestingOrder) : ℚ := if o.request.side = side then o.remainingQuantity else 0

/-- What the orders resting on a side have left. -/
def restingOn (side : OrderSide) (book : OrderBook) : ℚ := (book.resting.map (restingPart side)).sum

/-- The book is indexed, and no order rests with less than nothing. -/
structure Stocked (book : OrderBook) : Prop where
  indexed : book.Indexed
  nonneg : ∀ o ∈ book.resting, 0 ≤ o.remainingQuantity

/-- Every book stands under its instrument's id and is stocked. -/
def BooksStocked (engine : MatchingEngine) : Prop :=
  ∀ (i : String) (book : OrderBook), engine.books[i]? = some book →
    book.instrument.instrumentId = i ∧ Stocked book

theorem Stocked.restingOn_nonneg {book : OrderBook} (h : Stocked book) (side : OrderSide) :
    0 ≤ restingOn side book := by
  refine Multiset.sum_nonneg fun x hx => ?_
  obtain ⟨o, ho, rfl⟩ := Multiset.mem_map.1 hx
  unfold restingPart
  split
  · exact h.nonneg o ho
  · exact le_refl _

private theorem empty_stocked (instrument : Instrument) : Stocked { instrument := instrument } :=
  ⟨OrderBook.empty_indexed instrument, fun o ho => by simp [OrderBook.resting_empty] at ho⟩

/-- Writing one book back. -/
theorem BooksStocked.insert {engine next : MatchingEngine} (h : BooksStocked engine) {i : String} {book : OrderBook}
    (hbooks : next.books = engine.books.insert i book) (hi : book.instrument.instrumentId = i)
    (hbook : Stocked book) : BooksStocked next := by
  intro j b hb
  rw [hbooks] at hb
  exact forall_insert (P := fun (j : String) (b : OrderBook) => b.instrument.instrumentId = j ∧ Stocked b) h
    ⟨hi, hbook⟩ j b hb

theorem BooksStocked.bookFor {engine : MatchingEngine} (h : BooksStocked engine) (instrument : Instrument) :
    (engine.bookFor instrument).instrument.instrumentId = instrument.instrumentId ∧
      Stocked (engine.bookFor instrument) := by
  unfold MatchingEngine.bookFor
  cases hbook : engine.books[instrument.instrumentId]? with
  | none => exact ⟨rfl, empty_stocked instrument⟩
  | some book => exact h _ book hbook

/-- The number of orders that rest in an instrument's book. -/
def restingCount (engine : MatchingEngine) (i : String) : Nat := engine.books[i]?.elim 0 OrderBook.orderCount

theorem BooksStocked.card_bookFor {engine : MatchingEngine} (h : BooksStocked engine) (instrument : Instrument) :
    (engine.bookFor instrument).resting.card = restingCount engine instrument.instrumentId := by
  unfold MatchingEngine.bookFor restingCount
  cases hbook : engine.books[instrument.instrumentId]? with
  | none =>
    rw [Option.getD_none, OrderBook.resting_empty]
    rfl
  | some book => exact (h _ book hbook).2.indexed.count.symm

/-! ### What a call rounds -/

variable (rnd : ℚ → ℚ)

namespace LoopStep

/-- How far what the order has left is rounded. -/
def restingError (step : LoopStep) : ℚ := error rnd (step.resting.remainingQuantity - step.executed)

/-- How far what the loop has left is rounded. -/
def availableError (step : LoopStep) : ℚ := error rnd (step.available - step.executed)

end LoopStep

/-- How far the end of `submit` rounds the quantity that it rests. -/
def residualError (request : OrderRequest) (loop : FillLoop) : ℚ :=
  if loop.quantity > quantityTolerance rnd then
    error rnd (request.quantity - loop.quantity) + error rnd (request.quantity - submitFilled rnd request loop)
  else 0

variable {rnd}

/-- A fill within what the order has left takes it from what rests, up to rounding. -/
theorem Stocked.applyFill {book book' : OrderBook} (h : Stocked book) {o : RestingOrder} (ho : o ∈ book.resting)
    {executed : ℚ} (hle : executed ≤ o.remainingQuantity)
    (hfill : applyFill rnd book o.orderId executed = (true, book')) :
    Stocked book' ∧ ∀ side, restingOn side book' + (if o.request.side = side then executed else 0) ≤
      restingOn side book + error rnd (o.remainingQuantity - executed) := by
  obtain ⟨-, hindexed, -, rest, hrest, hrest'⟩ := applyFill_spec h.indexed ho hfill
  have herror := error_nonneg rnd (o.remainingQuantity - executed)
  have hothers : ∀ x ∈ rest, 0 ≤ x.remainingQuantity :=
    fun x hx => h.nonneg x (hrest ▸ Multiset.mem_cons_of_mem hx)
  have hbefore : ∀ side, restingOn side book = restingPart side o + (rest.map (restingPart side)).sum := by
    intro side
    rw [restingOn, hrest, Multiset.map_cons, Multiset.sum_cons]
  split at hrest'
  · refine ⟨⟨hindexed, fun x hx => hothers x (hrest' ▸ hx)⟩, fun side => ?_⟩
    rw [hbefore, restingOn, hrest', restingPart]
    split <;> linarith
  · have hremaining : max 0 (rnd (o.remainingQuantity - executed)) ≤
        o.remainingQuantity - executed + error rnd (o.remainingQuantity - executed) :=
      max_le (add_nonneg (sub_nonneg.2 hle) herror) (le_add_error rnd _)
    refine ⟨⟨hindexed, fun x hx => ?_⟩, fun side => ?_⟩
    · rw [hrest', Multiset.mem_cons] at hx
      rcases hx with rfl | hx
      · exact le_max_left _ _
      · exact hothers x hx
    · rw [hbefore, restingOn, hrest', Multiset.map_cons, Multiset.sum_cons, restingPart, restingPart]
      dsimp only
      split <;> linarith

/-! ### The loops -/

/-- What a fill adds to the filled quantity of a side. -/
def filledPart (side : OrderSide) (fill : FillEvent) : ℚ := if fill.side = side then fill.quantity else 0

/-- What an instrument's fills of a side come to. -/
def filledOn (i : String) (side : OrderSide) (fills : List FillEvent) : ℚ :=
  ((fills.filter fun fill => fill.instrument.instrumentId = i).map (filledPart side)).sum

@[simp] theorem filledOn_nil (i : String) (side : OrderSide) : filledOn i side [] = 0 := rfl

private theorem filledOn_concat {i : String} {fill : FillEvent} (hi : fill.instrument.instrumentId = i)
    (side : OrderSide)
    (fills : List FillEvent) : filledOn i side (fills ++ [fill]) = filledOn i side fills + filledPart side fill := by
  simp [filledOn, hi]

/-- What the fills of instrument `i` and the orders that rest come to on a side, with what the loop has left if
`taker` is that side. -/
def balance (i : String) (taker : Option OrderSide) (side : OrderSide) (loop : FillLoop) : ℚ :=
  filledOn i side loop.fills + restingOn side loop.book + if taker = some side then loop.quantity else 0

/-- A loop on a stocked book of instrument `i` keeps it so, makes one fill of that instrument at each step, and raises
no balance by more than `cost` says of its fills. -/
structure Moves (i : String) (taker : Option OrderSide) (cost : LoopStep → ℚ) (loop : FillLoop)
    (steps : List LoopStep) (loop' : FillLoop) : Prop where
  stocked : Stocked loop'.book
  instrument_eq : loop'.book.instrument = loop.book.instrument
  fills_of : ∀ fill ∈ loop'.fills, fill ∈ loop.fills ∨ fill.instrument.instrumentId = i ∧ 0 ≤ fill.quantity
  length_fills : loop'.fills.length = loop.fills.length + steps.length
  balance_le : ∀ side, balance i taker side loop' ≤ balance i taker side loop + (steps.map cost).sum

namespace Moves

variable {i : String} {taker : Option OrderSide} {cost : LoopStep → ℚ} {loop loop₁ loop₂ : FillLoop}
  {steps steps' : List LoopStep}

theorem refl (h : Stocked loop.book) : Moves i taker cost loop [] loop :=
  ⟨h, rfl, fun _ hfill => .inl hfill, rfl, fun side => by simp⟩

theorem trans (h₁ : Moves i taker cost loop steps loop₁) (h₂ : Moves i taker cost loop₁ steps' loop₂) :
    Moves i taker cost loop (steps ++ steps') loop₂ where
  stocked := h₂.stocked
  instrument_eq := h₂.instrument_eq.trans h₁.instrument_eq
  fills_of fill hfill := (h₂.fills_of fill hfill).elim (h₁.fills_of fill) .inr
  length_fills := by rw [h₂.length_fills, h₁.length_fills, List.length_append, add_assoc]
  balance_le side := by
    have hfirst := h₁.balance_le side
    have hsecond := h₂.balance_le side
    rw [List.map_append, List.sum_append]
    linarith

end Moves

/-- One fill of an order of the rule's side, for a fill of either side. -/
theorem Moves.afterFill {i : String} (taker : Option OrderSide) (cost : LoopStep → ℚ) {rule : FillRule}
    {loop : FillLoop} (h : Stocked loop.book) {resting : RestingOrder}
    (hbest : loop.book.bestOrder rule.side = some resting) {book : OrderBook}
    (hfill : Rounded.applyFill rnd loop.book resting.orderId (nextStep loop resting).executed = (true, book))
    (hof : (rule.fill loop.nextFillId resting (nextStep loop resting).executed).instrument.instrumentId = i)
    (hquantity : 0 ≤ (rule.fill loop.nextFillId resting (nextStep loop resting).executed).quantity)
    (hcost : ∀ side, filledPart side (rule.fill loop.nextFillId resting (nextStep loop resting).executed) +
        (nextStep loop resting).restingError rnd +
        (if taker = some side then max 0 (rnd (loop.quantity - (nextStep loop resting).executed)) - loop.quantity
          else 0) ≤
      (if rule.side = side then (nextStep loop resting).executed else 0) + cost (nextStep loop resting)) :
    Moves i taker cost loop [nextStep loop resting]
      (afterFill rnd loop rule resting (nextStep loop resting).executed book) := by
  obtain ⟨hmem, hside, -⟩ := h.indexed.bestOrder_spec hbest
  obtain ⟨-, -, hinst, -⟩ := applyFill_spec h.indexed hmem hfill
  obtain ⟨hstocked, hrests⟩ := h.applyFill hmem (min_le_right _ _) hfill
  refine ⟨hstocked, hinst, fun fill hfill => ?_, List.length_append, fun side => ?_⟩
  · rcases List.mem_append.1 hfill with hfill | hfill
    · exact .inl hfill
    · rw [List.mem_singleton.1 hfill]
      exact .inr ⟨hof, hquantity⟩
  · have hcost := hcost side
    have hrest : restingOn side book + (if rule.side = side then (nextStep loop resting).executed else 0) ≤
        restingOn side loop.book + (nextStep loop resting).restingError rnd := by
      rw [← hside]
      exact hrests side
    -- what the fill adds to one summand of the balance it takes from another, up to the cost of the step
    unfold balance Rounded.afterFill
    dsimp only
    rw [filledOn_concat hof, List.map_singleton, List.sum_singleton]
    split at hcost
    · rename_i htaker
      rw [if_pos htaker, if_pos htaker]
      linarith
    · rename_i htaker
      rw [if_neg htaker, if_neg htaker]
      linarith

private theorem left_le (rnd : ℚ → ℚ) {available executed : ℚ} (hle : executed ≤ available) :
    max 0 (rnd (available - executed)) ≤ available - executed + error rnd (available - executed) :=
  max_le (add_nonneg (sub_nonneg.2 hle) (error_nonneg rnd _)) (le_add_error rnd _)

section Loops

variable (htol : 0 ≤ quantityTolerance rnd)
include htol

/-- A loop of a market event fills orders of its side, of either kind of instrument. -/
private theorem moves_marketLoop {i : String} {event : MarketEvent} (hevent : event.instrument.instrumentId = i)
    (rule : FillRule) (level : BookLevel) (hrule : rule.fill = marketFill event level) (fuel : Nat) (loop : FillLoop) :
    Stocked loop.book → loop.book.instrument.instrumentId = i →
      Moves i none (LoopStep.restingError rnd) loop (loopSteps rnd rule fuel loop)
        (fillLoop rnd rule fuel loop).1 := by
  refine fillLoop_rule (R := fun loop steps loop' => Stocked loop.book → loop.book.instrument.instrumentId = i →
    Moves i none (LoopStep.restingError rnd) loop steps loop') (fun _ h _ => .refl h) ?_ fuel loop
  intro loop resting book steps loop' _ hbest _ hfill ih h hi
  obtain ⟨hmem, hside, -⟩ := h.indexed.bestOrder_spec hbest
  obtain ⟨hpos, -⟩ := applyFill_spec h.indexed hmem hfill
  obtain ⟨_, _, -, -, hok⟩ := h.indexed.exists_orderOk hmem
  have hof : (rule.fill loop.nextFillId resting (nextStep loop resting).executed).instrument.instrumentId = i := by
    rw [hrule, marketFill]
    dsimp only
    split
    · exact hevent
    · exact hok.instrument_eq.trans hi
  have hquantity : 0 ≤ (rule.fill loop.nextFillId resting (nextStep loop resting).executed).quantity := by
    rw [hrule]
    exact htol.trans hpos.le
  have hstep := Moves.afterFill none (LoopStep.restingError rnd) h hbest hfill hof hquantity fun side => ?_
  · exact hstep.trans (ih hstep.stocked (by rw [hstep.instrument_eq]; exact hi))
  · simp only [hrule, marketFill, filledPart, ← hside, reduceCtorEq, ↓reduceIte]
    linarith

private theorem moves_levels {i : String} {event : MarketEvent} (hevent : event.instrument.instrumentId = i)
    (rule : BookLevel → FillRule) (hrule : ∀ level, (rule level).fill = marketFill event level)
    (levels : List BookLevel) (loop : FillLoop) :
    Stocked loop.book → loop.book.instrument.instrumentId = i →
      Moves i none (LoopStep.restingError rnd) loop (levelSteps rnd rule levels loop)
        (processLevels rnd rule levels loop).1 := by
  refine processLevels_rule (R := fun loop steps loop' => Stocked loop.book → loop.book.instrument.instrumentId = i →
    Moves i none (LoopStep.restingError rnd) loop steps loop') (fun _ h _ => .refl h) ?_ ?_
    (fun level fuel loop => moves_marketLoop htol hevent (rule level) level (hrule level) fuel loop) levels loop
  · intro loop steps loop₁ steps' loop₂ hfirst hsecond h hi
    have h₁ := hfirst h hi
    exact h₁.trans (hsecond h₁.stocked (by rw [h₁.instrument_eq]; exact hi))
  · -- the levels set the quantity, which is no part of the balance
    intro loop quantity steps loop' hmoves h hi
    obtain ⟨hstocked, hinst, hfills, hlength, hbalance⟩ := hmoves h hi
    exact ⟨hstocked, hinst, hfills, hlength, hbalance⟩

theorem moves_marketLoops (engine : MatchingEngine) {event : MarketEvent} {book : OrderBook} (h : Stocked book)
    (hi : book.instrument.instrumentId = event.instrument.instrumentId) :
    Moves event.instrument.instrumentId none (LoopStep.restingError rnd) (marketStart engine book)
      (marketSteps rnd engine event book) (marketLoops rnd engine event book).1 := by
  have hbuys := moves_levels htol rfl (processBuyRestingOrders rnd event) (fun _ => rfl) event.askLevels
    (marketStart engine book) h hi
  exact hbuys.trans (moves_levels htol rfl (processSellRestingOrders rnd event) (fun _ => rfl) event.bidLevels _
    hbuys.stocked (by rw [hbuys.instrument_eq]; exact hi))

/-- The loop of `submit` fills the request from orders of the opposite side. -/
theorem moves_submitLoop {engine : MatchingEngine} (h : BooksStocked engine) (request : OrderRequest) :
    Moves request.instrument.instrumentId (some request.side)
      (fun step => step.restingError rnd + step.availableError rnd) (engine.submitStart request)
      (submitSteps rnd engine request) (submitLoop rnd engine request).1 := by
  obtain ⟨hi, hbook⟩ := h.bookFor request.instrument
  refine fillLoop_rule (R := fun loop steps loop' => Stocked loop.book →
    Moves request.instrument.instrumentId (some request.side)
      (fun step => step.restingError rnd + step.availableError rnd) loop steps loop')
    (fun _ h => .refl h) ?_ _ (engine.submitStart request) hbook
  intro loop resting book steps loop' _ hbest _ hfill ih h
  obtain ⟨hpos, -⟩ := applyFill_spec h.indexed (h.indexed.bestOrder_spec hbest).1 hfill
  have hexecuted : 0 ≤ (nextStep loop resting).executed := htol.trans hpos.le
  have hleft := left_le rnd (min_le_left loop.quantity resting.remainingQuantity)
  have herror : 0 ≤ (nextStep loop resting).availableError rnd := error_nonneg rnd _
  change max 0 (rnd (loop.quantity - (nextStep loop resting).executed)) ≤
    loop.quantity - (nextStep loop resting).executed + (nextStep loop resting).availableError rnd at hleft
  have hstep := Moves.afterFill (some request.side) (fun step => step.restingError rnd + step.availableError rnd) h
    hbest hfill rfl hexecuted fun side => ?_
  · exact hstep.trans (ih hstep.stocked)
  · by_cases hside : request.side = side
    · -- the request's side: what it executes leaves the request and is filled
      subst hside
      have hopposite : request.side.opposite ≠ request.side := by cases request.side <;> nofun
      simp only [submitRule, filledPart, hopposite, ↓reduceIte]
      linarith
    · have hopposite : request.side.opposite = side := by
        revert hside
        cases request.side <;> cases side <;> simp [OrderSide.opposite]
      simp only [submitRule, filledPart, hopposite, hside, ↓reduceIte, Option.some.injEq]
      linarith

end Loops

end Rounded

end Wall
