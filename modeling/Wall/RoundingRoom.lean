import Wall.NumberFormats
import Wall.RoundedLimit
import Wall.Lib.Scale

/-!
# The room that rounding needs

How far a call rounds is bounded before it is made.  The quantities of a run are of a scale (`Rounding.Scale`), all
doubles for one, or the multiples of a power of two whose sums are exact.  Every fill takes an order out of the book or
uses up what is executed, so a call makes at most as many fills as its instrument has orders resting and as the call
has levels or requests (`roundings`), and each result is off by at most the scale's grain.  So positions stay within
the limit as long as every call leaves that much room beside the exposure and its request (`positions_within_limit`).
-/

namespace Wall

open KeyedMap Rounding

namespace Rounded

variable {rnd : ℚ → ℚ} {size : ℚ}

/-- How many results a call can round on the way to the positions.  A fill rounds what its order has left and the
position, a fill of `submit` also what the request has left, and the end of `submit` rounds twice. -/
def roundings (engine : MatchingEngine) : TradingOp → Nat
  | .market event =>
    2 * (restingCount engine event.instrument.instrumentId + (event.askLevels.length + event.bidLevels.length))
  | .submit request => 3 * (restingCount engine request.instrument.instrumentId + 1) + 2

/-- The quantities that a call brings are among `numbers`. -/
def Brings (numbers : Set ℚ) : TradingOp → Prop
  | .market event => ∀ level ∈ event.askLevels ++ event.bidLevels, level.quantity ∈ numbers
  | .submit request => request.Acceptable → request.quantity ∈ numbers

/-- The call leaves room within the limit, beside the exposures of its instrument, for its request and for rounding. -/
structure KeepsLimit (limit : ℚ) (scale : Scale rnd (2 * limit)) (core : TradingCore) (op : TradingOp) : Prop where
  brings : Brings scale.numbers op
  room : ∀ side,
    exposure core (callInstrument op) side + added side op + roundings core.engine op * scale.grain ≤ limit

/-! ### The loops -/

/-- What the orders of a book have left is of the scale. -/
def OnScale (scale : Scale rnd size) (book : OrderBook) : Prop :=
  ∀ o ∈ book.resting, o.remainingQuantity ∈ scale.numbers

/-- What the orders of a book have left is of the scale and not above its size. -/
def Fits (scale : Scale rnd size) (book : OrderBook) : Prop :=
  ∀ o ∈ book.resting, o.remainingQuantity ∈ scale.numbers ∧ o.remainingQuantity ≤ size

/-- The rest of a difference of two numbers of the scale is of the scale, and not above the first. -/
private theorem rest_spec (hmono : Monotone rnd) (scale : Scale rnd size) {x y : ℚ} (hx : x ∈ scale.numbers)
    (hy : y ∈ scale.numbers) (h0 : 0 ≤ y) (hxy : y ≤ x) :
    max 0 (rnd (x - y)) ∈ scale.numbers ∧ max 0 (rnd (x - y)) ≤ x ∧
      (x ≤ size → error rnd (x - y) ≤ scale.grain) := by
  refine ⟨?_, max_le (h0.trans hxy) ?_, fun hsize => scale.error_sub_le hx hy ?_⟩
  · rcases max_choice 0 (rnd (x - y)) with heq | heq <;> rw [heq]
    · exact scale.zero_mem
    · exact scale.sub_mem hx hy
  · exact (hmono (sub_le_self x h0)).trans_eq (scale.fixed x hx)
  · rw [abs_of_nonneg (sub_nonneg.2 hxy)]
    exact (sub_le_self x h0).trans hsize

/-- A loop on a book that fits the scale keeps it so; it fills quantities of the scale, and rounds what it takes from by
at most the grain. -/
structure LoopStays (scale : Scale rnd size) (loop : FillLoop) (steps : List LoopStep) (loop' : FillLoop) :
    Prop where
  stocked : Stocked loop'.book
  fits : Fits scale loop'.book
  quantity_mem : loop'.quantity ∈ scale.numbers
  quantity_le : loop'.quantity ≤ loop.quantity
  fills_mem : ∀ fill ∈ loop'.fills, fill ∈ loop.fills ∨ fill.quantity ∈ scale.numbers
  restingError_le : ∀ step ∈ steps, step.restingError rnd ≤ scale.grain
  availableError_le : loop.quantity ≤ size → ∀ step ∈ steps, step.availableError rnd ≤ scale.grain

theorem LoopStays.trans {scale : Scale rnd size} {loop loop₁ loop₂ : FillLoop} {steps steps' : List LoopStep}
    (h₁ : LoopStays scale loop steps loop₁) (h₂ : LoopStays scale loop₁ steps' loop₂) :
    LoopStays scale loop (steps ++ steps') loop₂ where
  stocked := h₂.stocked
  fits := h₂.fits
  quantity_mem := h₂.quantity_mem
  quantity_le := h₂.quantity_le.trans h₁.quantity_le
  fills_mem fill hfill := (h₂.fills_mem fill hfill).elim (h₁.fills_mem fill) .inr
  restingError_le := List.forall_mem_append.2 ⟨h₁.restingError_le, h₂.restingError_le⟩
  availableError_le hsize := List.forall_mem_append.2
    ⟨h₁.availableError_le hsize, h₂.availableError_le (h₁.quantity_le.trans hsize)⟩

private theorem tolerance_nonneg_of_scale (hmono : Monotone rnd) (scale : Scale rnd size) :
    0 ≤ quantityTolerance rnd := tolerance_nonneg hmono (scale.fixed 0 scale.zero_mem)

section Loops

variable (hmono : Monotone rnd) (scale : Scale rnd size)
include hmono

/-- One fill of a loop. -/
private theorem LoopStays.single {rule : FillRule} {loop : FillLoop} {resting : RestingOrder} {book : OrderBook}
    (hrule : ∀ number resting executed, (rule.fill number resting executed).quantity = executed)
    (hstocked : Stocked loop.book) (hfits : Fits scale loop.book) (hmem : loop.quantity ∈ scale.numbers)
    (hbest : loop.book.bestOrder rule.side = some resting)
    (hfill : applyFill rnd loop.book resting.orderId (nextStep loop resting).executed = (true, book)) :
    LoopStays scale loop [nextStep loop resting]
      (afterFill rnd loop rule resting (nextStep loop resting).executed book) := by
  have htol := tolerance_nonneg_of_scale hmono scale
  have ho := (hstocked.indexed.bestOrder_spec hbest).1
  obtain ⟨hpos, -, -, rest, hrest, hrest'⟩ := applyFill_spec hstocked.indexed ho hfill
  obtain ⟨hremaining, hremaining_le⟩ := hfits resting ho
  -- the minimum of two numbers of the scale is one of the two
  have hexecuted : (nextStep loop resting).executed ∈ scale.numbers := by
    show min loop.quantity resting.remainingQuantity ∈ scale.numbers
    rcases min_choice loop.quantity resting.remainingQuantity with heq | heq <;> rw [heq]
    · exact hmem
    · exact hremaining
  have h0executed := htol.trans hpos.le
  obtain ⟨hleft, hleft_le, herror⟩ :=
    rest_spec hmono scale hremaining hexecuted h0executed (min_le_right _ _)
  obtain ⟨hquantity', hquantity_le, herror'⟩ :=
    rest_spec hmono scale hmem hexecuted h0executed (min_le_left _ _)
  refine ⟨(hstocked.applyFill ho (min_le_right _ _) hfill).1, fun o hmem' => ?_, hquantity', hquantity_le,
    fun fill hfill' => ?_, ?_, fun hsize => ?_⟩
  · change o ∈ book.resting at hmem'
    rw [hrest'] at hmem'
    have hothers : ∀ x ∈ rest, x.remainingQuantity ∈ scale.numbers ∧ x.remainingQuantity ≤ size :=
      fun x hx => hfits x (hrest ▸ Multiset.mem_cons_of_mem hx)
    split at hmem'
    · exact hothers o hmem'
    · rcases Multiset.mem_cons.1 hmem' with rfl | hmem'
      · exact ⟨hleft, hleft_le.trans hremaining_le⟩
      · exact hothers o hmem'
  · rcases List.mem_append.1 hfill' with hfill' | hfill'
    · exact .inl hfill'
    · rw [List.mem_singleton.1 hfill', hrule]
      exact .inr hexecuted
  · intro step hstep
    rw [List.mem_singleton.1 hstep]
    exact herror hremaining_le
  · intro step hstep
    rw [List.mem_singleton.1 hstep]
    exact herror' hsize

private theorem loopStays {rule : FillRule}
    (hrule : ∀ number resting executed, (rule.fill number resting executed).quantity = executed) (fuel : Nat)
    (loop : FillLoop) : Stocked loop.book → Fits scale loop.book → loop.quantity ∈ scale.numbers →
      LoopStays scale loop (loopSteps rnd rule fuel loop) (fillLoop rnd rule fuel loop).1 := by
  refine fillLoop_rule (R := fun loop steps loop' => Stocked loop.book → Fits scale loop.book →
    loop.quantity ∈ scale.numbers → LoopStays scale loop steps loop') ?_ ?_ fuel loop
  · intro loop hstocked hfits hmem
    exact ⟨hstocked, hfits, hmem, le_rfl, fun _ hfill => .inl hfill, by simp, by simp⟩
  · intro loop resting book steps loop' _ hbest _ hfill ih hstocked hfits hmem
    have hstep := LoopStays.single hmono scale hrule hstocked hfits hmem hbest hfill
    exact hstep.trans (ih hstep.stocked hstep.fits hstep.quantity_mem)

end Loops

/-- The levels of a market event one after the other do so too. -/
structure LevelsStay (scale : Scale rnd size) (loop : FillLoop) (steps : List LoopStep) (loop' : FillLoop) : Prop where
  stocked : Stocked loop'.book
  fits : Fits scale loop'.book
  fills_mem : ∀ fill ∈ loop'.fills, fill ∈ loop.fills ∨ fill.quantity ∈ scale.numbers
  restingError_le : ∀ step ∈ steps, step.restingError rnd ≤ scale.grain

theorem LevelsStay.trans {scale : Scale rnd size} {loop loop₁ loop₂ : FillLoop} {steps steps' : List LoopStep}
    (h₁ : LevelsStay scale loop steps loop₁) (h₂ : LevelsStay scale loop₁ steps' loop₂) :
    LevelsStay scale loop (steps ++ steps') loop₂ where
  stocked := h₂.stocked
  fits := h₂.fits
  fills_mem fill hfill := (h₂.fills_mem fill hfill).elim (h₁.fills_mem fill) .inr
  restingError_le := List.forall_mem_append.2 ⟨h₁.restingError_le, h₂.restingError_le⟩

section Calls

variable (hmono : Monotone rnd) (scale : Scale rnd size)
include hmono

private theorem levelsStay (rule : BookLevel → FillRule)
    (hrule : ∀ level number resting executed, ((rule level).fill number resting executed).quantity = executed)
    {levels : List BookLevel} (hlevels : ∀ level ∈ levels, level.quantity ∈ scale.numbers) {loop : FillLoop}
    (hstocked : Stocked loop.book) (hfits : Fits scale loop.book) :
    LevelsStay scale loop (levelSteps rnd rule levels loop) (processLevels rnd rule levels loop).1 := by
  induction levels generalizing loop with
  | nil => exact ⟨hstocked, hfits, fun _ hfill => .inl hfill, fun _ hstep => absurd hstep List.not_mem_nil⟩
  | cons level levels ih =>
    have hloop := loopStays hmono scale (hrule level) (loopFuel level.quantity loop.book)
      { loop with quantity := level.quantity } hstocked hfits (hlevels level (List.mem_cons_self ..))
    have hfirst : LevelsStay scale loop _ _ := ⟨hloop.stocked, hloop.fits, hloop.fills_mem, hloop.restingError_le⟩
    exact hfirst.trans (ih (fun level hlevel => hlevels level (List.mem_cons_of_mem _ hlevel)) hfirst.stocked
      hfirst.fits)

private theorem marketLoopsStay (engine : MatchingEngine) {event : MarketEvent}
    (hlevels : Brings scale.numbers (.market event)) {book : OrderBook} (hstocked : Stocked book)
    (hfits : Fits scale book) :
    LevelsStay scale (marketStart engine book) (marketSteps rnd engine event book)
      (marketLoops rnd engine event book).1 := by
  obtain ⟨hasks, hbids⟩ := List.forall_mem_append.1 hlevels
  have hbuys : LevelsStay scale (marketStart engine book) _ _ :=
    levelsStay hmono scale (processBuyRestingOrders rnd event) (fun _ _ _ _ => rfl) hasks hstocked hfits
  exact hbuys.trans (levelsStay hmono scale (processSellRestingOrders rnd event) (fun _ _ _ _ => rfl) hbids
    hbuys.stocked hbuys.fits)

end Calls

/-! ### The calls -/

/-- What the orders of all books have left is of the scale. -/
def BooksOnScale (scale : Scale rnd size) (engine : MatchingEngine) : Prop :=
  ∀ (i : String) (book : OrderBook), engine.books[i]? = some book → OnScale scale book

/-- A call keeps the books on the scale, fills quantities of the scale, and leaves room for the additions of its fills
to the position in the bound of what it rounds. -/
structure CallStays (scale : Scale rnd size) (engine : MatchingEngine) (op : TradingOp)
    (next : MatchingEngine × ExecutionResult) : Prop where
  onScale : BooksOnScale scale next.1
  fills_mem : ∀ fill ∈ next.2.fills, fill.quantity ∈ scale.numbers
  error_le : engineError rnd engine op + next.2.fills.length * scale.grain ≤ roundings engine op * scale.grain

private theorem sum_cost_le {steps : List LoopStep} {cost : LoopStep → ℚ} {bound : ℚ}
    (h : ∀ step ∈ steps, cost step ≤ bound) : (steps.map cost).sum ≤ steps.length * bound := by
  have hle := List.sum_le_card_nsmul (steps.map cost) bound (by
    intro x hx
    obtain ⟨step, hstep, rfl⟩ := List.mem_map.1 hx
    exact h step hstep)
  rwa [List.length_map, nsmul_eq_mul] at hle

/-- A call that writes one book back. -/
theorem BooksOnScale.insert {scale : Scale rnd size} {engine next : MatchingEngine} (h : BooksOnScale scale engine)
    {i : String} {book : OrderBook} (hbooks : next.books = engine.books.insert i book) (hbook : OnScale scale book) :
    BooksOnScale scale next := by
  intro j b hb
  rw [hbooks, KeyedMap.getElem?_insert] at hb
  split at hb
  · cases hb
    exact hbook
  · exact h j b hb

private theorem signedQuantities_mem (scale : Scale rnd size) {fills : List FillEvent}
    (h : ∀ fill ∈ fills, fill.quantity ∈ scale.numbers) (i : String) :
    ∀ x ∈ signedQuantities i fills, x ∈ scale.numbers := by
  intro x hx
  obtain ⟨fill, hfill, rfl⟩ := List.mem_map.1 hx
  have hquantity := h fill (List.mem_filter.1 hfill).1
  cases fill.side
  · exact hquantity
  · exact scale.neg_mem _ hquantity

private theorem Fits.onScale {scale : Scale rnd size} {book : OrderBook} (h : Fits scale book) : OnScale scale book :=
  fun o ho => (h o ho).1

section Steps

variable (hmono : Monotone rnd) {scale : Scale rnd size} (hsize : 0 ≤ size) {engine : MatchingEngine}
  (hstocked : BooksStocked engine) (honScale : BooksOnScale scale engine)
include hmono hsize hstocked honScale

private theorem callStays_market {event : MarketEvent} (hbrings : Brings scale.numbers (.market event))
    (hle : ∀ book, engine.books[event.instrument.instrumentId]? = some book →
      ∀ o ∈ book.resting, o.remainingQuantity ≤ size) :
    CallStays scale engine (.market event) (processMarketEvent rnd engine event) := by
  have hgrain := scale.grain_nonneg hsize
  unfold processMarketEvent
  cases hbook : engine.books[event.instrument.instrumentId]? with
  | none =>
    refine ⟨honScale, fun _ hfill => absurd hfill List.not_mem_nil, ?_⟩
    simp only [engineError, hbook, List.length_nil, Nat.cast_zero, zero_mul, add_zero]
    positivity
  | some book =>
    obtain ⟨hi, hindexed⟩ := hstocked _ book hbook
    have hstays := marketLoopsStay hmono scale engine hbrings hindexed
      fun o ho => ⟨honScale _ book hbook o ho, hle book hbook o ho⟩
    have hlength := (moves_marketLoops (tolerance_nonneg_of_scale hmono scale) engine hindexed hi).length_fills
    refine ⟨honScale.insert rfl hstays.fits.onScale, fun fill hfill => ?_, ?_⟩
    · exact (hstays.fills_mem fill hfill).resolve_left List.not_mem_nil
    · have herror := sum_cost_le hstays.restingError_le
      have hcount : (marketSteps rnd engine event book).length ≤
          book.orderCount + (event.askLevels.length + event.bidLevels.length) := by
        rw [hindexed.indexed.count]
        exact (marketLoops_end (scale.fixed 0 scale.zero_mem) (tolerance_nonneg_of_scale hmono scale) engine event
          hindexed.indexed).2
      have hcount' : ((marketSteps rnd engine event book).length : ℚ) ≤
          book.orderCount + (event.askLevels.length + event.bidLevels.length) := by exact_mod_cast hcount
      have hroom := mul_le_mul_of_nonneg_right hcount' hgrain
      have hfills : (marketLoops rnd engine event book).1.fills.length = (marketSteps rnd engine event book).length :=
        hlength.trans (Nat.zero_add _)
      simp only [engineError, hbook, roundings, restingCount, Option.elim_some, hfills]
      push_cast
      linarith

variable {request : OrderRequest} (hbrings : Brings scale.numbers (.submit request))
  (hle : ∀ o ∈ (engine.bookFor request.instrument).resting, o.remainingQuantity ≤ size)
  (hrequest : request.Acceptable → request.quantity ≤ size)
include hbrings hle hrequest

omit hsize hrequest in
private theorem submitLoopStays (hacc : request.Acceptable) :
    LoopStays scale (engine.submitStart request) (submitSteps rnd engine request)
      (submitLoop rnd engine request).1 := by
  have hmem : OnScale scale (engine.bookFor request.instrument) := by
    unfold MatchingEngine.bookFor
    cases hbook : engine.books[request.instrument.instrumentId]? with
    | none => exact fun o ho => by simp [OrderBook.resting_empty] at ho
    | some book => exact honScale _ book hbook
  exact loopStays hmono scale (fun _ _ _ => rfl) _ (engine.submitStart request) (hstocked.bookFor _).2
    (fun o ho => ⟨hmem o ho, hle o ho⟩) (hbrings hacc)

/-- What `submit` rounds, its fills' additions to the position included. -/
private theorem submitError_le (hacc : request.Acceptable) :
    engineError rnd engine (.submit request) + (submitSteps rnd engine request).length * scale.grain ≤
      roundings engine (.submit request) * scale.grain := by
  have hgrain := scale.grain_nonneg hsize
  have hstays := submitLoopStays hmono hstocked honScale hbrings hle hacc
  have hleft := submitLoop_quantity_nonneg rnd engine request hacc.quantity.le
  have hsteps : ((submitSteps rnd engine request).map fun step =>
      step.restingError rnd + step.availableError rnd).sum ≤ _ := sum_cost_le fun step hstep =>
    add_le_add (hstays.restingError_le step hstep) (hstays.availableError_le (hrequest hacc) step hstep)
  have hresidual : residualError rnd request (submitLoop rnd engine request).1 ≤ 2 * scale.grain := by
    obtain ⟨hfilled, hfilled_le, herror⟩ :=
      rest_spec hmono scale (hbrings hacc) hstays.quantity_mem hleft hstays.quantity_le
    have herror' := (rest_spec hmono scale (hbrings hacc) hfilled (le_max_left _ _) hfilled_le).2.2 (hrequest hacc)
    have herror := herror (hrequest hacc)
    unfold residualError submitFilled
    split <;> linarith
  have hcount : (submitSteps rnd engine request).length ≤ restingCount engine request.instrument.instrumentId + 1 := by
    rw [← hstocked.card_bookFor]
    exact (submitLoop_ends (scale.fixed 0 scale.zero_mem) (tolerance_nonneg_of_scale hmono scale) engine request
      (hstocked.bookFor _).2.indexed).2
  have hcount' : ((submitSteps rnd engine request).length : ℚ) ≤
      restingCount engine request.instrument.instrumentId + 1 := by exact_mod_cast hcount
  have hroom := mul_le_mul_of_nonneg_right hcount' hgrain
  rw [engineError, if_pos hacc, roundings]
  push_cast
  linarith

private theorem callStays_submit : CallStays scale engine (.submit request) (submit rnd engine request) := by
  have hgrain := scale.grain_nonneg hsize
  rcases submit_cases rnd engine request with ⟨reason, heq⟩ | ⟨heq, hacc⟩
  · rw [heq]
    refine ⟨honScale, fun _ hfill => absurd hfill List.not_mem_nil, ?_⟩
    have hfills : (engine.rejectNew request reason).2.fills.length = 0 := rfl
    rw [hfills, Nat.cast_zero, zero_mul, add_zero]
    by_cases hacc : request.Acceptable
    · have herror := submitError_le hmono hsize hstocked honScale hbrings hle hrequest hacc
      have : 0 ≤ (submitSteps rnd engine request).length * scale.grain := by positivity
      linarith
    · rw [engineError, if_neg hacc]
      positivity
  · have hstays := submitLoopStays hmono hstocked honScale hbrings hle hacc
    have hlength := (moves_submitLoop (tolerance_nonneg_of_scale hmono scale) hstocked request).length_fills
    obtain ⟨hfills, book, hbooks, hbook⟩ := matchAndRest_books rnd engine request
    rw [heq]
    refine ⟨honScale.insert hbooks ?_, fun fill hfill => ?_, ?_⟩
    · rcases hbook with rfl | ⟨-, hadd⟩
      · exact hstays.fits.onScale
      · have hleft := submitLoop_quantity_nonneg rnd engine request hacc.quantity.le
        obtain ⟨hfilled, hfilled_le, -⟩ :=
          rest_spec hmono scale (hbrings hacc) hstays.quantity_mem hleft hstays.quantity_le
        obtain ⟨-, -, -, -, hrest⟩ := addOrder_spec hstays.stocked.indexed hadd
        intro o ho
        rw [hrest] at ho
        rcases Multiset.mem_cons.1 ho with rfl | ho
        · exact (rest_spec hmono scale (hbrings hacc) hfilled (le_max_left _ _) hfilled_le).1
        · exact hstays.fits.onScale o ho
    · rw [hfills] at hfill
      exact (hstays.fills_mem fill hfill).resolve_left List.not_mem_nil
    · rw [hfills, hlength.trans (Nat.zero_add _)]
      exact submitError_le hmono hsize hstocked honScale hbrings hle hrequest hacc

end Steps

/-! ### The core -/

/-- Between the calls of a run: the quantities are of the scale, and every exposure is within the limit. -/
structure WithinLimit (limit : ℚ) (scale : Scale rnd (2 * limit)) (core : TradingCore) : Prop where
  stocked : BooksStocked core.engine
  onScale : BooksOnScale scale core.engine
  net_mem : ∀ i, core.portfolio.netOf i ∈ scale.numbers
  exposure_le : ∀ i side, exposure core i side ≤ limit

section Core

variable {limit : ℚ} {scale : Scale rnd (2 * limit)} {core : TradingCore} {op : TradingOp}

private theorem restingIn_nonneg {engine : MatchingEngine} (h : BooksStocked engine) (i : String) (side : OrderSide) :
    0 ≤ restingIn engine i side := by
  unfold restingIn
  cases hbook : engine.books[i]? with
  | none => exact le_refl _
  | some book => exact (h i book hbook).2.restingOn_nonneg side

theorem Stocked.remaining_le {book : OrderBook} (h : Stocked book) {o : RestingOrder} (ho : o ∈ book.resting) :
    o.remainingQuantity ≤ restingOn o.request.side book := by
  have hle := Multiset.single_le_sum (s := book.resting.map (restingPart o.request.side)) (by
    intro x hx
    obtain ⟨o', ho', rfl⟩ := Multiset.mem_map.1 hx
    unfold restingPart
    split
    · exact h.nonneg o' ho'
    · exact le_refl _) (restingPart o.request.side o) (Multiset.mem_map_of_mem _ ho)
  rwa [restingPart, if_pos rfl] at hle

/-- A position is within the limit on either side. -/
private theorem WithinLimit.abs_netOf_le (h : WithinLimit limit scale core) (i : String) :
    |core.portfolio.netOf i| ≤ limit := by
  have hbuy := h.exposure_le i .buy
  have hsell := h.exposure_le i .sell
  have hrestingBuy := restingIn_nonneg h.stocked i .buy
  have hrestingSell := restingIn_nonneg h.stocked i .sell
  unfold exposure OrderSide.signed at hbuy hsell
  rw [abs_le]
  constructor <;> linarith

private theorem WithinLimit.neg_signed_le (h : WithinLimit limit scale core) (i : String) (side : OrderSide) :
    -side.signed (core.portfolio.netOf i) ≤ limit := by
  obtain ⟨hlow, hhigh⟩ := abs_le.1 (h.abs_netOf_le i)
  cases side <;> simp only [OrderSide.signed] <;> linarith

/-- An order that rests is not above the size of the scale. -/
theorem WithinLimit.remaining_le (h : WithinLimit limit scale core) {i : String} {book : OrderBook}
    (hbook : core.engine.books[i]? = some book) {o : RestingOrder} (ho : o ∈ book.resting) :
    o.remainingQuantity ≤ 2 * limit := by
  have hle := (h.stocked i book hbook).2.remaining_le ho
  have hexposure := h.exposure_le i o.request.side
  have hnet := h.neg_signed_le i o.request.side
  rw [exposure, restingIn, hbook, Option.elim_some] at hexposure
  linarith

variable (hmono : Monotone rnd) (hlimit : 0 < limit) (h : WithinLimit limit scale core)
  (hop : KeepsLimit limit scale core op)
include hmono hlimit h hop

private theorem WithinLimit.callStays : CallStays scale core.engine op
    ((machine rnd).step core.engine op.engineOp) := by
  have hsize : 0 ≤ 2 * limit := by linarith
  cases op with
  | market event =>
    exact callStays_market hmono hsize h.stocked h.onScale hop.brings fun book hbook o ho => h.remaining_le hbook ho
  | submit request =>
    refine callStays_submit hmono hsize h.stocked h.onScale hop.brings (fun o ho => ?_) fun hacc => ?_
    · unfold MatchingEngine.bookFor at ho
      cases hbook : core.engine.books[request.instrument.instrumentId]? with
      | none =>
        rw [hbook, Option.getD_none, OrderBook.resting_empty] at ho
        exact absurd ho (Multiset.notMem_zero o)
      | some book =>
        rw [hbook] at ho
        exact h.remaining_le hbook ho
    · -- there is room for the request beside the exposure
      have hroom := hop.room request.side
      have hnet := h.neg_signed_le request.instrument.instrumentId request.side
      have hresting := restingIn_nonneg h.stocked request.instrument.instrumentId request.side
      have hgrain : 0 ≤ roundings core.engine (.submit request) * scale.grain :=
        mul_nonneg (Nat.cast_nonneg _) (scale.grain_nonneg hsize)
      rw [added, if_pos ⟨hacc, rfl⟩, exposure, callInstrument] at hroom
      linarith

/-- A call rounds no more than it leaves room for. -/
private theorem WithinLimit.callError_le : callError rnd core op ≤ roundings core.engine op * scale.grain := by
  have hsize : 0 ≤ 2 * limit := by linarith
  have hgrain := scale.grain_nonneg hsize
  have hstays := h.callStays hmono hlimit hop
  have hcall := h.stocked.call (tolerance_nonneg_of_scale hmono scale) op
  have hnonneg : ∀ fill ∈ ((machine rnd).step core.engine op.engineOp).2.fills, 0 ≤ fill.quantity :=
    fun fill hfill => (hcall.fills_of fill hfill).2
  have hlength : ((signedQuantities (callInstrument op) ((machine rnd).step core.engine op.engineOp).2.fills).length :
      ℚ) * scale.grain ≤ ((machine rnd).step core.engine op.engineOp).2.fills.length * scale.grain := by
    refine mul_le_mul_of_nonneg_right (Nat.cast_le.2 ?_) hgrain
    rw [signedQuantities, List.length_map]
    exact List.length_filter_le _ _
  have hside : ∀ side : OrderSide, side.signed (core.portfolio.netOf (callInstrument op)) +
      ((signedQuantities (callInstrument op) ((machine rnd).step core.engine op.engineOp).2.fills).map
        fun x => max (side.signed x) 0).sum +
      (signedQuantities (callInstrument op) ((machine rnd).step core.engine op.engineOp).2.fills).length *
        scale.grain ≤ 2 * limit := by
    intro side
    have hmoves := hcall.moves_le side
    have hresting := restingIn_nonneg hcall.stocked (callInstrument op) side
    have hroom := hop.room side
    have herror := hstays.error_le
    rw [sum_signedQuantities_side hnonneg]
    unfold exposure at hroom
    linarith
  have hsum := scale.sumErrors_le hsize (signedQuantities_mem scale hstays.fills_mem _) (h.net_mem _) (hside .buy)
    (hside .sell)
  have herror := hstays.error_le
  unfold callError
  linarith

theorem WithinLimit.step : WithinLimit limit scale (coreStep rnd core op) := by
  have hstays := h.callStays hmono hlimit hop
  have herror := h.callError_le hmono hlimit hop
  have hroom : ∀ side, exposure core (callInstrument op) side + added side op + callError rnd core op ≤ limit :=
    fun side => by linarith [hop.room side]
  obtain ⟨hstocked, hexposure⟩ :=
    exposure_step (tolerance_nonneg_of_scale hmono scale) h.stocked hroom h.exposure_le
  refine ⟨hstocked, by rw [coreStep_engine]; exact hstays.onScale, fun i => ?_, hexposure⟩
  rw [netOf_coreStep]
  exact scale.sumFrom_mem (signedQuantities_mem scale hstays.fills_mem i) (h.net_mem i)

end Core

/-! ### Runs -/

open SimulationRuntime in
private theorem withinLimit_fresh {σ : Type*} {riskConfig : RiskConfig} (hlimit : 0 < riskConfig.maxPositionQuantity)
    (scale : Scale rnd (2 * riskConfig.maxPositionQuantity)) (config : SimulationRuntimeConfig σ) :
    WithinLimit riskConfig.maxPositionQuantity scale (fresh riskConfig config).core where
  stocked i book hbook := by simp [core, fresh] at hbook
  onScale i book hbook := by simp [core, fresh] at hbook
  net_mem _ := scale.zero_mem
  exposure_le := exposure_empty hlimit rfl rfl

open SimulationRuntime in
/-- For doubles, or any other numbers that results are rounded to a nearest one of: in a run from a fresh runtime in
which every call leaves room within `max_position_quantity`, no position exceeds that limit. -/
theorem positions_within_limit {s : Set ℚ} (hrnd : IsNearest s rnd) {σ : Type*} (riskConfig : RiskConfig)
    (config : SimulationRuntimeConfig σ) (inputs : List RuntimeInput) (hlimit : 0 < riskConfig.maxPositionQuantity)
    (scale : Scale rnd (2 * riskConfig.maxPositionQuantity))
    (h : (runtimeMachine rnd).Admissible (CallsSatisfy rnd (KeepsLimit riskConfig.maxPositionQuantity scale))
      (fresh riskConfig config) inputs) :
    ∀ pre, pre <+: inputs → ∀ i,
      |((runtimeMachine rnd).run (fresh riskConfig config) pre).portfolioService.netOf i| ≤
        riskConfig.maxPositionQuantity := by
  rintro _ ⟨later, rfl⟩ i
  have hinv := invariant_run (P := WithinLimit riskConfig.maxPositionQuantity scale)
    (fun core op hop hcore => hcore.step hrnd.monotone hlimit hop) ((Machine.admissible_append _).1 h).1
    (withinLimit_fresh hlimit scale config)
  exact hinv.abs_netOf_le i

/-! ### Runs on doubles -/

/-- All doubles: with a size below `2 ^ e`, a sum is off by at most `2 ^ (e - 54)`. -/
def doubleScale {size : ℚ} (e : ℤ) (hsize : size < 2 ^ e) : Scale toDouble size :=
  significantScale (by norm_num) (by norm_num) nearest_toDouble hsize

/-- The doubles that are multiples of `2 ^ e`: their sums up to `2 ^ (53 + e)` are exact. -/
def dyadicScale {size : ℚ} (e : ℤ) (hsize : size < 2 ^ (53 + e)) : Scale toDouble size :=
  gridScale (by norm_num) (by norm_num) nearest_toDouble e hsize

instance {size : ℚ} (e : ℤ) (hsize : size < 2 ^ e) : DecidablePred (· ∈ (doubleScale e hsize).numbers) :=
  fun x => inferInstanceAs (Decidable (x ∈ doubles))

instance (e : ℤ) (x : ℚ) : Decidable (x ∈ grid ((2 : ℚ) ^ e)) :=
  decidable_of_iff _ (nearest_roundTo (zpow_pos two_pos e)).fixed_iff

instance {size : ℚ} (e : ℤ) (hsize : size < 2 ^ (53 + e)) : DecidablePred (· ∈ (dyadicScale e hsize).numbers) :=
  fun x => inferInstanceAs (Decidable (x ∈ doubles ∧ x ∈ grid ((2 : ℚ) ^ e)))

instance (numbers : Set ℚ) [DecidablePred (· ∈ numbers)] : DecidablePred (Brings numbers)
  | .market event => inferInstanceAs (Decidable (∀ level ∈ event.askLevels ++ event.bidLevels, level.quantity ∈ numbers))
  | .submit request => inferInstanceAs (Decidable (request.Acceptable → request.quantity ∈ numbers))

instance (limit : ℚ) (scale : Scale rnd (2 * limit)) [DecidablePred (· ∈ scale.numbers)] (core : TradingCore)
    (op : TradingOp) : Decidable (KeepsLimit limit scale core op) :=
  decidable_of_iff (Brings scale.numbers op ∧ ∀ side ∈ [OrderSide.buy, OrderSide.sell],
      exposure core (callInstrument op) side + added side op + roundings core.engine op * scale.grain ≤ limit)
    ⟨fun h => ⟨h.1, fun side => h.2 side (by cases side <;> simp)⟩, fun h => ⟨h.brings, fun side _ => h.room side⟩⟩

open SimulationRuntime in
/-- `0.3` are bought under a limit of `2`; levels of `0.1` and `0.2` fill them, and a second order rests.  Where
quantities are whole numbers nothing is rounded, and two orders of `1` may come up to the limit. -/
theorem positions_within_limit_exampleRun :
    |((runtimeMachine toDouble).run (exampleRuntime 2 [MatchingEngine.exampleRequest .buy (toDouble (3 / 10)) 100])
      [exampleInput [], exampleInput [⟨100, toDouble (1 / 10)⟩, ⟨100, toDouble (1 / 5)⟩]]).portfolioService.netOf
        "btc-usdt"| ≤ 2 ∧
    |((runtimeMachine toDouble).run (exampleRuntime 2 [MatchingEngine.exampleRequest .buy 1 100])
      [exampleInput [], exampleInput [⟨100, 1⟩]]).portfolioService.netOf "btc-usdt"| ≤ 2 :=
  ⟨positions_within_limit nearest_toDouble _ _ _ (by decide +kernel) (doubleScale 3 (by decide +kernel))
      (by decide +kernel) _ (List.prefix_refl _) "btc-usdt",
    positions_within_limit nearest_toDouble _ _ _ (by decide +kernel) (dyadicScale 0 (by decide +kernel))
      (by decide +kernel) _ (List.prefix_refl _) "btc-usdt"⟩

open SimulationRuntime in
/-- A strategy that buys at every event.  One unit each time: every request is within the limit of one, the position
is not.  `0.3` under a limit of `0.3`: ten fills of `0.03` add up to more than `0.3`. -/
theorem position_exceeds_limit :
    let units := (runtimeMachine toDouble).run (exampleRuntime 1 [MatchingEngine.exampleRequest .buy 1 100])
      [exampleInput [], exampleInput [⟨100, 1⟩], exampleInput [⟨100, 1⟩]]
    let parts := (runtimeMachine toDouble).run
      (exampleRuntime (toDouble (3 / 10)) [MatchingEngine.exampleRequest .buy (toDouble (3 / 10)) 100])
      [exampleInput [], exampleInput (List.replicate 10 ⟨100, toDouble (3 / 100)⟩)]
    (¬ ∀ i, |units.portfolioService.netOf i| ≤ units.riskConfig.maxPositionQuantity) ∧
      ¬ ∀ i, |parts.portfolioService.netOf i| ≤ parts.riskConfig.maxPositionQuantity := by
  intro units parts
  have hunits : units.riskConfig.maxPositionQuantity < |units.portfolioService.netOf "btc-usdt"| := by decide +kernel
  have hparts : parts.riskConfig.maxPositionQuantity < |parts.portfolioService.netOf "btc-usdt"| := by decide +kernel
  exact ⟨fun h => absurd (h _) (not_le.2 hunits), fun h => absurd (h _) (not_le.2 hparts)⟩

end Rounded

end Wall
