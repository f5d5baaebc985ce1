import Wall.RoundedEngine

/-!
# The fills of the rounded loops

What one fill does to a book, and what a loop does fill by fill.  A loop's fills are listed as they were found
(`loopSteps`): the resting order, its record and the quantity the loop had left, each before the fill.  A relation
between where a loop starts, the fills it makes and where it ends is proved once for an empty loop and once for a fill
in front of a loop (`fillLoop_rule`), and for the levels of a market event by putting loops behind one another
(`processLevels_rule`).  None of this asks anything of `rnd`; that a loop ends, with one fill more than there
are orders at most, needs that differences of equal numbers stay `0` (`pending_afterFill`).
-/

namespace Wall

open KeyedMap FirstMatch

namespace Rounded

variable (rnd : ℚ → ℚ)

/-- One fill of a loop, as the loop finds it: the order it fills, the record of that order and what the loop has left
to execute. -/
structure LoopStep where
  resting : RestingOrder
  record : Option OrderRecord
  available : ℚ

namespace LoopStep

def executed (step : LoopStep) : ℚ := min step.available step.resting.remainingQuantity

/-- What the book keeps of the order. -/
def remaining (step : LoopStep) : ℚ := max 0 (rnd (step.resting.remainingQuantity - step.executed))

end LoopStep

/-- The fill that a loop makes next when `resting` is the best order. -/
def nextStep (loop : FillLoop) (resting : RestingOrder) : LoopStep where
  resting := resting
  record := loop.orders[resting.orderId]?
  available := loop.quantity

/-- The fills that `fillLoop` makes. -/
def loopSteps (rule : FillRule) : Nat → FillLoop → List LoopStep
  | 0, _ => []
  | fuel + 1, loop =>
    if loop.quantity > quantityTolerance rnd then
      match loop.book.bestOrder rule.side with
      | none => []
      | some resting =>
        if rule.stops resting then []
        else
          match applyFill rnd loop.book resting.orderId (nextStep loop resting).executed with
          | (false, _) => []
          | (true, book) => nextStep loop resting ::
            loopSteps rule fuel (afterFill rnd loop rule resting (nextStep loop resting).executed book)
    else []

/-- The fills that `processLevels` makes. -/
def levelSteps (rule : BookLevel → FillRule) : List BookLevel → FillLoop → List LoopStep
  | [], _ => []
  | level :: levels, loop =>
    let fuel := loopFuel level.quantity loop.book
    let start := { loop with quantity := level.quantity }
    loopSteps rnd (rule level) fuel start ++
      levelSteps rule levels (fillLoop rnd (rule level) fuel start).1

/-- The fills that the matching loop of `submit` makes. -/
def submitSteps (engine : MatchingEngine) (request : OrderRequest) : List LoopStep :=
  loopSteps rnd (submitRule request engine.issuedOrderId)
    (loopFuel request.quantity (engine.bookFor request.instrument)) (engine.submitStart request)

/-- The fills that the loops of `process_market_event` make. -/
def marketSteps (engine : MatchingEngine) (event : MarketEvent) (book : OrderBook) : List LoopStep :=
  let start := marketStart engine book
  levelSteps rnd (processBuyRestingOrders rnd event) event.askLevels start ++
    levelSteps rnd (processSellRestingOrders rnd event) event.bidLevels
      (processLevels rnd (processBuyRestingOrders rnd event) event.askLevels start).1

/-! ### The book -/

variable {rnd}

/-- A fill that the book accepts takes its order out, if at most the tolerance remains, and reduces it otherwise. -/
theorem applyFill_spec {book book' : OrderBook} (hb : book.Indexed) {o : RestingOrder} (ho : o ∈ book.resting)
    {executed : ℚ} (h : applyFill rnd book o.orderId executed = (true, book')) :
    quantityTolerance rnd < executed ∧ book'.Indexed ∧ book'.instrument = book.instrument ∧
      ∃ rest, book.resting = o ::ₘ rest ∧ book'.resting =
        if max 0 (rnd (o.remainingQuantity - executed)) ≤ quantityTolerance rnd then rest
        else { o with remainingQuantity := max 0 (rnd (o.remainingQuantity - executed)) } ::ₘ rest := by
  obtain ⟨price, q, -, hidx, hq, -, hfind⟩ := hb.locate ho
  obtain ⟨l₁, l₂, rfl, herase, hreplace⟩ := find?_split hfind
  by_cases hpos : executed ≤ quantityTolerance rnd
  · rw [applyFill, if_pos hpos] at h
    cases h
  · by_cases hle : executed > rnd (o.remainingQuantity + quantityTolerance rnd)
    · simp only [applyFill, hpos, hidx, hq, hfind, hle, ↓reduceIte, Prod.mk.injEq, Bool.false_eq_true,
        false_and] at h
    · simp only [applyFill, hpos, hidx, hq, hfind, hle, herase, hreplace, ↓reduceIte] at h
      refine ⟨not_le.1 hpos, ?_⟩
      split at h
      · rename_i hrem
        obtain ⟨hindexed, hinst, hrest⟩ := hb.removed hq (Prod.mk.inj h).2.symm
        exact ⟨hindexed, hinst, _, hrest, by rw [if_pos hrem]⟩
      · rename_i hrem
        obtain ⟨hindexed, hinst, rest, hrest, hrest'⟩ := hb.replaced hq _ (Prod.mk.inj h).2.symm
        exact ⟨hindexed, hinst, rest, hrest, by rw [if_neg hrem, hrest']⟩

/-- The order that `add_order` rests. -/
def restingOrderOf (rnd : ℚ → ℚ) (book : OrderBook) (request : OrderRequest) (orderId clientOrderId : String)
    (filledQuantity : ℚ) : RestingOrder :=
  { orderId := orderId
    clientOrderId := clientOrderId
    request := request
    remainingQuantity := max 0 (rnd (request.quantity - filledQuantity))
    sequenceNumber := book.nextSequenceNumber }

theorem addOrder_of_false {book book' : OrderBook} {request : OrderRequest} {orderId clientOrderId : String}
    {filledQuantity : ℚ} (h : addOrder rnd book request orderId clientOrderId filledQuantity = (false, book')) :
    book' = book := by
  unfold addOrder at h
  split at h
  · exact (Prod.mk.inj h).2.symm
  · cases h

theorem isRequestCompatible_iff {book : OrderBook} {request : OrderRequest} {orderId clientOrderId : String}
    {filledQuantity : ℚ} : isRequestCompatible rnd book request orderId clientOrderId filledQuantity = true ↔
      orderId ≠ "" ∧ clientOrderId ≠ "" ∧ request.instrument.instrumentId = book.instrument.instrumentId ∧
      request.type = .limit ∧ (∃ price, request.price = some price ∧ 0 < price) ∧ 0 < request.quantity ∧
      0 ≤ filledQuantity ∧ filledQuantity < rnd (request.quantity - quantityTolerance rnd) ∧
      book.orderIndex[orderId]? = none := by
  unfold isRequestCompatible
  cases hp : request.price with
  | none => simp
  | some price =>
    simp [← Option.not_isSome_iff_eq_none, Std.ExtTreeMap.isSome_getElem?_eq_contains]
    tauto

theorem addOrder_spec {book book' : OrderBook} (hb : book.Indexed) {request : OrderRequest}
    {orderId clientOrderId : String} {filledQuantity : ℚ}
    (h : addOrder rnd book request orderId clientOrderId filledQuantity = (true, book')) :
    book'.Indexed ∧ book'.instrument = book.instrument ∧ 0 ≤ filledQuantity ∧
      filledQuantity < rnd (request.quantity - quantityTolerance rnd) ∧
      book'.resting = restingOrderOf rnd book request orderId clientOrderId filledQuantity ::ₘ book.resting := by
  unfold addOrder at h
  split at h
  · cases h
  · rename_i hcompat
    rw [Bool.not_eq_true, Bool.not_eq_false'] at hcompat
    obtain ⟨-, -, hinst, -, ⟨price, hprice, -⟩, -, h0, hlt, hidx⟩ := isRequestCompatible_iff.1 hcompat
    have hfresh : ∀ x ∈ book.resting, x.orderId ≠ orderId := by
      intro x hx hid
      obtain ⟨p, -, -, hi, -⟩ := hb.locate hx
      rw [hid, hidx] at hi
      cases hi
    obtain rfl := (Prod.mk.inj h).2
    obtain ⟨hindexed, hinst', hrest⟩ := hb.added (request.price.getD 0)
      (o := restingOrderOf rnd book request orderId clientOrderId filledQuantity) rfl
      ⟨rfl, by rw [hprice]; exact hprice, by simpa [restingOrderOf] using hinst, Nat.lt_succ_self _⟩ rfl hfresh
    exact ⟨hindexed, hinst', h0, hlt, hrest⟩

/-! ### The loops -/

/-- A relation that holds of a loop that makes no fill, and that a fill in front of a loop keeps, holds of `fillLoop`
and its fills. -/
theorem fillLoop_rule {rule : FillRule} {R : FillLoop → List LoopStep → FillLoop → Prop}
    (hnil : ∀ loop, R loop [] loop)
    (hcons : ∀ (loop : FillLoop) (resting : RestingOrder) (book : OrderBook) (steps : List LoopStep)
      (loop' : FillLoop), quantityTolerance rnd < loop.quantity → loop.book.bestOrder rule.side = some resting →
      rule.stops resting = false →
      applyFill rnd loop.book resting.orderId (nextStep loop resting).executed = (true, book) →
      R (afterFill rnd loop rule resting (nextStep loop resting).executed book) steps loop' →
      R loop (nextStep loop resting :: steps) loop')
    (fuel : Nat) (loop : FillLoop) : R loop (loopSteps rnd rule fuel loop) (fillLoop rnd rule fuel loop).1 := by
  induction fuel generalizing loop with
  | zero => exact hnil loop
  | succ fuel ih =>
    rw [loopSteps, fillLoop]
    have hexecuted : ∀ resting : RestingOrder,
        min loop.quantity resting.remainingQuantity = (nextStep loop resting).executed := fun _ => rfl
    by_cases hquantity : loop.quantity > quantityTolerance rnd
    · rw [if_pos hquantity, if_pos hquantity]
      cases hbest : loop.book.bestOrder rule.side with
      | none => exact hnil loop
      | some resting =>
        simp only [hexecuted]
        by_cases hstops : rule.stops resting = true
        · rw [if_pos hstops, if_pos hstops]
          exact hnil loop
        · rw [if_neg hstops, if_neg hstops]
          rcases hfill : applyFill rnd loop.book resting.orderId (nextStep loop resting).executed with ⟨_ | _, book⟩
          · exact hnil loop
          · exact hcons loop resting book _ _ hquantity hbest (Bool.eq_false_iff.2 hstops) hfill (ih _)
    · rw [if_neg hquantity, if_neg hquantity]
      exact hnil loop

/-- A relation that holds of each level's loop, and that loops behind one another keep, holds of `processLevels` and
its fills. -/
theorem processLevels_rule {rule : BookLevel → FillRule} {R : FillLoop → List LoopStep → FillLoop → Prop}
    (hnil : ∀ loop, R loop [] loop)
    (happend : ∀ loop steps loop' steps' loop'', R loop steps loop' → R loop' steps' loop'' →
      R loop (steps ++ steps') loop'')
    (hquantity : ∀ (loop : FillLoop) (quantity : ℚ) (steps : List LoopStep) (loop' : FillLoop),
      R { loop with quantity := quantity } steps loop' → R loop steps loop')
    (hlevel : ∀ level fuel loop,
      R loop (loopSteps rnd (rule level) fuel loop) (fillLoop rnd (rule level) fuel loop).1)
    (levels : List BookLevel) (loop : FillLoop) :
    R loop (levelSteps rnd rule levels loop) (processLevels rnd rule levels loop).1 := by
  induction levels generalizing loop with
  | nil => exact hnil loop
  | cons level levels ih => exact happend _ _ _ _ _ (hquantity _ _ _ _ (hlevel level _ _)) (ih _)

/-! ### How many fills a loop makes -/

/-- The fills that a loop can still make: one for each order that rests, and one that uses the quantity up. -/
def pending (rnd : ℚ → ℚ) (loop : FillLoop) : Nat :=
  loop.book.resting.card + if quantityTolerance rnd < loop.quantity then 1 else 0

private theorem pending_le (loop : FillLoop) : pending rnd loop ≤ loop.book.resting.card + 1 := by
  unfold pending
  split <;> omega

section Pending

variable (h0 : rnd 0 = 0) (htol : 0 ≤ quantityTolerance rnd)
include h0 htol

/-- A fill takes its order out of the book or uses the quantity up. -/
theorem pending_afterFill {rule : FillRule} {loop : FillLoop} (hb : loop.book.Indexed) {resting : RestingOrder}
    {book : OrderBook} (hquantity : quantityTolerance rnd < loop.quantity)
    (hbest : loop.book.bestOrder rule.side = some resting)
    (hfill : applyFill rnd loop.book resting.orderId (nextStep loop resting).executed = (true, book)) :
    pending rnd (afterFill rnd loop rule resting (nextStep loop resting).executed book) < pending rnd loop := by
  obtain ⟨-, -, -, rest, hrest, hrest'⟩ := applyFill_spec hb (hb.bestOrder_spec hbest).1 hfill
  have hleft : (afterFill rnd loop rule resting (nextStep loop resting).executed book).quantity =
      max 0 (rnd (loop.quantity - (nextStep loop resting).executed)) := rfl
  have hbook : (afterFill rnd loop rule resting (nextStep loop resting).executed book).book = book := rfl
  rw [pending, pending, hbook, hleft, if_pos hquantity, hrest, Multiset.card_cons]
  rcases le_total resting.remainingQuantity loop.quantity with hle | hle
  · have hwhole : (nextStep loop resting).executed = resting.remainingQuantity := min_eq_right hle
    rw [hwhole, sub_self, h0, max_self, if_pos htol] at hrest'
    rw [hrest']
    split <;> omega
  · have hwhole : (nextStep loop resting).executed = loop.quantity := min_eq_left hle
    rw [hwhole, sub_self, h0, max_self, if_neg (not_lt.2 htol), hrest']
    split
    · omega
    · rw [Multiset.card_cons]
      omega

/-- The fuel of a loop suffices. -/
theorem fillLoop_ne_outOfFuel (rule : FillRule) (fuel : Nat) (loop : FillLoop) (hb : loop.book.Indexed)
    (hfuel : pending rnd loop < fuel) : (fillLoop rnd rule fuel loop).2 ≠ .outOfFuel := by
  induction fuel generalizing loop with
  | zero => exact absurd hfuel (Nat.not_lt_zero _)
  | succ fuel ih =>
    rw [fillLoop]
    split
    · rename_i hquantity
      split
      · simp
      · rename_i resting hbest
        split
        · simp
        · dsimp only
          split
          · simp
          · rename_i book hfill
            have hb' := (applyFill_spec hb (hb.bestOrder_spec hbest).1 hfill).2.1
            have hless := pending_afterFill h0 htol hb hquantity hbest hfill
            exact ih _ hb' (Nat.lt_of_lt_of_le hless (Nat.lt_succ_iff.1 hfuel))
    · simp

theorem fillLoop_loopFuel (rule : FillRule) (loop : FillLoop) (hb : loop.book.Indexed) :
    (fillLoop rnd rule (loopFuel loop.quantity loop.book) loop).2 ≠ .outOfFuel := by
  refine fillLoop_ne_outOfFuel h0 htol rule _ loop hb ((pending_le loop).trans_lt ?_)
  rw [loopFuel, Wall.loopFuel, ← hb.count]
  omega

/-- Beside the fills that take an order out a loop makes one at most. -/
private theorem length_loopSteps_le (rule : FillRule) (fuel : Nat) (loop : FillLoop) (hb : loop.book.Indexed) :
    (fillLoop rnd rule fuel loop).1.book.Indexed ∧
      (loopSteps rnd rule fuel loop).length + (fillLoop rnd rule fuel loop).1.book.resting.card ≤
        loop.book.resting.card + 1 := by
  have hpending : loop.book.Indexed → (fillLoop rnd rule fuel loop).1.book.Indexed ∧
      (loopSteps rnd rule fuel loop).length + pending rnd (fillLoop rnd rule fuel loop).1 ≤ pending rnd loop := by
    refine fillLoop_rule (R := fun loop steps loop' => loop.book.Indexed →
      loop'.book.Indexed ∧ steps.length + pending rnd loop' ≤ pending rnd loop) ?_ ?_ fuel loop
    · exact fun loop hb => ⟨hb, (Nat.zero_add _).le⟩
    · intro loop resting book steps loop' hquantity hbest _ hfill ih hb
      have hless := pending_afterFill h0 htol hb hquantity hbest hfill
      obtain ⟨hb', hle⟩ := ih (applyFill_spec hb (hb.bestOrder_spec hbest).1 hfill).2.1
      refine ⟨hb', ?_⟩
      rw [List.length_cons]
      omega
  obtain ⟨hb', hle⟩ := hpending hb
  exact ⟨hb', (Nat.add_le_add_left (Nat.le_add_right _ _) _).trans (hle.trans (pending_le loop))⟩

/-- Loops behind one another make, beside the fills that take an order out, one for each level. -/
private theorem length_levelSteps_le (rule : BookLevel → FillRule) (levels : List BookLevel) {loop : FillLoop}
    (hb : loop.book.Indexed) :
    (processLevels rnd rule levels loop).1.book.Indexed ∧ LoopStop.outOfFuel ∉ (processLevels rnd rule levels loop).2 ∧
      (levelSteps rnd rule levels loop).length + (processLevels rnd rule levels loop).1.book.resting.card ≤
        loop.book.resting.card + levels.length := by
  induction levels generalizing loop with
  | nil => exact ⟨hb, List.not_mem_nil, (Nat.zero_add _).le⟩
  | cons level levels ih =>
    obtain ⟨hb', hle⟩ := length_loopSteps_le h0 htol (rule level) (loopFuel level.quantity loop.book)
      { loop with quantity := level.quantity } hb
    have hstop := fillLoop_loopFuel h0 htol (rule level) { loop with quantity := level.quantity } hb
    obtain ⟨hb'', hstops, hrest⟩ := ih hb'
    refine ⟨hb'', ?_, ?_⟩
    · exact fun hmem => (List.mem_cons.1 hmem).elim (fun heq => hstop heq.symm) hstops
    · have hlevels : (processLevels rnd rule (level :: levels) loop).1 = (processLevels rnd rule levels
          (fillLoop rnd (rule level) (loopFuel level.quantity loop.book)
            { loop with quantity := level.quantity }).1).1 := rfl
      rw [levelSteps, hlevels, List.length_append, List.length_cons]
      dsimp only at hrest hle ⊢
      omega

/-- The loop of `submit` ends by itself, with at most one fill more than there are orders. -/
theorem submitLoop_ends (engine : MatchingEngine) (request : OrderRequest)
    (hb : (engine.bookFor request.instrument).Indexed) :
    (submitLoop rnd engine request).2 ≠ .outOfFuel ∧
      (submitSteps rnd engine request).length ≤ (engine.bookFor request.instrument).resting.card + 1 :=
  ⟨fillLoop_loopFuel h0 htol _ (engine.submitStart request) hb,
    (Nat.le_add_right _ _).trans (length_loopSteps_le h0 htol _ _ (engine.submitStart request) hb).2⟩

/-- The loops of `process_market_event` end by themselves, with at most one fill for each order and each level. -/
theorem marketLoops_end (engine : MatchingEngine) (event : MarketEvent) {book : OrderBook} (hb : book.Indexed) :
    LoopStop.outOfFuel ∉ (marketLoops rnd engine event book).2 ∧
      (marketSteps rnd engine event book).length ≤
        book.resting.card + (event.askLevels.length + event.bidLevels.length) := by
  obtain ⟨hb', hbuys, hle⟩ := length_levelSteps_le h0 htol (processBuyRestingOrders rnd event) event.askLevels
    (show (marketStart engine book).book.Indexed from hb)
  obtain ⟨-, hsells, hle'⟩ := length_levelSteps_le h0 htol (processSellRestingOrders rnd event) event.bidLevels hb'
  refine ⟨fun hmem => (List.mem_append.1 hmem).elim hbuys hsells, ?_⟩
  have hstart : (marketStart engine book).book = book := rfl
  rw [hstart] at hle
  rw [marketSteps, List.length_append]
  omega

end Pending

end Rounded

end Wall
