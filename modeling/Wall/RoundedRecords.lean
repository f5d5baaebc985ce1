import Wall.RoundedFills
import Wall.EngineRuns

/-!
# Records behind the rounded books

In rounded arithmetic what an order rests with and what its record says need not add up to its quantity, so the book
and the record can disagree about whether the order is complete.  What later calls rely on is only that every resting
order has an open record (`TracksBook`).  A fill keeps this unless it leaves the order in the book and closes its
record; `LoopStep.KeepsOpen` and `RestsOpen` say that this does not happen, for a fill and for the order that `submit`
rests.  Then a call moves records forward only, and fills the new order and open orders alone (`StepEffect`).

All that is asked of `rnd` is that it keeps the order of numbers and `0`.
-/

namespace Wall

open KeyedMap

namespace Rounded

/-- The record of an order that can still execute, of instrument `i`, with numbers that rounding keeps. -/
structure OpenRecord (rnd : ℚ → ℚ) (i : String) (r : OrderRecord) : Prop where
  instrument_eq : r.instrumentId = i
  isOpen : r.status.isOpen = true
  quantity_fixed : rnd r.quantity = r.quantity
  filled_fixed : rnd r.filledQuantity = r.filledQuantity
  filled_le : r.filledQuantity ≤ r.quantity

/-- The book is indexed, and its orders have open records. -/
structure TracksBook (rnd : ℚ → ℚ) (book : OrderBook) (orders : StringMap OrderRecord) : Prop where
  indexed : book.Indexed
  tracked : ∀ o ∈ book.resting, ∃ r, orders[o.orderId]? = some r ∧
    OpenRecord rnd book.instrument.instrumentId r

section Records

variable {rnd : ℚ → ℚ} {i : String} {r : OrderRecord}

theorem tolerance_nonneg (hrnd : Monotone rnd) (h0 : rnd 0 = 0) : 0 ≤ quantityTolerance rnd := by
  rw [← h0]
  exact hrnd kQuantityTolerance_pos.le

private theorem fillRecord_filled_cases (rnd : ℚ → ℚ) (r : OrderRecord) (executed : ℚ) :
    (fillRecord rnd r executed).filledQuantity = r.quantity ∨
      (fillRecord rnd r executed).filledQuantity = rnd (r.filledQuantity + executed) ∧
        rnd (r.filledQuantity + executed) ≤ r.quantity := by
  unfold fillRecord
  dsimp only
  split
  · exact .inl rfl
  · rcases le_total r.quantity (rnd (r.filledQuantity + executed)) with hle | hle
    · exact .inl (min_eq_left hle)
    · exact .inr ⟨min_eq_right hle, hle⟩

/-- A fill moves an open record forward. -/
private theorem OpenRecord.evolves_fillRecord (h : OpenRecord rnd i r) (hrnd : Monotone rnd) {executed : ℚ}
    (hexecuted : 0 ≤ executed) : r.Evolves (fillRecord rnd r executed) := by
  refine ⟨rfl, ?_, fun ht => ?_⟩
  · rcases fillRecord_filled_cases rnd r executed with heq | ⟨heq, -⟩
    · rw [heq]
      exact h.filled_le
    · rw [heq]
      calc r.filledQuantity = rnd r.filledQuantity := h.filled_fixed.symm
        _ ≤ rnd (r.filledQuantity + executed) := hrnd (le_add_of_nonneg_right hexecuted)
  · rw [OrderStatus.isOpen_not_isTerminal h.isOpen] at ht
    cases ht

/-- A fill that does not close an open record leaves an open record. -/
theorem OpenRecord.fillRecord (h : OpenRecord rnd i r) (hidem : ∀ x, rnd (rnd x) = rnd x) {executed : ℚ}
    (hopen : (fillRecord rnd r executed).status ≠ .filled) : OpenRecord rnd i (fillRecord rnd r executed) := by
  have hbounds : rnd (Rounded.fillRecord rnd r executed).filledQuantity =
      (Rounded.fillRecord rnd r executed).filledQuantity ∧
      (Rounded.fillRecord rnd r executed).filledQuantity ≤ r.quantity := by
    rcases fillRecord_filled_cases rnd r executed with heq | ⟨heq, hle⟩
    · rw [heq]
      exact ⟨h.quantity_fixed, le_refl _⟩
    · rw [heq]
      exact ⟨hidem _, hle⟩
  refine ⟨h.instrument_eq, ?_, h.quantity_fixed, hbounds.1, hbounds.2⟩
  unfold Rounded.fillRecord at hopen ⊢
  dsimp only at hopen ⊢
  generalize (if |rnd (min r.quantity (rnd (r.filledQuantity + executed)) - r.quantity)| ≤ quantityTolerance rnd
    then r.quantity else min r.quantity (rnd (r.filledQuantity + executed))) = filled at hopen ⊢
  split at hopen
  · exact absurd rfl hopen
  · rename_i hfilled
    rw [if_neg hfilled]
    rfl

private theorem applyFillToOrder_of_some {orders : StringMap OrderRecord} {id : String} (hr : orders[id]? = some r)
    {executed : ℚ} (hexecuted : quantityTolerance rnd < executed) :
    applyFillToOrder rnd orders id executed = orders.insert id (fillRecord rnd r executed) := by
  simp only [applyFillToOrder, hr, not_le.2 hexecuted, ↓reduceIte]

end Records

/-! ### Fills that leave book and record in agreement -/

/-- If the fill leaves the order in the book, it leaves its record open. -/
def LoopStep.KeepsOpen (rnd : ℚ → ℚ) (step : LoopStep) : Prop :=
  quantityTolerance rnd < step.remaining rnd → ∀ r ∈ step.record, (fillRecord rnd r step.executed).status ≠ .filled

/-- If the book takes what `submit` has left of a request, the filled quantity is not within the tolerance of the
request's. -/
def RestsOpen (rnd : ℚ → ℚ) (engine : MatchingEngine) (request : OrderRequest) : Prop :=
  let loop := (submitLoop rnd engine request).1
  let filled := submitFilled rnd request loop
  quantityTolerance rnd < loop.quantity → filled < rnd (request.quantity - quantityTolerance rnd) →
    quantityTolerance rnd < |rnd (filled - request.quantity)|

/-- No order that the call leaves in a book is closed by it. -/
def KeepsOpen (rnd : ℚ → ℚ) (engine : MatchingEngine) : EngineOp → Prop
  | .submit request => request.Acceptable →
    (∀ step ∈ submitSteps rnd engine request, step.KeepsOpen rnd) ∧ RestsOpen rnd engine request
  | .processMarketEvent event => ∀ book ∈ engine.books[event.instrument.instrumentId]?,
    ∀ step ∈ marketSteps rnd engine event book, step.KeepsOpen rnd
  | _ => True

/-! ### The loops -/

/-- What a loop does to a book and the records; `origin` relates the id of the order filled and the fill emitted. -/
structure LoopEffect (rnd : ℚ → ℚ) (origin : String → FillEvent → Prop) (loop loop' : FillLoop) : Prop where
  tracks : TracksBook rnd loop'.book loop'.orders
  instrument_eq : loop'.book.instrument = loop.book.instrument
  resting_from : ∀ x ∈ loop'.book.resting, ∃ o ∈ loop.book.resting, o.orderId = x.orderId
  evolve : OrdersEvolve loop.orders loop'.orders
  untouched : ∀ id, (∀ o ∈ loop.book.resting, o.orderId ≠ id) → loop'.orders[id]? = loop.orders[id]?
  fills : ∀ fill ∈ loop'.fills, fill ∈ loop.fills ∨ ∃ o ∈ loop.book.resting, origin o.orderId fill

namespace LoopEffect

variable {rnd : ℚ → ℚ} {origin : String → FillEvent → Prop} {loop loop₁ loop₂ : FillLoop}

theorem refl (h : TracksBook rnd loop.book loop.orders) : LoopEffect rnd origin loop loop :=
  ⟨h, rfl, fun x hx => ⟨x, hx, rfl⟩, .refl _, fun _ _ => rfl, fun _ hfill => .inl hfill⟩

theorem trans (h₁ : LoopEffect rnd origin loop loop₁) (h₂ : LoopEffect rnd origin loop₁ loop₂) :
    LoopEffect rnd origin loop loop₂ where
  tracks := h₂.tracks
  instrument_eq := h₂.instrument_eq.trans h₁.instrument_eq
  resting_from x hx := by
    obtain ⟨y, hy, hxy⟩ := h₂.resting_from x hx
    obtain ⟨o, ho, hoy⟩ := h₁.resting_from y hy
    exact ⟨o, ho, hoy.trans hxy⟩
  evolve := h₁.evolve.trans h₂.evolve
  untouched id hid := by
    refine (h₂.untouched id fun x hx hxid => ?_).trans (h₁.untouched id hid)
    obtain ⟨o, ho, hox⟩ := h₁.resting_from x hx
    exact hid o ho (hox.trans hxid)
  fills fill hfill := by
    rcases h₂.fills fill hfill with hfill | ⟨x, hx, horigin⟩
    · exact h₁.fills fill hfill
    · obtain ⟨o, ho, hox⟩ := h₁.resting_from x hx
      exact .inr ⟨o, ho, hox ▸ horigin⟩

/-- Records of other instruments are left alone. -/
theorem sameOutside (h : LoopEffect rnd origin loop loop₁) (hloop : TracksBook rnd loop.book loop.orders) :
    SameOutside loop.book.instrument.instrumentId loop.orders loop₁.orders := by
  intro id r hr
  by_cases hid : ∃ o ∈ loop.book.resting, o.orderId = id
  · -- a resting order's record is of the book's instrument, before and after
    obtain ⟨o, ho, rfl⟩ := hid
    obtain ⟨r₀, hr₀, hopen⟩ := hloop.tracked o ho
    obtain ⟨r₁, hr₁, he⟩ := h.evolve _ r₀ hr₀
    have hi : r₁.instrumentId = loop.book.instrument.instrumentId := by
      rw [he.same]
      exact hopen.instrument_eq
    rw [hr₀, hr₁]
    constructor
    · rintro ⟨⟩
      exact absurd hi hr
    · rintro ⟨⟩
      exact absurd hopen.instrument_eq hr
  · push Not at hid
    rw [h.untouched id hid]

end LoopEffect

section Loops

variable {rnd : ℚ → ℚ} (hrnd : Monotone rnd) (h0 : rnd 0 = 0) (hidem : ∀ x, rnd (rnd x) = rnd x)
  {origin : String → FillEvent → Prop}
include hrnd h0 hidem

/-- One fill that keeps book and record in agreement. -/
theorem LoopEffect.afterFill {loop : FillLoop} (h : TracksBook rnd loop.book loop.orders) (rule : FillRule)
    (hrule : ∀ n (o : RestingOrder) executed, origin o.orderId (rule.fill n o executed))
    {resting : RestingOrder} (hbest : loop.book.bestOrder rule.side = some resting) {book : OrderBook}
    (hfill : applyFill rnd loop.book resting.orderId (nextStep loop resting).executed = (true, book))
    (hkeeps : (nextStep loop resting).KeepsOpen rnd) :
    LoopEffect rnd origin loop (afterFill rnd loop rule resting (nextStep loop resting).executed book) := by
  set executed := (nextStep loop resting).executed with hexecuted
  have hmem := (h.indexed.bestOrder_spec hbest).1
  obtain ⟨hpos, hindexed, hinst, rest, hrest, hrest'⟩ := applyFill_spec h.indexed hmem hfill
  obtain ⟨r, hr, hopen⟩ := h.tracked resting hmem
  have horders : (Rounded.afterFill rnd loop rule resting executed book).orders =
      loop.orders.insert resting.orderId (fillRecord rnd r executed) := applyFillToOrder_of_some hr hpos
  have hnodup := h.indexed.nodup
  rw [hrest, Multiset.map_cons, Multiset.nodup_cons] at hnodup
  -- the other resting orders have other ids, so the fill does not touch their records
  have hothers : ∀ x ∈ rest, ∃ r', (loop.orders.insert resting.orderId (fillRecord rnd r executed))[x.orderId]? =
      some r' ∧ OpenRecord rnd book.instrument.instrumentId r' := by
    intro x hx
    have hne : resting.orderId ≠ x.orderId := fun hid => hnodup.1 (hid ▸ Multiset.mem_map_of_mem _ hx)
    rw [KeyedMap.getElem?_insert, if_neg hne, hinst]
    exact h.tracked x (hrest ▸ Multiset.mem_cons_of_mem hx)
  refine ⟨⟨hindexed, fun x hx => ?_⟩, hinst, fun x hx => ?_, ?_, fun id hid => ?_, fun fill hfill => ?_⟩
  · change x ∈ book.resting at hx
    rw [horders]
    change ∃ r', _ ∧ OpenRecord rnd book.instrument.instrumentId r'
    rw [hrest'] at hx
    split at hx
    · exact hothers x hx
    · rename_i hremaining
      rcases Multiset.mem_cons.1 hx with rfl | hx
      · -- the order stays, so its record is still open
        refine ⟨fillRecord rnd r executed, ?_, ?_⟩
        · rw [KeyedMap.getElem?_insert, if_pos rfl]
        · rw [hinst]
          exact hopen.fillRecord hidem (hkeeps (not_le.1 hremaining) r hr)
      · exact hothers x hx
  · change x ∈ book.resting at hx
    rw [hrest'] at hx
    split at hx
    · exact ⟨x, hrest ▸ Multiset.mem_cons_of_mem hx, rfl⟩
    · rcases Multiset.mem_cons.1 hx with rfl | hx
      · exact ⟨resting, hmem, rfl⟩
      · exact ⟨x, hrest ▸ Multiset.mem_cons_of_mem hx, rfl⟩
  · rw [horders]
    have hnonneg : 0 ≤ executed := (tolerance_nonneg hrnd h0).trans hpos.le
    exact OrdersEvolve.insert_old hr (hopen.evolves_fillRecord hrnd hnonneg)
  · rw [horders, KeyedMap.getElem?_insert, if_neg (hid resting hmem)]
  · rcases List.mem_append.1 hfill with hfill | hfill
    · exact .inl hfill
    · rw [List.mem_singleton.1 hfill]
      exact .inr ⟨resting, hmem, hrule _ _ _⟩

theorem fillLoop_effect (rule : FillRule)
    (hrule : ∀ n (o : RestingOrder) executed, origin o.orderId (rule.fill n o executed)) (fuel : Nat) (loop : FillLoop)
    (h : TracksBook rnd loop.book loop.orders)
    (hkeeps : ∀ step ∈ loopSteps rnd rule fuel loop, step.KeepsOpen rnd) :
    LoopEffect rnd origin loop (fillLoop rnd rule fuel loop).1 := by
  refine fillLoop_rule (R := fun loop steps loop' => TracksBook rnd loop.book loop.orders →
    (∀ step ∈ steps, step.KeepsOpen rnd) → LoopEffect rnd origin loop loop') (fun loop h _ => .refl h) ?_ fuel loop h
    hkeeps
  intro loop resting book steps loop' _ hbest _ hfill ih h hkeeps
  have hfirst := LoopEffect.afterFill hrnd h0 hidem h rule hrule hbest hfill
    (hkeeps _ (List.mem_cons_self ..))
  exact hfirst.trans (ih hfirst.tracks fun step hstep => hkeeps step (List.mem_cons_of_mem _ hstep))

private theorem processLevels_effect (rule : BookLevel → FillRule)
    (hrule : ∀ level n (o : RestingOrder) executed, origin o.orderId ((rule level).fill n o executed))
    (levels : List BookLevel) (loop : FillLoop)
    (h : TracksBook rnd loop.book loop.orders)
    (hkeeps : ∀ step ∈ levelSteps rnd rule levels loop, step.KeepsOpen rnd) :
    LoopEffect rnd origin loop (processLevels rnd rule levels loop).1 := by
  refine processLevels_rule (R := fun loop steps loop' => TracksBook rnd loop.book loop.orders →
    (∀ step ∈ steps, step.KeepsOpen rnd) → LoopEffect rnd origin loop loop') (fun loop h _ => .refl h) ?_ ?_ ?_ levels
    loop h hkeeps
  · intro loop steps loop' steps' loop'' h₁ h₂ h hkeeps
    have hfirst := h₁ h fun step hstep => hkeeps step (List.mem_append_left _ hstep)
    exact hfirst.trans (h₂ hfirst.tracks fun step hstep => hkeeps step (List.mem_append_right _ hstep))
  · intro loop quantity steps loop' heffect h hkeeps
    obtain ⟨htracks, hinst, hfrom, hevolve, huntouched, hfills⟩ := heffect h hkeeps
    exact ⟨htracks, hinst, hfrom, hevolve, huntouched, hfills⟩
  · exact fun level fuel loop => fillLoop_effect hrnd h0 hidem (rule level) (hrule level) fuel loop

theorem marketLoops_effect (engine : MatchingEngine) (event : MarketEvent) {book : OrderBook}
    (h : TracksBook rnd book engine.orders)
    (hkeeps : ∀ step ∈ marketSteps rnd engine event book, step.KeepsOpen rnd) :
    LoopEffect rnd (fun id fill => fill.orderId = id) (marketStart engine book)
      (marketLoops rnd engine event book).1 := by
  have hbuy : LoopEffect rnd (fun id fill => fill.orderId = id) (marketStart engine book) _ :=
    processLevels_effect hrnd h0 hidem (processBuyRestingOrders rnd event) (fun _ _ _ _ => rfl) event.askLevels _ h
      fun step hstep => hkeeps step (List.mem_append_left _ hstep)
  have hsell : LoopEffect rnd (fun id fill => fill.orderId = id) _ (marketLoops rnd engine event book).1 :=
    processLevels_effect hrnd h0 hidem (processSellRestingOrders rnd event) (fun _ _ _ _ => rfl) event.bidLevels _
      hbuy.tracks fun step hstep => hkeeps step (List.mem_append_right _ hstep)
  exact hbuy.trans hsell

end Loops

end Rounded

end Wall
