import Wall.BookInvariant
import Wall.MatchingEngine
import Mathlib.Data.List.Forall2

/-!
# What the matching loops do

Both matching paths of the engine do one thing over and over: they take the best order of a side and fill it with
more than the tolerance and at most what remains of it, in the book and in its record.  `Executes` is a chain of
such executions.  On a well-formed book every loop is one (`fillLoop_spec`, `processLevels_spec`): the book never
refuses a fill, the fuel never runs out, and the loop stops for a reason the later modules can use.
-/

namespace Wall

/-- One execution: the resting order as it stood, and the executed quantity. -/
structure Execution where
  resting : RestingOrder
  quantity : ℚ

/-- A chain of executions on a book and the order records. -/
inductive Executes :
    OrderBook → StringMap OrderRecord → List Execution → OrderBook → StringMap OrderRecord → Prop
  | nil (book : OrderBook) (orders : StringMap OrderRecord) : Executes book orders [] book orders
  | cons {book book₁ book₂ : OrderBook} {orders orders₂ : StringMap OrderRecord} {es : List Execution}
      {resting : RestingOrder} {executed : ℚ}
      (hbest : book.bestOrder resting.request.side = some resting)
      (hpos : kQuantityTolerance < executed) (hle : executed ≤ resting.remainingQuantity)
      (hfill : book.applyFill resting.orderId executed = (true, book₁))
      (htail : Executes book₁ (applyFillToOrder orders resting.orderId executed) es book₂ orders₂) :
      Executes book orders (⟨resting, executed⟩ :: es) book₂ orders₂

/-- The total of the executed quantities. -/
def executedQuantity (es : List Execution) : ℚ := (es.map Execution.quantity).sum

@[simp] theorem executedQuantity_nil : executedQuantity [] = 0 := rfl

@[simp] theorem executedQuantity_cons (e : Execution) (es : List Execution) :
    executedQuantity (e :: es) = e.quantity + executedQuantity es := by simp [executedQuantity]

namespace Executes

variable {book book₁ book₂ : OrderBook} {orders orders₁ orders₂ : StringMap OrderRecord} {es es' : List Execution}

theorem append (h : Executes book orders es book₁ orders₁) (h' : Executes book₁ orders₁ es' book₂ orders₂) :
    Executes book orders (es ++ es') book₂ orders₂ := by
  induction h with
  | nil => exact h'
  | cons hbest hpos hle hfill _ ih => exact .cons hbest hpos hle hfill (ih h')

theorem wf (h : Executes book orders es book₁ orders₁) (hb : book.Wf) :
    book₁.Wf ∧ book₁.instrument = book.instrument := by
  induction h with
  | nil => exact ⟨hb, rfl⟩
  | cons hbest hpos hle hfill _ ih =>
    have htol := kQuantityTolerance_pos
    obtain ⟨book', he, hwf, hinst, -⟩ :=
      OrderBook.applyFill_spec hb (hb.bestOrder_spec hbest).1 hpos (by linarith)
    rw [hfill, Prod.mk.injEq] at he
    obtain ⟨-, rfl⟩ := he
    exact ⟨(ih hwf).1, (ih hwf).2.trans hinst⟩

theorem quantity_pos (h : Executes book orders es book₁ orders₁) : ∀ e ∈ es, kQuantityTolerance < e.quantity := by
  induction h with
  | nil => simp
  | cons _ hpos _ _ _ ih =>
    intro e he
    rcases List.mem_cons.1 he with rfl | he
    · exact hpos
    · exact ih e he

/-- What holds of the resting orders and does not depend on their remaining quantities holds of the orders that are
executed and of those that are left. -/
theorem forall_resting {P : RestingOrder → Prop} (hP : ∀ o quantity, P o → P { o with remainingQuantity := quantity })
    (h : Executes book orders es book₁ orders₁) (hb : book.Wf) (hall : ∀ o ∈ book.resting, P o) :
    (∀ e ∈ es, P e.resting) ∧ ∀ o ∈ book₁.resting, P o := by
  induction h with
  | nil => exact ⟨by simp, hall⟩
  | @cons book book₁ book₂ orders orders₂ es resting executed hbest hpos hle hfill _ ih =>
    have htol := kQuantityTolerance_pos
    have hmem := (hb.bestOrder_spec hbest).1
    obtain ⟨book', he, hwf, -, rest, hrest, hrest'⟩ := OrderBook.applyFill_spec hb hmem hpos (by linarith)
    rw [hfill, Prod.mk.injEq] at he
    obtain ⟨-, rfl⟩ := he
    have hothers : ∀ o ∈ rest, P o := fun o ho => hall o (hrest ▸ Multiset.mem_cons_of_mem ho)
    have hnext : ∀ o ∈ book₁.resting, P o := by
      intro o ho
      rw [hrest'] at ho
      split at ho
      · exact hothers o ho
      · rcases Multiset.mem_cons.1 ho with rfl | ho
        · exact hP _ _ (hall _ hmem)
        · exact hothers o ho
    refine ⟨fun e he => ?_, (ih hwf hnext).2⟩
    rcases List.mem_cons.1 he with rfl | he
    · exact hall _ hmem
    · exact (ih hwf hnext).1 e he

/-- Executions only take from the resting orders: those they fill and those they leave were all resting before. -/
theorem resting_from (h : Executes book orders es book₁ orders₁) (hb : book.Wf) :
    (∀ e ∈ es, ∃ o ∈ book.resting, o.orderId = e.resting.orderId ∧ o.request = e.resting.request) ∧
    ∀ x ∈ book₁.resting, ∃ o ∈ book.resting, o.orderId = x.orderId ∧ o.request = x.request :=
  h.forall_resting (P := fun x => ∃ o ∈ book.resting, o.orderId = x.orderId ∧ o.request = x.request)
    (fun _ _ hx => hx) hb fun o ho => ⟨o, ho, rfl, rfl⟩

theorem executedQuantity_nonneg (h : Executes book orders es book₁ orders₁) : 0 ≤ executedQuantity es := by
  refine List.sum_nonneg fun x hx => ?_
  obtain ⟨e, he, rfl⟩ := List.mem_map.1 hx
  exact (kQuantityTolerance_pos.trans (h.quantity_pos e he)).le

end Executes

theorem forall₂_exists_left {α β : Type*} {R : α → β → Prop} {l : List α} {l' : List β} (h : List.Forall₂ R l l')
    {b : β} (hb : b ∈ l') : ∃ a ∈ l, R a b := by
  induction h with
  | nil => cases hb
  | @cons a b' l l' hab _ ih =>
    rcases List.mem_cons.1 hb with rfl | hb
    · exact ⟨a, List.mem_cons_self .., hab⟩
    · obtain ⟨a', ha', hR⟩ := ih hb
      exact ⟨a', List.mem_cons_of_mem _ ha', hR⟩

/-- What is read off related elements alike is the same list. -/
theorem forall₂_map_eq {α β γ : Type*} {R : α → β → Prop} {l : List α} {l' : List β} (h : List.Forall₂ R l l')
    {f : α → γ} {g : β → γ} (hfg : ∀ a b, R a b → f a = g b) : l.map f = l'.map g := by
  induction h with
  | nil => rfl
  | cons hab _ ih => rw [List.map_cons, List.map_cons, hfg _ _ hab, ih]

theorem forall₂_of_map_eq {α β γ : Type*} {l : List α} {l' : List β} {f : α → γ} {g : β → γ}
    (h : l.map f = l'.map g) : List.Forall₂ (fun a b => a ∈ l ∧ f a = g b) l l' := by
  refine (List.forall₂_and_left _ _).2 ⟨fun _ ha => ha, ?_⟩
  rw [← List.forall₂_map_left_iff (R := fun c b => c = g b), ← List.forall₂_map_right_iff (R := fun c d => c = d),
    List.forall₂_eq_eq_eq]
  exact h

/-- What a loop did from `loop` to `loop'`: the executions, the fills emitted for them and why it stopped. -/
structure LoopRun (rule : FillRule) (loop loop' : FillLoop) (stop : LoopStop) (es : List Execution)
    (fills : List FillEvent) : Prop where
  executes : Executes loop.book loop.orders es loop'.book loop'.orders
  accepted : ∀ e ∈ es, e.resting.request.side = rule.side ∧ rule.stops e.resting = false
  fills_eq : loop'.fills = loop.fills ++ fills
  fills_of : List.Forall₂ (fun e fill => ∃ n, fill = rule.fill n e.resting e.quantity) es fills
  touched_eq : loop'.touchedOrders = loop.touchedOrders ++ es.map fun e => e.resting.orderId
  quantity_eq : loop'.quantity = loop.quantity - executedQuantity es
  quantity_nonneg : 0 ≤ loop.quantity → 0 ≤ loop'.quantity
  not_failed : stop ≠ .fillFailed
  exhausted : stop = .exhausted → loop'.quantity ≤ kQuantityTolerance
  noMatch : stop = .noMatch → ∀ o, loop'.book.bestOrder rule.side = some o → rule.stops o = true

/-- A request crosses the orders that have a price, if its own is at least as good. -/
theorem crosses_iff {request : OrderRequest} {o : RestingOrder} {price : ℚ} (hprice : request.price = some price) :
    crosses request o = true ↔ ∃ p, o.request.price = some p ∧ request.side.AtLeastAsGood price p := by
  rw [crosses, hprice]
  cases o.request.price with
  | none => simp
  | some p => cases request.side <;> simp [OrderSide.AtLeastAsGood]

theorem fillLoop_spec (rule : FillRule) (fuel : Nat) (loop : FillLoop) (hb : loop.book.Wf) :
    ∃ es fills, LoopRun rule loop (fillLoop rule fuel loop).1 (fillLoop rule fuel loop).2 es fills := by
  have stopped : ∀ (loop : FillLoop) (stop : LoopStop), stop ≠ .fillFailed →
      (stop = .exhausted → loop.quantity ≤ kQuantityTolerance) →
      (stop = .noMatch → ∀ o, loop.book.bestOrder rule.side = some o → rule.stops o = true) →
      ∃ es fills, LoopRun rule loop loop stop es fills := fun loop stop h₁ h₂ h₃ =>
    ⟨[], [], .nil _ _, by simp, by simp, .nil, by simp, by simp, id, h₁, h₂, h₃⟩
  induction fuel generalizing loop with
  | zero => exact stopped loop _ (by simp [fillLoop]) (by simp [fillLoop]) (by simp [fillLoop])
  | succ fuel ih =>
    rw [fillLoop]
    split
    · rename_i hq
      split
      · rename_i hbest
        exact stopped loop _ (by simp) (by simp) (by simp [hbest])
      · rename_i resting hbest
        split
        · rename_i hstop
          refine stopped loop _ (by simp) (by simp) fun _ o ho => ?_
          rw [hbest, Option.some.injEq] at ho
          rw [← ho, hstop]
        · rename_i hstop
          obtain ⟨hmem, hside, -⟩ := hb.bestOrder_spec hbest
          -- both quantities exceed the tolerance, so the book cannot refuse the fill
          have hpos : kQuantityTolerance < min loop.quantity resting.remainingQuantity :=
            lt_min hq (hb.tolerance_lt hmem)
          have hle := min_le_right loop.quantity resting.remainingQuantity
          have htol := kQuantityTolerance_pos
          obtain ⟨book', hfill, hwf, -⟩ := OrderBook.applyFill_spec hb hmem hpos (by linarith)
          simp only [hfill]
          -- the rest of the run is a run from the loop state after this fill
          obtain ⟨es, fills, hrun⟩ :=
            ih (loop.afterFill rule resting (min loop.quantity resting.remainingQuantity) book') hwf
          have hquantity : (loop.afterFill rule resting (min loop.quantity resting.remainingQuantity) book').quantity =
              loop.quantity - min loop.quantity resting.remainingQuantity :=
            max_eq_right (sub_nonneg.2 (min_le_left _ _))
          refine ⟨⟨resting, _⟩ :: es, _ :: fills, .cons (by rw [hside]; exact hbest) hpos hle hfill hrun.executes,
            ?_, ?_, .cons ⟨loop.nextFillId, rfl⟩ hrun.fills_of, ?_, ?_, fun _ => hrun.quantity_nonneg (le_max_left _ _),
            hrun.not_failed, hrun.exhausted, hrun.noMatch⟩
          · intro e he
            rcases List.mem_cons.1 he with rfl | he
            · exact ⟨hside, by simpa using hstop⟩
            · exact hrun.accepted e he
          · rw [hrun.fills_eq]; simp [FillLoop.afterFill]
          · rw [hrun.touched_eq]; simp [FillLoop.afterFill]
          · rw [hrun.quantity_eq, hquantity, executedQuantity_cons]; ring
    · rename_i hq
      exact stopped loop _ (by simp) (fun _ => not_lt.1 hq) (by simp)

/-- Every iteration executes more than the tolerance, so enough fuel never runs out. -/
theorem fillLoop_ne_outOfFuel (rule : FillRule) (fuel : Nat) (loop : FillLoop)
    (h : loop.quantity ≤ kQuantityTolerance * fuel) : (fillLoop rule (fuel + 1) loop).2 ≠ .outOfFuel := by
  induction fuel generalizing loop with
  | zero =>
    have hq : ¬ loop.quantity > kQuantityTolerance := by
      have := kQuantityTolerance_pos
      rw [Nat.cast_zero, mul_zero] at h
      linarith
    rw [fillLoop, if_neg hq]
    simp
  | succ fuel ih =>
    rw [fillLoop]
    split
    · split
      · simp
      · split
        · simp
        · rename_i resting _ _
          dsimp only
          split
          · simp
          · rename_i book' hfill
            -- the book has accepted the fill, so it is above the tolerance
            have hexec : kQuantityTolerance < min loop.quantity resting.remainingQuantity := by
              by_contra hx
              rw [OrderBook.applyFill, if_pos (not_lt.1 hx)] at hfill
              cases hfill
            refine ih _ (max_le ?_ ?_)
            · exact mul_nonneg kQuantityTolerance_pos.le (Nat.cast_nonneg _)
            · rw [Nat.cast_succ, mul_add, mul_one] at h
              linarith
    · simp

theorem loopFuel_spec (quantity : ℚ) :
    ∃ fuel : Nat, loopFuel quantity = fuel + 1 ∧ quantity ≤ kQuantityTolerance * fuel := by
  refine ⟨(quantity / kQuantityTolerance).ceil.toNat, rfl, ?_⟩
  have htol := kQuantityTolerance_pos
  have h₁ : quantity / kQuantityTolerance ≤ ((quantity / kQuantityTolerance).ceil : ℚ) := Rat.le_ceil
  have h₂ : ((quantity / kQuantityTolerance).ceil : ℚ) ≤ ((quantity / kQuantityTolerance).ceil.toNat : ℚ) := by
    exact_mod_cast Int.self_le_toNat _
  calc quantity = kQuantityTolerance * (quantity / kQuantityTolerance) := (mul_div_cancel₀ quantity htol.ne').symm
    _ ≤ kQuantityTolerance * ((quantity / kQuantityTolerance).ceil.toNat : ℚ) :=
      mul_le_mul_of_nonneg_left (h₁.trans h₂) htol.le

theorem fillLoop_loopFuel (rule : FillRule) (loop : FillLoop) :
    (fillLoop rule (loopFuel loop.quantity) loop).2 ≠ .outOfFuel := by
  obtain ⟨fuel, hfuel, h⟩ := loopFuel_spec loop.quantity
  rw [hfuel]
  exact fillLoop_ne_outOfFuel rule fuel loop h

/-! ### The levels of a market event -/

/-- What the loops of the levels did, one after the other. -/
structure LevelsRun (rule : BookLevel → FillRule) (levels : List BookLevel) (loop loop' : FillLoop)
    (stops : List LoopStop) (es : List Execution) (fills : List FillEvent) : Prop where
  executes : Executes loop.book loop.orders es loop'.book loop'.orders
  accepted : ∀ e ∈ es, ∃ level ∈ levels, e.resting.request.side = (rule level).side ∧
    (rule level).stops e.resting = false
  fills_eq : loop'.fills = loop.fills ++ fills
  fills_of : List.Forall₂ (fun e fill => ∃ level ∈ levels, ∃ n, fill = (rule level).fill n e.resting e.quantity)
    es fills
  touched_eq : loop'.touchedOrders = loop.touchedOrders ++ es.map fun e => e.resting.orderId
  not_failed : .fillFailed ∉ stops

theorem processLevels_spec (rule : BookLevel → FillRule) (levels : List BookLevel) (loop : FillLoop)
    (hb : loop.book.Wf) : ∃ es fills,
      LevelsRun rule levels loop (processLevels rule levels loop).1 (processLevels rule levels loop).2 es fills := by
  induction levels generalizing loop with
  | nil => exact ⟨[], [], .nil _ _, by simp, by simp [processLevels], .nil, by simp [processLevels],
      by simp [processLevels]⟩
  | cons level levels ih =>
    obtain ⟨es, fills, hrun⟩ :=
      fillLoop_spec (rule level) (loopFuel level.quantity) { loop with quantity := level.quantity } hb
    obtain ⟨es', fills', hrun'⟩ := ih _ (hrun.executes.wf hb).1
    refine ⟨es ++ es', fills ++ fills', hrun.executes.append hrun'.executes, ?_, ?_, ?_, ?_, ?_⟩
    · intro e he
      rcases List.mem_append.1 he with he | he
      · exact ⟨level, List.mem_cons_self .., hrun.accepted e he⟩
      · obtain ⟨level', hl, h⟩ := hrun'.accepted e he
        exact ⟨level', List.mem_cons_of_mem _ hl, h⟩
    · rw [← List.append_assoc, ← hrun.fills_eq]
      exact hrun'.fills_eq
    · refine List.rel_append (hrun.fills_of.imp fun e fill h => ?_) (hrun'.fills_of.imp fun e fill h => ?_)
      · exact ⟨level, List.mem_cons_self .., h⟩
      · obtain ⟨level', hl, h⟩ := h
        exact ⟨level', List.mem_cons_of_mem _ hl, h⟩
    · rw [List.map_append, ← List.append_assoc, ← hrun.touched_eq]
      exact hrun'.touched_eq
    · intro h
      rcases List.mem_cons.1 h with h | h
      · exact hrun.not_failed h.symm
      · exact hrun'.not_failed h

/-- What the loops of a market event did to a book and the records: executions of resting orders, each with the
fill of some level. -/
structure MarketRun (event : MarketEvent) (book : OrderBook) (orders : StringMap OrderRecord) (loop : FillLoop)
    (stops : List LoopStop) (es : List Execution) : Prop where
  executes : Executes book orders es loop.book loop.orders
  fills_of : List.Forall₂ (fun e fill => ∃ level n, fill = marketFill event level n e.resting e.quantity)
    es loop.fills
  touched_eq : loop.touchedOrders = es.map fun e => e.resting.orderId
  not_failed : .fillFailed ∉ stops

theorem MatchingEngine.marketLoops_spec (engine : MatchingEngine) (event : MarketEvent) {book : OrderBook}
    (hb : book.Wf) : ∃ es, MarketRun event book engine.orders (engine.marketLoops event book).1
      (engine.marketLoops event book).2 es := by
  obtain ⟨es, fills, hrun⟩ := processLevels_spec (processBuyRestingOrders event) event.askLevels
    { book := book, orders := engine.orders, nextFillId := engine.nextFillId, quantity := 0 } hb
  obtain ⟨es', fills', hrun'⟩ := processLevels_spec (processSellRestingOrders event) event.bidLevels _
    (hrun.executes.wf hb).1
  refine ⟨es ++ es', hrun.executes.append hrun'.executes, ?_, ?_, ?_⟩
  · have hfills : (engine.marketLoops event book).1.fills = fills ++ fills' := by
      rw [← List.nil_append fills, ← hrun.fills_eq]
      exact hrun'.fills_eq
    rw [hfills]
    refine List.rel_append (hrun.fills_of.imp fun e fill h => ?_) (hrun'.fills_of.imp fun e fill h => ?_)
    · obtain ⟨level, -, n, h⟩ := h
      exact ⟨level, n, h⟩
    · obtain ⟨level, -, n, h⟩ := h
      exact ⟨level, n, h⟩
  · rw [List.map_append, ← List.nil_append (es.map _), ← hrun.touched_eq]
    exact hrun'.touched_eq
  · exact List.not_mem_append hrun.not_failed hrun'.not_failed

end Wall
