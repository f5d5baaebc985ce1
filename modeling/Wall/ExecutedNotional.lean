import Wall.CoreRuns
import Wall.MarketLevels
import Wall.MarketUpdates
import Wall.OrderIds
import Mathlib.Algebra.BigOperators.Ring.List

/-!
# The notional limit and what is executed

`RiskEngine::evaluate` values a request at its own limit price, so an order that is approved has a quantity times
limit price within `max_order_notional`.  An order fills at most its quantity over its whole life, and no fill is
beyond the limit price by more than the tolerance (`Takes`).  So a buy never spends more than the limit, up to the
tolerance; a sell fills at better prices, and the limit bounds its quantity at the limit price only.
-/

namespace Wall

open KeyedMap

/-- The total notional of the fills of one order. -/
def notionalOf (id : String) (fills : List FillEvent) : ℚ :=
  ((fills.filter fun fill => decide (fill.orderId = id)).map fun fill => fill.price * fill.quantity).sum

private theorem filledOf_append (id : String) (fills fills' : List FillEvent) :
    filledOf id (fills ++ fills') = filledOf id fills + filledOf id fills' := by
  rw [filledOf, List.filter_append, List.map_append, List.sum_append, filledOf, filledOf]

private theorem filledOf_of_forall_ne {id : String} {fills : List FillEvent} (h : ∀ fill ∈ fills, fill.orderId ≠ id) :
    filledOf id fills = 0 := by
  have hnone : fills.filter (fun fill => decide (fill.orderId = id)) = [] :=
    List.filter_eq_nil_iff.2 fun fill hfill => by simpa using h fill hfill
  rw [filledOf, hnone, List.map_nil, List.sum_nil]

private theorem filledOf_nonneg {id : String} {fills : List FillEvent}
    (h : ∀ fill ∈ fills, fill.orderId = id → 0 < fill.quantity) : 0 ≤ filledOf id fills := by
  refine List.sum_nonneg fun x hx => ?_
  obtain ⟨fill, hfill, rfl⟩ := List.mem_map.1 hx
  obtain ⟨hfill, hid⟩ := List.mem_filter.1 hfill
  exact (h fill hfill (of_decide_eq_true hid)).le

/-- Fills at no more than a price are worth no more than their quantity at that price. -/
private theorem notionalOf_le {id : String} {fills : List FillEvent} {price : ℚ}
    (h : ∀ fill ∈ fills, fill.orderId = id → 0 < fill.quantity ∧ fill.price ≤ price) :
    notionalOf id fills ≤ price * filledOf id fills := by
  rw [notionalOf, filledOf, ← List.sum_map_mul_left]
  refine List.sum_le_sum fun fill hfill => ?_
  obtain ⟨hfill, hid⟩ := List.mem_filter.1 hfill
  obtain ⟨hpos, hle⟩ := h fill hfill (of_decide_eq_true hid)
  exact mul_le_mul_of_nonneg_right hle hpos.le

/-! ### What an order takes -/

/-- While `fills` were emitted the record `r` under `id` became `r'`: it gained at least the fills of the order, and
each of these is of a positive quantity at a price that reaches the order. -/
structure OrderRecord.Takes (id : String) (r r' : OrderRecord) (fills : List FillEvent) : Prop where
  evolves : r.Evolves r'
  filled_le : r.filledQuantity + filledOf id fills ≤ r'.filledQuantity
  reached : ∀ fill ∈ fills, fill.orderId = id →
    0 < fill.quantity ∧ ∃ price, r.price = some price ∧ ¬ r.side.OutOfReach fill.price price

theorem OrderRecord.Evolves.terms {r r' : OrderRecord} (h : r.Evolves r') :
    r'.side = r.side ∧ r'.price = r.price ∧ r'.quantity = r.quantity := by
  have hsame := h.same
  exact ⟨by rw [hsame], by rw [hsame], by rw [hsame]⟩

namespace OrderRecord.Takes

variable {id : String} {r r' r'' : OrderRecord} {fills fills' : List FillEvent}

theorem refl (id : String) (r : OrderRecord) : r.Takes id r [] :=
  ⟨.refl r, (add_zero _).le, fun _ hfill => absurd hfill List.not_mem_nil⟩

/-- Nothing is taken when no fill is of the order. -/
private theorem of_evolves (h : r.Evolves r') (hne : ∀ fill ∈ fills, fill.orderId ≠ id) : r.Takes id r' fills where
  evolves := h
  filled_le := by
    rw [filledOf_of_forall_ne hne, add_zero]
    exact h.filled_le
  reached fill hfill hid := absurd hid (hne fill hfill)

theorem append (h : r.Takes id r' fills) (h' : r'.Takes id r'' fills') : r.Takes id r'' (fills ++ fills') where
  evolves := h.evolves.trans h'.evolves
  filled_le := by
    have hle := h.filled_le
    have hle' := h'.filled_le
    rw [filledOf_append]
    linarith
  reached fill hfill hid := by
    rcases List.mem_append.1 hfill with hfill | hfill
    · exact h.reached fill hfill hid
    · obtain ⟨hside, hprice, -⟩ := h.evolves.terms
      rw [← hside, ← hprice]
      exact h'.reached fill hfill hid

/-- The fills before the order is there do not count. -/
theorem skip (h : r.Takes id r' fills') (hne : ∀ fill ∈ fills, fill.orderId ≠ id) :
    r.Takes id r' (fills ++ fills') :=
  (of_evolves (.refl r) hne).append h

end OrderRecord.Takes

namespace MatchingEngine

/-- A market event fills an order within its record and its price. -/
theorem Sync.market_takes {engine : MatchingEngine} (h : engine.Sync) (event : MarketEvent) {id : String}
    {r : OrderRecord} (hr : engine.orders[id]? = some r) :
    ∃ r', (engine.processMarketEvent event).1.orders[id]? = some r' ∧
      r.Takes id r' (engine.processMarketEvent event).2.fills := by
  rcases processMarketEvent_spec h.booksOk event with heq | ⟨book, es, hbook, hrun, heq⟩
  · rw [heq]
    exact ⟨r, hr, .refl id r⟩
  · have hs := h.synced _ book hbook
    obtain ⟨-, askFills, bidFills, hserved⟩ := marketLoops_served engine event hs.wf
    obtain ⟨r', hr', hevolves⟩ := hrun.executes.ordersEvolve hs h.records id r hr
    obtain ⟨r'', hr'', hgains⟩ := hrun.executes.gains hs h.records id r hr
    cases hr'.symm.trans hr''
    have hle := hgains.le
    rw [← hrun.filledOf_eq] at hle
    rw [heq]
    refine ⟨r', hr', hevolves, by dsimp only; linarith, fun fill hfill hid => ⟨?_, ?_⟩⟩
    · obtain ⟨e, he, level, n, rfl⟩ := forall₂_exists_left hrun.fills_of hfill
      exact kQuantityTolerance_pos.trans (hrun.executes.quantity_pos e he)
    · obtain ⟨o, ho, hoid, hside, hreach⟩ := hserved.resting fill hfill
      obtain ⟨r₀, hr₀, hrec⟩ := hs.tracked o ho
      rw [hoid, hid, hr, Option.some.injEq] at hr₀
      subst hr₀
      obtain ⟨price, q, -, -, hok⟩ := hs.wf.exists_orderOk ho
      have hprice : o.price = price := by rw [RestingOrder.price, hok.price_eq, Option.getD_some]
      rw [hrec.side_eq, hside, hrec.price_eq]
      exact ⟨price, hok.price_eq, hprice ▸ hreach⟩

/-- The price of a request is at least as good as that of an order it crosses. -/
theorem atLeastAsGood_of_crosses {request : OrderRequest} {o : RestingOrder} (h : crosses request o = true) {price : ℚ}
    (hprice : request.price = some price) : request.side.AtLeastAsGood price o.price := by
  obtain ⟨restingPrice, ho, hgood⟩ := (crosses_iff hprice).1 h
  rwa [RestingOrder.price, ho, Option.getD_some]

/-- An order that a request crosses rests at a price that reaches the request. -/
private theorem reaches_of_crosses {request : OrderRequest} {o : RestingOrder} (h : crosses request o = true)
    {price : ℚ} (hprice : request.price = some price) : ¬ request.side.OutOfReach o.price price := by
  have htol := kQuantityTolerance_pos
  have hgood := atLeastAsGood_of_crosses h hprice
  cases hside : request.side with
  | buy =>
    rw [hside] at hgood
    have hle : o.price ≤ price := hgood
    exact not_lt.2 (by linarith)
  | sell =>
    rw [hside] at hgood
    have hle : price ≤ o.price := hgood
    exact not_lt.2 (by linarith)

namespace Submitted

variable {engine : MatchingEngine} {request : OrderRequest} {es : List Execution} {fills : List FillEvent}

theorem filledOf_eq (h : engine.Submitted request es fills) :
    filledOf engine.issuedOrderId fills = executedQuantity es := by
  have hof := h.run.fills_of
  clear h
  induction hof with
  | nil => rfl
  | @cons e fill es fills hfill _ ih =>
    obtain ⟨n, rfl⟩ := hfill
    have hid : ((submitRule request engine.issuedOrderId).fill n e.resting e.quantity).orderId =
        engine.issuedOrderId := rfl
    rw [filledOf_cons, if_pos hid, executedQuantity_cons, ih]
    rfl

/-- The final record of the new order has at least what was executed for it. -/
private theorem executed_le (h : engine.Submitted request es fills) (hacc : request.Acceptable) :
    executedQuantity es ≤ (engine.finalRecord request).filledQuantity := by
  have hquantity : (engine.submitLoop request).1.quantity = request.quantity - executedQuantity es := h.run.quantity_eq
  have hnonneg : 0 ≤ (engine.submitLoop request).1.quantity := h.run.quantity_nonneg hacc.quantity.le
  by_cases hq : (engine.submitLoop request).1.quantity ≤ kQuantityTolerance
  · rw [finalRecord_of_le hq]
    dsimp only
    linarith
  · rw [(finalRecord_of_lt (not_le.1 hq)).2]
    linarith

private theorem takes (h : engine.Submitted request es fills) (hacc : request.Acceptable) :
    (engine.newRecord request).Takes engine.issuedOrderId (engine.finalRecord request) fills := by
  have hexecuted := h.executed_le hacc
  have hnonneg := h.run.executes.executedQuantity_nonneg
  refine ⟨⟨?_, hnonneg.trans hexecuted, fun hterminal => by cases hterminal⟩, ?_, fun fill hfill _ => ?_⟩
  · unfold finalRecord
    dsimp only
    split <;> rfl
  · rw [h.filledOf_eq]
    exact (zero_add _).le.trans hexecuted
  · obtain ⟨e, he, n, rfl⟩ := forall₂_exists_left h.run.fills_of hfill
    obtain ⟨price, hprice, -⟩ := hacc.price
    refine ⟨kQuantityTolerance_pos.trans (h.run.executes.quantity_pos e he), price, hprice, ?_⟩
    have hcrosses : crosses request e.resting = true := by
      have hgoes : (!crosses request e.resting) = false := (h.run.accepted e he).2
      rwa [Bool.not_eq_false'] at hgoes
    exact reaches_of_crosses hcrosses hprice

end Submitted

/-- A new order fills within its record and its price. -/
theorem Steady.submit_takes {engine : MatchingEngine} (h : engine.Steady) (request : OrderRequest) :
    ∃ r, (engine.submit request).1.orders[engine.issuedOrderId]? = some r ∧
      (engine.newRecord request).Takes engine.issuedOrderId r (engine.submit request).2.fills := by
  rcases engine.submit_cases request with ⟨reason, heq, -⟩ | ⟨-, hacc⟩
  · rw [heq]
    refine ⟨{ engine.newRecord request with status := .rejected }, ?_, ?_⟩
    · show (engine.track request .rejected).orders[engine.issuedOrderId]? = _
      rw [track_orders, KeyedMap.getElem?_insert, if_pos rfl]
    · exact .of_evolves ⟨rfl, le_refl _, fun hterminal => by cases hterminal⟩
        fun _ hfill => absurd hfill List.not_mem_nil
  · obtain ⟨es, fills, hs⟩ := h.sync.submit_spec h.issued_untracked hacc
    rw [hs.eq, hs.fills_eq]
    refine ⟨engine.finalRecord request, ?_, hs.takes hacc⟩
    rw [accepted_orders, KeyedMap.getElem?_insert, if_pos rfl]

/-- A call on a steady engine fills a tracked order within its record and its price. -/
private theorem Steady.step_takes {engine : MatchingEngine} (h : engine.Steady) (op : TradingOp) {id : String}
    {r : OrderRecord} (hr : engine.orders[id]? = some r) :
    ∃ r', (machine.step engine op.engineOp).1.orders[id]? = some r' ∧
      r.Takes id r' (machine.step engine op.engineOp).2.fills := by
  cases op with
  | market event => exact h.sync.market_takes event hr
  | submit request =>
    have hfresh : (EngineOp.submit request).Fresh engine := h.fresh rfl
    obtain ⟨r', hr', hevolves⟩ := h.sync.ordersEvolve_step hfresh id r hr
    refine ⟨r', hr', .of_evolves hevolves fun fill hfill hid => ?_⟩
    -- the fills are of the new order, which was not tracked
    have huntracked := h.issued_untracked
    rw [← h.sync.submit_fills huntracked fill hfill, hid, hr] at huntracked
    cases huntracked

end MatchingEngine

/-! ### What an order takes in a run -/

namespace TradingCore

/-- An order that is tracked stays so, and takes the fills of the run that are its own. -/
theorem run_takes {core : TradingCore} (h : core.engine.Steady) (ops : List TradingOp) {id : String} {r : OrderRecord}
    (hr : core.engine.orders[id]? = some r) :
    ∃ r', (machine.run core ops).engine.orders[id]? = some r' ∧ r.Takes id r' (core.fills ops) := by
  induction ops generalizing core r with
  | nil => exact ⟨r, hr, .refl id r⟩
  | cons op ops ih =>
    obtain ⟨r₁, hr₁, htakes⟩ := h.step_takes op hr
    rw [← step_engine] at hr₁
    obtain ⟨r', hr', htakes'⟩ := ih (steady_step h op) hr₁
    exact ⟨r', hr', htakes.append htakes'⟩

/-- An id that a run leaves untracked has no fill in it. -/
theorem fills_of_untracked {core : TradingCore} (h : core.engine.Steady) (ops : List TradingOp) {id : String}
    (hid : (machine.run core ops).engine.orders[id]? = none) : ∀ fill ∈ core.fills ops, fill.orderId ≠ id := by
  induction ops generalizing core with
  | nil => exact fun fill hfill => absurd hfill List.not_mem_nil
  | cons op ops ih =>
    -- what is tracked after the first call is tracked after the run
    have hfirst : (core.step op).engine.orders[id]? = none := by
      cases hr : (core.step op).engine.orders[id]? with
      | none => rfl
      | some r =>
        obtain ⟨r', hr', -⟩ := run_takes (steady_step h op) ops hr
        exact absurd (hid.symm.trans hr') nofun
    intro fill hfill
    rcases List.mem_append.1 hfill with hfill | hfill
    · rintro rfl
      rw [step_engine] at hfirst
      rcases h.sync.fills_step (h.fresh (isRestore_engineOp op)) fill hfill with hnew | ⟨r, hr, -⟩
      · cases op with
        | market => cases hnew
        | submit request =>
          obtain ⟨r, hr, -⟩ := h.submit_takes request
          have hissued : core.engine.issuedOrderId = fill.orderId := Option.some.inj hnew
          rw [hissued] at hr
          exact absurd (hfirst.symm.trans hr) nofun
      · obtain ⟨r', hr', -⟩ := h.step_takes op hr
        exact absurd (hfirst.symm.trans hr') nofun
    · exact ih (steady_step h op) hid fill hfill

/-- An issued id belongs to one call of the run, which issued it when it was made. -/
private theorem exists_of_mem_issued {core : TradingCore} {ops : List TradingOp} {id : String} {request : OrderRequest}
    (h : (id, request) ∈ core.issued ops) : ∃ pre post, ops = pre ++ .submit request :: post ∧
      id = ((machine.run core pre).engine.submit request).2.orderId := by
  induction ops generalizing core with
  | nil => exact absurd h List.not_mem_nil
  | cons op ops ih =>
    rcases List.mem_append.1 h with h | h
    · cases op with
      | market => exact absurd h List.not_mem_nil
      | submit request' =>
        cases List.mem_singleton.1 h
        exact ⟨[], ops, rfl, rfl⟩
    · obtain ⟨pre, post, rfl, hid⟩ := ih h
      exact ⟨op :: pre, post, rfl, hid⟩

private theorem steady_run {core : TradingCore} (h : core.engine.Steady) (ops : List TradingOp) :
    (machine.run core ops).engine.Steady := by
  have hany : machine.Admissible (fun _ _ => True) core ops := Machine.admissible_of_forall (fun _ _ _ => trivial) core
  exact Machine.invariant (P := fun core : TradingCore => core.engine.Steady) (fun _ op _ h => steady_step h op) hany h

/-- What the fills of a run take from an order that was submitted in it is within its quantity, and at prices that
reach it. -/
private theorem issued_takes {core : TradingCore} (h : core.engine.Steady) {ops : List TradingOp} {id : String}
    {request : OrderRequest} (hissued : (id, request) ∈ core.issued ops) (hquantity : 0 < request.quantity) :
    filledOf id (core.fills ops) ≤ request.quantity ∧ ∀ fill ∈ core.fills ops, fill.orderId = id →
      0 < fill.quantity ∧ ∃ price, request.price = some price ∧ ¬ request.side.OutOfReach fill.price price := by
  obtain ⟨pre, post, rfl, hid⟩ := exists_of_mem_issued hissued
  have hsteady := steady_run h pre
  have horderId := (MatchingEngine.submit_issuesId hsteady.sync.booksOk request).orderId
  rw [horderId] at hid
  subst hid
  obtain ⟨r, hr, hnew⟩ := hsteady.submit_takes request
  have hbefore := fills_of_untracked h pre hsteady.issued_untracked
  have hafter := steady_step hsteady (.submit request)
  obtain ⟨r', hr', hlater⟩ := run_takes hafter post (by rw [step_engine]; exact hr)
  -- the life of the order: nothing before its submit, its submit, and the calls after it
  have htakes := (hnew.append hlater).skip hbefore
  have hfills : core.fills (pre ++ .submit request :: post) = core.fills pre ++
      (((machine.run core pre).engine.submit request).2.fills ++
        ((machine.run core pre).step (.submit request)).fills post) := by
    rw [fills_append, fills]
    rfl
  rw [hfills]
  refine ⟨?_, htakes.reached⟩
  have hle := htakes.filled_le
  obtain ⟨-, -, hsame⟩ := htakes.evolves.terms
  have hok := (steady_run hafter post).sync.records _ r' hr'
  have hzero : (((machine.run core pre).engine.newRecord request).filledQuantity : ℚ) = 0 := rfl
  have hrequest : r'.quantity = request.quantity := hsame
  by_cases hrejected : r'.status = .rejected
  · have hnone := hok.rejected hrejected
    linarith
  · have hbounds := hok.bounds hrejected
    linarith

end TradingCore

/-! ### Approved orders -/

/-- An approved request is of a positive quantity, which is within the notional limit at its own price. -/
private theorem RiskEngine.evaluate_approved {config : RiskConfig} {store : MarketStateStore} {now : Int}
    {request : OrderRequest} (h : (evaluate config store now request).approved = true) :
    0 < request.quantity ∧ ∀ price, request.price = some price → request.quantity * price ≤ config.maxOrderNotional := by
  unfold evaluate at h
  by_cases hkill : config.killSwitchEnabled = true
  · rw [if_pos hkill] at h
    cases h
  rw [if_neg hkill] at h
  by_cases hquantity : request.quantity ≤ 0
  · rw [if_pos hquantity] at h
    cases h
  rw [if_neg hquantity] at h
  refine ⟨not_le.1 hquantity, fun price hprice => ?_⟩
  have hreference : resolveReferencePrice store request = some price := by
    rw [resolveReferencePrice, hprice, Option.isSome_some, if_pos rfl]
  by_contra hover
  simp only [hreference, if_pos (not_le.1 hover)] at h
  split at h
  · cases h
  · split at h
    · cases h
    · split at h <;> cases h

namespace SimulationRuntime

variable {σ : Type*}

/-- The requests that a run submits are approved ones. -/
private theorem approved_of_mem_submitOps {riskConfig : RiskConfig} {store : MarketStateStore} {input : RuntimeInput}
    {k : Nat} {requests : List OrderRequest} {request : OrderRequest}
    (h : .submit request ∈ submitOps riskConfig store input k requests) :
    ∃ now, (RiskEngine.evaluate riskConfig store now request).approved = true := by
  induction requests generalizing k with
  | nil => exact absurd h List.not_mem_nil
  | cons request' requests ih =>
    rcases List.mem_append.1 h with h | h
    · by_cases happroves : approves riskConfig store input k request' = true
      · rw [if_pos happroves] at h
        cases List.mem_singleton.1 h
        exact ⟨input.now k, (Bool.and_eq_true_iff.1 happroves).2⟩
      · rw [if_neg happroves] at h
        exact absurd h List.not_mem_nil
    · exact ih h

private theorem approved_of_mem_callsOf {runtime : SimulationRuntime σ} {inputs : List RuntimeInput}
    {request : OrderRequest} (h : .submit request ∈ runtime.callsOf inputs) :
    ∃ store now, (RiskEngine.evaluate runtime.riskConfig store now request).approved = true := by
  induction inputs generalizing runtime with
  | nil => exact absurd h List.not_mem_nil
  | cons input inputs ih =>
    rcases List.mem_append.1 h with h | h
    · rcases List.mem_append.1 h with h | h
      · cases hevent : input.event with
        | market event =>
          rw [hevent] at h
          cases List.mem_singleton.1 h
        | timer =>
          rw [hevent] at h
          exact absurd h List.not_mem_nil
        | transaction =>
          rw [hevent] at h
          exact absurd h List.not_mem_nil
      · obtain ⟨now, happroved⟩ := approved_of_mem_submitOps h
        exact ⟨_, now, happroved⟩
    · obtain ⟨store, now, happroved⟩ := ih h
      rw [(onEvent_core runtime input).2] at happroved
      exact ⟨store, now, happroved⟩

/-- In every run of a fresh runtime with a positive notional limit, what an approved order executes is within the
limit: for a buy the notional of its fills, up to the tolerance for each unit of its quantity, and for a sell the
filled quantity at the limit price, which its fills may better. -/
theorem executed_notional_within (riskConfig : RiskConfig) (config : SimulationRuntimeConfig σ)
    (inputs : List RuntimeInput) (hlimit : 0 < riskConfig.maxOrderNotional) :
    let runtime := fresh riskConfig config
    let calls := runtime.callsOf inputs
    let fills := runtime.core.fills calls
    ∀ id request, (id, request) ∈ runtime.core.issued calls →
      (request.side = .buy →
        notionalOf id fills ≤ riskConfig.maxOrderNotional + kQuantityTolerance * request.quantity) ∧
      (request.side = .sell → ∀ price, request.price = some price →
        filledOf id fills * price ≤ riskConfig.maxOrderNotional) := by
  intro runtime calls fills id request hissued
  have hsteady : runtime.core.engine.Steady := MatchingEngine.empty_steady
  have hcall : .submit request ∈ calls := by
    obtain ⟨pre, post, hsplit, -⟩ := TradingCore.exists_of_mem_issued hissued
    rw [hsplit]
    exact List.mem_append_right _ (List.mem_cons_self ..)
  obtain ⟨store, now, happroved⟩ := approved_of_mem_callsOf hcall
  obtain ⟨hquantity, hnotional⟩ := RiskEngine.evaluate_approved happroved
  obtain ⟨hfilled, hreached⟩ := TradingCore.issued_takes hsteady hissued hquantity
  have hnonneg : 0 ≤ filledOf id fills := filledOf_nonneg fun fill hfill hid => (hreached fill hfill hid).1
  have hvalue : ∀ price, request.price = some price → filledOf id fills * price ≤ riskConfig.maxOrderNotional := by
    intro price hprice
    by_cases hpositive : 0 ≤ price
    · exact (mul_le_mul_of_nonneg_right hfilled hpositive).trans (hnotional price hprice)
    -- at a negative price the product is at most zero, which is below the limit
    · exact (mul_nonpos_of_nonneg_of_nonpos hnonneg (not_le.1 hpositive).le).trans hlimit.le
  refine ⟨fun hbuy => ?_, fun _ => hvalue⟩
  have htol := kQuantityTolerance_pos
  have hslack := mul_le_mul_of_nonneg_left hfilled htol.le
  cases hprice : request.price with
  | none =>
    have hnone : ∀ fill ∈ fills, fill.orderId = id → 0 < fill.quantity ∧ fill.price ≤ 0 := by
      intro fill hfill hid
      obtain ⟨-, price, hsome, -⟩ := hreached fill hfill hid
      rw [hprice] at hsome
      cases hsome
    have hle := notionalOf_le hnone
    have hzero := mul_nonneg htol.le hquantity.le
    linarith
  | some price =>
    have hprices : ∀ fill ∈ fills, fill.orderId = id →
        0 < fill.quantity ∧ fill.price ≤ price + kQuantityTolerance := by
      intro fill hfill hid
      obtain ⟨hpositive, price', hsome, hreach⟩ := hreached fill hfill hid
      rw [hprice, Option.some.injEq] at hsome
      rw [hbuy, ← hsome] at hreach
      exact ⟨hpositive, not_lt.1 hreach⟩
    calc notionalOf id fills ≤ (price + kQuantityTolerance) * filledOf id fills := notionalOf_le hprices
      _ = filledOf id fills * price + kQuantityTolerance * filledOf id fills := by ring
      _ ≤ riskConfig.maxOrderNotional + kQuantityTolerance * request.quantity :=
        add_le_add (hvalue price hprice) hslack

/-- A market event with bid levels, read while the clock stands at its time. -/
def exampleBidInput (bidLevels : List BookLevel) : RuntimeInput where
  event := .market
    { eventId := "event-1", type := .ticker, instrument := (MatchingEngine.exampleRequest .buy 1 100).instrument
      price := 100, bidLevels := bidLevels, processTimestamp := 1000 }
  strategyClock _ := 1000
  now _ := 1000
  paused _ := false

/-- One unit is bought at a level below the limit price. -/
theorem executed_notional_within_exampleRun :
    let runtime := exampleRuntime 2 [MatchingEngine.exampleRequest .buy 1 100]
    let calls := runtime.callsOf [exampleInput [], exampleInput [⟨90, 1⟩]]
    0 < runtime.riskConfig.maxOrderNotional ∧
    notionalOf "match-order-1" (runtime.core.fills calls) ≤ 1000 + kQuantityTolerance * 1 :=
  ⟨by decide +kernel, (executed_notional_within _ _ _ (by decide +kernel) "match-order-1"
    (MatchingEngine.exampleRequest .buy 1 100) (by decide +kernel)).1 rfl⟩

/-- A sell of one unit at one is approved, and fills at a bid level of two thousand. -/
theorem sell_exceeds_notional :
    let runtime := exampleRuntime 2 [MatchingEngine.exampleRequest .sell 1 1]
    let calls := runtime.callsOf [exampleBidInput [], exampleBidInput [⟨2000, 1⟩]]
    ¬ ∀ id request, (id, request) ∈ runtime.core.issued calls → notionalOf id (runtime.core.fills calls) ≤
      runtime.riskConfig.maxOrderNotional + kQuantityTolerance * request.quantity := by
  intro runtime calls hall
  have hover := hall "match-order-1" (MatchingEngine.exampleRequest .sell 1 1) (by decide +kernel)
  exact absurd hover (by decide +kernel)

end SimulationRuntime

end Wall
