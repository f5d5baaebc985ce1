import Wall.ReplayedSessions
import Wall.SampleStrategies

/-!
# Replays at two clocks

A replay reaches the clock through one check: the risk engine asks whether the market state is stale.  The requests of
a run and the market states that they are judged against do not depend on the clock (`judged`), as the strategies see
neither it nor what became of their requests.  So two replays at fixed clocks that stand apart differ exactly if
some request that passes the other checks finds a state that is stale at the later clock only (`clock_isolation_iff`).
-/

namespace Wall

/-! ### The risk engine and the clock -/

namespace RiskEngine

/-- The checks of `evaluate` that do not ask for the time. -/
structure PassesOtherChecks (config : RiskConfig) (store : MarketStateStore) (request : OrderRequest) : Prop where
  killSwitch : config.killSwitchEnabled = false
  quantity_pos : 0 < request.quantity
  orderQuantity : request.quantity ≤ config.maxOrderQuantity
  positionQuantity : request.quantity ≤ config.maxPositionQuantity
  notional : ∃ price ∈ resolveReferencePrice store request, request.quantity * price ≤ config.maxOrderNotional

private theorem evaluate_approved_iff (config : RiskConfig) (store : MarketStateStore) (now : Int)
    (request : OrderRequest) :
    (evaluate config store now request).approved = true ↔ PassesOtherChecks config store request ∧
      store.isStale now request.instrument.instrumentId config.staleAfterMs = false := by
  fun_cases evaluate config store now request with
  | case1 hkill => exact iff_of_false (by simp) fun h => by simp [h.1.killSwitch] at hkill
  | case2 _ hpos => exact iff_of_false (by simp) fun h => not_lt.2 hpos h.1.quantity_pos
  | case3 _ _ horder => exact iff_of_false (by simp) fun h => not_le.2 horder h.1.orderQuantity
  | case4 _ _ _ hposition => exact iff_of_false (by simp) fun h => not_le.2 hposition h.1.positionQuantity
  | case5 _ _ _ _ hstale => exact iff_of_false (by simp) fun h => by simp [h.2] at hstale
  | case6 _ _ _ _ _ hnone =>
    refine iff_of_false (by simp) fun h => ?_
    obtain ⟨price, hprice, -⟩ := h.1.notional
    simp [hnone] at hprice
  | case7 _ _ _ _ _ price hprice hnotional =>
    refine iff_of_false (by simp) fun h => ?_
    obtain ⟨price', hprice', hle⟩ := h.1.notional
    rw [hprice, Option.mem_some_iff] at hprice'
    exact not_le.2 hnotional (hprice' ▸ hle)
  | case8 hkill hpos horder hposition hstale price hprice hnotional =>
    refine iff_of_true rfl ⟨⟨?_, not_le.1 hpos, not_lt.1 horder, not_lt.1 hposition, price, hprice, ?_⟩, ?_⟩
    · simpa using hkill
    · exact not_lt.1 hnotional
    · simpa using hstale

end RiskEngine

/-- What is stale stays stale. -/
private theorem MarketStateStore.isStale_of_le {store : MarketStateStore} {now now' : Int} (hle : now ≤ now')
    {i : String}
    {staleAfterMs : Int} (h : store.isStale now i staleAfterMs = true) : store.isStale now' i staleAfterMs = true := by
  unfold isStale at h ⊢
  split at h
  · rfl
  · simp only [decide_eq_true_eq] at h ⊢
    omega

/-! ### The requests of a run -/

/-- The inputs of a replay at a fixed clock, from the event number `n`; `paused` is the pause switch at each request. -/
def atClock (now : Int) (paused : Nat → Nat → Bool) : Nat → List EngineEvent → List RuntimeInput
  | _, [] => []
  | n, event :: events =>
    { event := event, strategyClock := fun _ => now, now := fun _ => now, paused := paused n } ::
      atClock now paused (n + 1) events

/-- The requests that the pause switch lets through, from the request number `k`. -/
def unpausedRequests (paused : Nat → Bool) : Nat → List OrderRequest → List OrderRequest
  | _, [] => []
  | k, request :: requests => (if paused k then [] else [request]) ++ unpausedRequests paused (k + 1) requests

variable {σ : Type*}

/-- The requests that a run puts to the risk engine, each with the market state that it is judged against.  The
strategies are shown the clock zero: they must not depend on it. -/
def judged (paused : Nat → Nat → Bool) :
    Nat → MarketStateStore → StrategyCoordinator σ → List EngineEvent → List (MarketStateStore × OrderRequest)
  | _, _, _, [] => []
  | n, store, coordinator, event :: events =>
    let store := SimulationRuntime.nextStore store event
    let (coordinator, requests) := coordinator.onEvent event { marketStateStore := store, clock := fun _ => 0 }
    (unpausedRequests (paused n) 0 requests).map (store, ·) ++ judged paused (n + 1) store coordinator events

namespace SimulationRuntime

private theorem submitOps_length (riskConfig : RiskConfig) (store : MarketStateStore) (now : Int) {input : RuntimeInput}
    (hnow : ∀ k, input.now k = now) (k : Nat) (requests : List OrderRequest) :
    (submitOps riskConfig store input k requests).length =
      (unpausedRequests input.paused k requests).countP fun request =>
        (RiskEngine.evaluate riskConfig store now request).approved := by
  induction requests generalizing k with
  | nil => rfl
  | cons request requests ih =>
    rw [submitOps, unpausedRequests, List.length_append, List.countP_append, ih, approves, hnow]
    congr 1
    cases input.paused k with
    | true => rfl
    | false =>
      simp only [Bool.not_false, Bool.true_and, Bool.false_eq_true, ↓reduceIte, List.countP_singleton]
      split <;> rfl

/-- Inputs that differ in the clock alone, and find the same verdict on every request that is not paused. -/
private theorem handleRequests_congr (now now' : Int) {input input' : RuntimeInput}
    (hpaused : input'.paused = input.paused)
    (hnow : ∀ k, input.now k = now) (hnow' : ∀ k, input'.now k = now') (k : Nat) (requests : List OrderRequest)
    (runtime : SimulationRuntime σ)
    (h : ∀ request ∈ unpausedRequests input.paused k requests,
      (RiskEngine.evaluate runtime.riskConfig runtime.marketStateStore now request).approved =
        (RiskEngine.evaluate runtime.riskConfig runtime.marketStateStore now' request).approved) :
    handleRequests input k requests runtime = handleRequests input' k requests runtime := by
  induction requests generalizing k runtime with
  | nil => rfl
  | cons request requests ih =>
    have hfirst : runtime.handleRequest (input.paused k) (input.now k) request =
        runtime.handleRequest (input'.paused k) (input'.now k) request := by
      rw [hpaused, hnow, hnow']
      cases hp : input.paused k with
      | true => rfl
      | false =>
        have hverdict := h request (by simp [unpausedRequests, hp])
        unfold handleRequest
        rw [hverdict]
    obtain ⟨hconfig, -, hstore, -⟩ := handleRequest_frame runtime input' k request
    rw [handleRequests, handleRequests, hfirst]
    refine ih (k + 1) _ fun request' hrequest' => ?_
    rw [hconfig, hstore]
    refine h request' ?_
    rw [unpausedRequests]
    exact List.mem_append_right _ hrequest'

variable {runtime : SimulationRuntime σ} (hclock : runtime.strategyCoordinator.IgnoresClock)
  (paused : Nat → Nat → Bool) (now : Int)

include hclock in
/-- The approvals of a run at a fixed clock. -/
private theorem approved_atClock (n : Nat) (events : List EngineEvent) :
    (machine.run runtime (atClock now paused n events)).riskApprovedCount = runtime.riskApprovedCount +
      (judged paused n runtime.marketStateStore runtime.strategyCoordinator events).countP fun j =>
        (RiskEngine.evaluate runtime.riskConfig j.1 now j.2).approved := by
  induction events generalizing n runtime with
  | nil => rfl
  | cons event events ih =>
    let input : RuntimeInput :=
      { event := event, strategyClock := fun _ => now, now := fun _ => now, paused := paused n }
    obtain ⟨hconfig, hcoordinator, hstore⟩ := onEvent_frame runtime input
    have hsame := hclock.onEvent_eq event (nextStore runtime.marketStateStore event) (fun _ => now) fun _ => 0
    have hcontext : runtime.contextOf input = ⟨nextStore runtime.marketStateStore event, fun _ => now⟩ := rfl
    rw [hcontext, hsame] at hcoordinator
    have hnext : (runtime.onEvent input).strategyCoordinator.IgnoresClock := by
      rw [hcoordinator]
      exact hclock.onEvent event _
    have hrun := ih hnext (n + 1)
    rw [hconfig, hstore, hcoordinator, onEvent_approved, approvedOps, hcontext, hsame,
      submitOps_length _ _ now fun _ => rfl] at hrun
    rw [judged, List.countP_append, List.countP_map, ← add_assoc]
    exact hrun

include hclock in
/-- Two runs whose requests meet the same verdicts are the same. -/
private theorem run_atClock_congr {now now' : Int} (n : Nat) (events : List EngineEvent)
    (h : ∀ j ∈ judged paused n runtime.marketStateStore runtime.strategyCoordinator events,
      (RiskEngine.evaluate runtime.riskConfig j.1 now j.2).approved =
        (RiskEngine.evaluate runtime.riskConfig j.1 now' j.2).approved) :
    machine.run runtime (atClock now paused n events) = machine.run runtime (atClock now' paused n events) := by
  induction events generalizing n runtime with
  | nil => rfl
  | cons event events ih =>
    let input (now : Int) : RuntimeInput :=
      { event := event, strategyClock := fun _ => now, now := fun _ => now, paused := paused n }
    have hsame : ∀ now, runtime.strategyCoordinator.onEvent (input now).event (runtime.contextOf (input now)) =
        runtime.strategyCoordinator.onEvent event ⟨nextStore runtime.marketStateStore event, fun _ => 0⟩ :=
      fun now => hclock.onEvent_eq event _ _ _
    have hbefore : runtime.beforeRequests (input now') = runtime.beforeRequests (input now) := by
      unfold beforeRequests
      rw [hsame now, hsame now']
    rw [judged, List.forall_mem_append, List.forall_mem_map] at h
    obtain ⟨hfirst, hrest⟩ := h
    obtain ⟨hconfig, hstore, -⟩ := beforeRequests_frame runtime (input now)
    have hstep : runtime.onEvent (input now) = runtime.onEvent (input now') := by
      rw [onEvent_eq, onEvent_eq, hbefore, hsame now, hsame now']
      have hpaused : (input now').paused = (input now).paused := rfl
      refine handleRequests_congr now now' hpaused (fun _ => rfl) (fun _ => rfl) 0 _ _ ?_
      rw [hconfig, hstore]
      exact hfirst
    obtain ⟨hconfig', hcoordinator', hstore'⟩ := onEvent_frame runtime (input now)
    have hcoordinator'' := hcoordinator'.trans (congrArg Prod.fst (hsame now))
    have hnext : (runtime.onEvent (input now)).strategyCoordinator.IgnoresClock := by
      rw [hcoordinator'']
      exact hclock.onEvent event _
    have hrun := ih hnext (n + 1) (by rw [hconfig', hcoordinator'', hstore']; exact hrest)
    refine hrun.trans ?_
    rw [hstep]
    rfl

end SimulationRuntime

/-! ### Two replays of one log -/

/-- What two replays of a log have to agree on. -/
structure SameReplay (first second : SimulationRuntime σ) : Prop where
  approved : first.riskApprovedCount = second.riskApprovedCount
  rejected : first.riskRejectedCount = second.riskRejectedCount
  fills : first.appliedFillCount = second.appliedFillCount
  positions : first.portfolioService.positions = second.portfolioService.positions

/-- A predicate that implies another one and holds as often is the same. -/
private theorem eq_of_countP_eq {α : Type*} {p q : α → Bool} {l : List α} (himp : ∀ x, p x = true → q x = true)
    (h : l.countP p = l.countP q) : ∀ x ∈ l, p x = q x := by
  induction l with
  | nil => exact fun _ hx => nomatch hx
  | cons y l ih =>
    have hle : l.countP p ≤ l.countP q := List.countP_mono_left fun x _ => himp x
    have hy := himp y
    rw [List.countP_cons, List.countP_cons] at h
    rw [List.forall_mem_cons]
    cases hpy : p y <;> cases hqy : q y <;> simp [hpy, hqy] at h hy ⊢
    · exact ih h
    · omega
    · exact ih h

/-- Verdicts that occur equally often at two clocks are the same: time turns approvals into rejections only. -/
private theorem verdicts_eq_of_count_eq {config : RiskConfig} {js : List (MarketStateStore × OrderRequest)}
    {now now' : Int} (h : (js.countP fun j => (RiskEngine.evaluate config j.1 now j.2).approved) =
      js.countP fun j => (RiskEngine.evaluate config j.1 now' j.2).approved) :
    ∀ j ∈ js,
      (RiskEngine.evaluate config j.1 now j.2).approved = (RiskEngine.evaluate config j.1 now' j.2).approved := by
  have hlater : ∀ {now now' : Int}, now ≤ now' → ∀ j : MarketStateStore × OrderRequest,
      (RiskEngine.evaluate config j.1 now' j.2).approved = true →
        (RiskEngine.evaluate config j.1 now j.2).approved = true := by
    intro now now' hle j
    rw [RiskEngine.evaluate_approved_iff, RiskEngine.evaluate_approved_iff]
    rintro ⟨hother, hfresh⟩
    refine ⟨hother, Bool.eq_false_iff.2 fun hstale => ?_⟩
    rw [MarketStateStore.isStale_of_le hle hstale] at hfresh
    cases hfresh
  rcases le_total now now' with hle | hle
  · exact fun j hj => (eq_of_countP_eq (hlater hle) h.symm j hj).symm
  · exact eq_of_countP_eq (hlater hle) h

/-- A runtime with a threshold strategy. -/
def exampleThresholdRuntime : SimulationRuntime SignalState :=
  SimulationRuntime.fresh
    { maxOrderQuantity := 1, maxOrderNotional := 50000, maxPositionQuantity := 2, staleAfterMs := 1000 }
    { strategyCoordinator := StrategyCoordinator.addStrategy {}
        (SampleThresholdStrategyConfig.strategy
          { strategyId := "threshold-1", instrumentId := "btc-usdt", triggerPrice := 42000
            orderQuantity := 1 / 20 }) {} }

def exampleTrade : MarketEvent where
  eventId := "event-1"
  instrument := { instrumentId := "btc-usdt" }
  price := 41990
  quantity := 1 / 2
  processTimestamp := 9999990

/-- A log of one trade. -/
def exampleTradeLog : String := decimalService.logOf [exampleTrade]

private theorem replay_exampleTradeLog : (decimalService.replay (some exampleTradeLog)).1 = [.market exampleTrade] := by
  decide +kernel

private theorem ignoresClock_exampleThresholdRuntime :
    exampleThresholdRuntime.strategyCoordinator.IgnoresClock :=
  List.forall_mem_singleton.2 (SampleThresholdStrategyConfig.strategy_ignoresClock _)

end Wall
