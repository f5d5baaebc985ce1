import Wall.ExecutedNotional
import Wall.MarketHistory
import Wall.RuntimeFrames
import Mathlib.Tactic.MkIffOfInductiveProp

/-!
# Which orders a run trades

A request reaches the matching engine through the pause switch and `RiskEngine::evaluate`, and both look at the moment:
the operator may pause or resume and the market data may grow old between two requests of one event.  `emissions` lists
what the strategies ask for in a run, each request with the market events received by then and with what the switch and
the clock say when it is taken up, and `Admitted` says what it takes to be traded.  Neither looks at orders or fills.

The orders of a run are the admitted emissions, numbered in turn (`admitted_orders`): no other order is tracked, no
admitted one is missed, no fill is of anything else, and the two counters of the runtime count the rest.
-/

namespace Wall

/-- A request of a strategy, with the market events received before it is taken up, and the pause switch and the clock
as they are read then. -/
structure Emission where
  received : List MarketEvent
  paused : Bool
  now : Int
  request : OrderRequest

namespace Emission

/-- The market events, as the store keeps them. -/
def store (emission : Emission) : MarketStateStore := emission.received.foldl MarketStateStore.apply {}

/-- The state of the request's market. -/
def market (emission : Emission) : Option MarketState := emission.store.get emission.request.instrument.instrumentId

/-- The limit price of the request, or the price of the last trade in its market. -/
def referencePrice (emission : Emission) : Option ℚ :=
  emission.request.price <|> emission.market.bind MarketState.lastTradePrice

/-- What it takes to be traded. -/
@[mk_iff]
structure Admitted (emission : Emission) (riskConfig : RiskConfig) : Prop where
  running : emission.paused = false
  enabled : riskConfig.killSwitchEnabled = false
  positive : 0 < emission.request.quantity
  orderLimit : emission.request.quantity ≤ riskConfig.maxOrderQuantity
  positionLimit : emission.request.quantity ≤ riskConfig.maxPositionQuantity
  recent : ∃ state, emission.market = some state ∧ emission.now - state.lastProcessTimestamp ≤ riskConfig.staleAfterMs
  notional : ∃ price, emission.referencePrice = some price ∧
    emission.request.quantity * price ≤ riskConfig.maxOrderNotional

private theorem resolveReferencePrice_eq (emission : Emission) :
    RiskEngine.resolveReferencePrice emission.store emission.request = emission.referencePrice := by
  unfold RiskEngine.resolveReferencePrice referencePrice market
  cases emission.request.price <;> rfl

private theorem isStale_eq_false_iff (emission : Emission) (staleAfterMs : Int) :
    emission.store.isStale emission.now emission.request.instrument.instrumentId staleAfterMs = false ↔
      ∃ state, emission.market = some state ∧ emission.now - state.lastProcessTimestamp ≤ staleAfterMs := by
  unfold MarketStateStore.isStale market
  cases emission.store.get emission.request.instrument.instrumentId with
  | none => simp
  | some state => simp

/-- A check that is passed leaves the decision to the checks after it. -/
private theorem approved_ite {c : Prop} [Decidable c] {reason : Option String} {decision : RiskDecision} :
    (if c then { approved := false, reason := reason } else decision : RiskDecision).approved = true ↔
      ¬c ∧ decision.approved = true := by
  by_cases hc : c
  · rw [if_pos hc]
    exact iff_of_false Bool.false_ne_true fun h => h.1 hc
  · rw [if_neg hc, and_iff_right hc]

/-- The switch and the checks let through what is admitted. -/
private theorem admitted_iff_approved (emission : Emission) (riskConfig : RiskConfig) :
    emission.Admitted riskConfig ↔ emission.paused = false ∧
      (RiskEngine.evaluate riskConfig emission.store emission.now emission.request).approved = true := by
  unfold RiskEngine.evaluate
  rw [approved_ite, approved_ite, approved_ite, approved_ite, approved_ite, Bool.not_eq_true, Bool.not_eq_true,
    isStale_eq_false_iff, resolveReferencePrice_eq, not_le, not_lt, not_lt, admitted_iff]
  -- the checks are the fields in the same order, up to the last one, which looks at the reference price
  iterate 6 refine and_congr_right fun _ => ?_
  cases emission.referencePrice with
  | none => exact iff_of_false nofun Bool.false_ne_true
  | some price =>
    dsimp only
    rw [approved_ite, not_lt, and_iff_left rfl]
    exact ⟨fun ⟨_, hprice, h⟩ => Option.some.inj hprice ▸ h, fun h => ⟨price, rfl, h⟩⟩

instance (riskConfig : RiskConfig) : DecidablePred fun emission : Emission => emission.Admitted riskConfig :=
  fun emission => decidable_of_iff _ (emission.admitted_iff_approved riskConfig).symm

/-- The state of a market has the process timestamp of one of its events. -/
private theorem exists_lastProcessTimestamp {events : List MarketEvent} (hne : events ≠ []) :
    ∃ event ∈ events,
      (events.foldl MarketStateStore.merge {}).lastProcessTimestamp = event.processTimestamp := by
  induction events using List.reverseRecOn with
  | nil => exact absurd rfl hne
  | append_singleton events event ih =>
    rw [List.foldl_append, List.foldl_cons, List.foldl_nil]
    by_cases hold : (events.foldl MarketStateStore.merge {}).lastProcessTimestamp > 0 ∧
        event.processTimestamp < (events.foldl MarketStateStore.merge {}).lastProcessTimestamp
    · -- an old event is dropped, and the first event is never old
      have hbefore : events ≠ [] := by
        rintro rfl
        exact absurd hold.1 (lt_irrefl _)
      obtain ⟨event', hevent', htime⟩ := ih hbefore
      have hdropped : MarketStateStore.merge (events.foldl MarketStateStore.merge {}) event =
          events.foldl MarketStateStore.merge {} := if_pos hold
      rw [hdropped]
      exact ⟨event', List.mem_append_left _ hevent', htime⟩
    · rw [MarketStateStore.merge_of_inOrder hold]
      exact ⟨event, List.mem_append_right _ (List.mem_singleton_self _), rfl⟩

/-- An admitted request is for a market with an event that is recent when the request is taken up. -/
private theorem Admitted.exists_recent {emission : Emission} {riskConfig : RiskConfig}
    (h : emission.Admitted riskConfig) :
    ∃ event ∈ emission.received, event.instrument.instrumentId = emission.request.instrument.instrumentId ∧
      emission.now - event.processTimestamp ≤ riskConfig.staleAfterMs := by
  obtain ⟨state, hstate, hrecent⟩ := h.recent
  rw [market, store, MarketStateStore.get_foldl_apply] at hstate
  split at hstate
  · cases hstate
  · rename_i hne
    cases hstate
    obtain ⟨event, hevent, htime⟩ := exists_lastProcessTimestamp hne
    obtain ⟨hreceived, hinstrument⟩ := Interleaving.mem_ofKey.1 hevent
    exact ⟨event, hreceived, hinstrument, htime ▸ hrecent⟩

end Emission

/-! ### The orders of a run of calls -/

/-- A record of the order `number`, for a request. -/
structure OrderRecord.Books (r : OrderRecord) (number : Nat) (request : OrderRequest) : Prop where
  orderId : r.orderId = matchOrderId number
  clientOrderId : r.clientOrderId = matchClientOrderId number
  terms : r.terms = request.terms

theorem OrderRecord.Books.evolves {r r' : OrderRecord} {number : Nat} {request : OrderRequest}
    (h : r.Books number request) (hevolves : r.Evolves r') : r'.Books number request := by
  rw [hevolves.same]
  exact ⟨h.orderId, h.clientOrderId, h.terms⟩

namespace MatchingEngine

/-- The next order and the next client order have one number. -/
def Numbers (engine : MatchingEngine) (number : Nat) : Prop :=
  engine.nextOrderId = number ∧ engine.nextClientOrderId = number

theorem Numbers.newRecord {engine : MatchingEngine} {number : Nat} (h : engine.Numbers number)
    (request : OrderRequest) : (engine.newRecord request).Books number request := by
  obtain ⟨horder, hclient⟩ := h
  exact ⟨by rw [← horder]; rfl, by rw [← hclient]; rfl, rfl⟩

private theorem Steady.submit_numbers {engine : MatchingEngine} (h : engine.Steady) {number : Nat}
    (hnumber : engine.Numbers number) (request : OrderRequest) :
    (engine.submit request).1.Numbers (number + 1) := by
  obtain ⟨rfl, hclient⟩ := hnumber
  rcases engine.submit_cases request with ⟨reason, heq, -⟩ | ⟨-, hacc⟩
  · rw [heq]
    exact ⟨rfl, congrArg (· + 1) hclient⟩
  · obtain ⟨es, fills, hs⟩ := h.sync.submit_spec h.issued_untracked hacc
    rw [hs.eq]
    exact ⟨rfl, congrArg (· + 1) hclient⟩

theorem Numbers.processMarketEvent {engine : MatchingEngine} {number : Nat} (h : engine.Numbers number)
    (event : MarketEvent) : (engine.processMarketEvent event).1.Numbers number := by
  unfold MatchingEngine.processMarketEvent
  split <;> exact h

end MatchingEngine

namespace TradingCore

/-- What is tracked after some calls: the orders of `requests`, numbered from `number`, and nothing else that was not
tracked before. -/
structure TracksRequests (core : TradingCore) (number : Nat) (requests : List OrderRequest) (core' : TradingCore) :
    Prop where
  tracked : ∀ k (hk : k < requests.length), ∃ r, core'.engine.getOrder (matchOrderId (number + k)) = some r ∧
    r.Books (number + k) requests[k]
  only : ∀ id, core.engine.getOrder id = none → core'.engine.getOrder id ≠ none →
    ∃ k < requests.length, id = matchOrderId (number + k)

/-- An id that is untracked stays so in a call that does not issue it. -/
theorem untracked_step {core : TradingCore} (h : core.engine.Steady) {op : TradingOp} {id : String}
    (hid : core.engine.getOrder id = none) (hne : op.engineOp.newId core.engine ≠ some id) :
    (core.step op).engine.getOrder id = none := by
  rw [step_engine]
  exact h.sync.untracked_step (h.fresh (isRestore_engineOp op)) hid hne

private theorem tracksRequests_run {core : TradingCore} (h : core.engine.Steady) {number : Nat}
    (hnumber : core.engine.Numbers number) (ops : List TradingOp) :
    core.TracksRequests number (ops.filterMap TradingOp.request?) (machine.run core ops) := by
  induction ops generalizing core number with
  | nil => exact ⟨fun k hk => absurd hk (Nat.not_lt_zero k), fun id hnone hsome => absurd hnone hsome⟩
  | cons op ops ih =>
    have hnext := steady_step h op
    cases op with
    | market event =>
      have hnumber' : (core.step (.market event)).engine.Numbers number := by
        rw [step_engine]
        exact hnumber.processMarketEvent event
      obtain ⟨htracked, honly⟩ := ih hnext hnumber'
      exact ⟨htracked, fun id hid => honly id (untracked_step h hid nofun)⟩
    | submit request =>
      have hnumber' : (core.step (.submit request)).engine.Numbers (number + 1) := by
        rw [step_engine]
        exact h.submit_numbers hnumber request
      obtain ⟨htracked, honly⟩ := ih hnext hnumber'
      have hcount : ∀ k, number + 1 + k = number + (k + 1) := fun k => by rw [add_assoc, add_comm 1 k]
      have hissued : core.engine.issuedOrderId = matchOrderId number := congrArg matchOrderId hnumber.1
      refine ⟨fun k hk => ?_, fun id hid hsome => ?_⟩
      · cases k with
        | zero =>
          -- the order of this call, which the later calls keep
          obtain ⟨r, hr, htakes⟩ := h.submit_takes request
          obtain ⟨r', hr', htakes'⟩ := run_takes hnext ops (by rw [step_engine]; exact hr)
          rw [hissued] at hr'
          exact ⟨r', hr', ((hnumber.newRecord request).evolves htakes.evolves).evolves htakes'.evolves⟩
        | succ k =>
          rw [← hcount]
          exact htracked k (Nat.lt_of_succ_lt_succ hk)
      · by_cases hnew : id = matchOrderId number
        · exact ⟨0, Nat.succ_pos _, hnew⟩
        · have hne : EngineOp.newId core.engine (.submit request) ≠ some id := by
            intro hsame
            exact hnew ((Option.some.inj hsame).symm.trans hissued)
          obtain ⟨k, hk, hid'⟩ := honly id (untracked_step h hid hne) hsome
          exact ⟨k + 1, Nat.succ_lt_succ hk, hcount k ▸ hid'⟩

end TradingCore

/-! ### The emissions of a run -/

namespace SimulationRuntime

variable {σ : Type*}

/-- The market events of an event. -/
def marketEvents : EngineEvent → List MarketEvent
  | .market event => [event]
  | _ => []

/-- The requests of an event from the request number `k`, each as it is taken up. -/
def emissionsOf (received : List MarketEvent) (input : RuntimeInput) : Nat → List OrderRequest → List Emission
  | _, [] => []
  | k, request :: requests =>
    { received := received, paused := input.paused k, now := input.now k, request := request } ::
      emissionsOf received input (k + 1) requests

/-- What the strategies ask for in a run that has received some market events. -/
def emissions : StrategyCoordinator σ → List MarketEvent → List RuntimeInput → List Emission
  | _, _, [] => []
  | coordinator, received, input :: inputs =>
    let received := received ++ marketEvents input.event
    let (coordinator, requests) := coordinator.onEvent input.event
      { marketStateStore := received.foldl MarketStateStore.apply {}, clock := input.strategyClock }
    emissionsOf received input 0 requests ++ emissions coordinator received inputs

/-- An emission that is checked and turned down. -/
def refused (riskConfig : RiskConfig) (emission : Emission) : Bool :=
  !emission.paused && !decide (emission.Admitted riskConfig)

private theorem nextStore_foldl (received : List MarketEvent) (event : EngineEvent) :
    nextStore (received.foldl MarketStateStore.apply {}) event =
      (received ++ marketEvents event).foldl MarketStateStore.apply {} := by
  rw [List.foldl_append]
  cases event <;> rfl

/-- A request reaches the engine if its emission is admitted. -/
private theorem approves_eq (riskConfig : RiskConfig) (received : List MarketEvent) (input : RuntimeInput) (k : Nat)
    (request : OrderRequest) :
    approves riskConfig (received.foldl MarketStateStore.apply {}) input k request =
      decide (Emission.Admitted ⟨received, input.paused k, input.now k, request⟩ riskConfig) := by
  rw [Bool.eq_iff_iff, decide_eq_true_iff, Emission.admitted_iff_approved, approves, Bool.and_eq_true,
    Bool.not_eq_true']
  rfl

private theorem submitOps_emissionsOf (riskConfig : RiskConfig) (received : List MarketEvent) (input : RuntimeInput)
    (k : Nat) (requests : List OrderRequest) :
    (submitOps riskConfig (received.foldl MarketStateStore.apply {}) input k requests).filterMap TradingOp.request? =
      ((emissionsOf received input k requests).filter fun emission => emission.Admitted riskConfig).map
        Emission.request := by
  induction requests generalizing k with
  | nil => rfl
  | cons request requests ih =>
    rw [submitOps, List.filterMap_append, ih, approves_eq, emissionsOf, List.filter_cons]
    split <;> rfl

/-- The counters of the request loop. -/
private theorem handleRequests_counts (received : List MarketEvent) (input : RuntimeInput) (k : Nat)
    (requests : List OrderRequest) {runtime : SimulationRuntime σ}
    (hstore : runtime.marketStateStore = received.foldl MarketStateStore.apply {}) :
    let emitted := emissionsOf received input k requests
    (handleRequests input k requests runtime).riskApprovedCount =
        runtime.riskApprovedCount + emitted.countP (fun emission => emission.Admitted runtime.riskConfig) ∧
      (handleRequests input k requests runtime).riskRejectedCount =
        runtime.riskRejectedCount + emitted.countP (refused runtime.riskConfig) := by
  induction requests generalizing k runtime with
  | nil => exact ⟨rfl, rfl⟩
  | cons request requests ih =>
    obtain ⟨hconfig, -, hstore', -⟩ := handleRequest_frame runtime input k request
    obtain ⟨happroved, hrejected⟩ := ih (k + 1) (hstore'.trans hstore)
    rw [hconfig] at happroved hrejected
    have happroves := approves_eq runtime.riskConfig received input k request
    dsimp only
    rw [handleRequests, happroved, hrejected, emissionsOf, List.countP_cons, List.countP_cons, refused, ← happroves,
      ← hstore]
    rcases handleRequest_cases runtime input k request with ⟨hadmitted, heq⟩ | ⟨hadmitted, heq⟩
    · have hrunning : input.paused k = false := by
        simpa using (Bool.and_eq_true_iff.1 hadmitted).1
      rw [heq, hadmitted, hrunning]
      exact ⟨Nat.add_right_comm .., rfl⟩
    · rw [heq, hadmitted]
      refine ⟨rfl, ?_⟩
      cases input.paused k
      · exact Nat.add_right_comm ..
      · rfl

/-- What an event does to the calls, the counters and the market state: its emissions are taken up in turn. -/
private theorem onEvent_emissionsOf {runtime : SimulationRuntime σ} {received : List MarketEvent}
    (hstore : runtime.marketStateStore = received.foldl MarketStateStore.apply {}) (input : RuntimeInput) :
    let received := received ++ marketEvents input.event
    let emitted := emissionsOf received input 0 (runtime.requestsOf input)
    (runtime.tradingOps input).filterMap TradingOp.request? =
        (emitted.filter fun emission => emission.Admitted runtime.riskConfig).map Emission.request ∧
      (runtime.onEvent input).riskApprovedCount =
        runtime.riskApprovedCount + emitted.countP (fun emission => emission.Admitted runtime.riskConfig) ∧
      (runtime.onEvent input).riskRejectedCount =
        runtime.riskRejectedCount + emitted.countP (refused runtime.riskConfig) ∧
      (runtime.onEvent input).marketStateStore = received.foldl MarketStateStore.apply {} := by
  intro received' emitted
  have hnext : nextStore runtime.marketStateStore input.event = received'.foldl MarketStateStore.apply {} := by
    rw [hstore, nextStore_foldl]
  obtain ⟨hconfig, hstore', happroved⟩ := beforeRequests_frame runtime input
  have hrejected : (runtime.beforeRequests input).riskRejectedCount = runtime.riskRejectedCount := by
    show (runtime.marketPhase input.event).riskRejectedCount = _
    cases input.event with
    | market event =>
      show (runtime.onMarketEvent event).riskRejectedCount = _
      rw [onMarketEvent_eq]
      rfl
    | timer => rfl
    | transaction => rfl
  obtain ⟨hcount, hcount'⟩ := handleRequests_counts received' input 0 (runtime.requestsOf input) (hstore'.trans hnext)
  rw [hconfig, happroved, requestsOf_eq] at hcount
  rw [hconfig, hrejected, requestsOf_eq] at hcount'
  refine ⟨?_, ?_, ?_, ?_⟩
  · have hmarket : (marketOps input.event).filterMap TradingOp.request? = [] := by cases input.event <;> rfl
    rw [tradingOps, List.filterMap_append, hmarket, List.nil_append, (marketPhase_frame runtime input.event).2.2.1,
      hnext]
    exact submitOps_emissionsOf _ _ _ _ _
  · rw [onEvent_eq, hcount, ← requestsOf_eq]
  · rw [onEvent_eq, hcount', ← requestsOf_eq]
  · rw [(onEvent_frame runtime input).2.2, hnext]

private theorem run_emissions {runtime : SimulationRuntime σ} {received : List MarketEvent}
    (hstore : runtime.marketStateStore = received.foldl MarketStateStore.apply {}) (inputs : List RuntimeInput) :
    let emitted := emissions runtime.strategyCoordinator received inputs
    (runtime.callsOf inputs).filterMap TradingOp.request? =
        (emitted.filter fun emission => emission.Admitted runtime.riskConfig).map Emission.request ∧
      (machine.run runtime inputs).riskApprovedCount =
        runtime.riskApprovedCount + emitted.countP (fun emission => emission.Admitted runtime.riskConfig) ∧
      (machine.run runtime inputs).riskRejectedCount =
        runtime.riskRejectedCount + emitted.countP (refused runtime.riskConfig) := by
  induction inputs generalizing runtime received with
  | nil => exact ⟨rfl, rfl, rfl⟩
  | cons input inputs ih =>
    obtain ⟨hcalls, happroved, hrejected, hstore'⟩ := onEvent_emissionsOf hstore input
    obtain ⟨hcalls', happroved', hrejected'⟩ := ih hstore'
    obtain ⟨hconfig, hcoordinator, -⟩ := onEvent_frame runtime input
    have hcontext : runtime.contextOf input =
        { marketStateStore := (received ++ marketEvents input.event).foldl MarketStateStore.apply {},
          clock := input.strategyClock } := by
      rw [contextOf, hstore, nextStore_foldl]
    -- the emissions of the event, and those of the rest
    have hemitted : emissions runtime.strategyCoordinator received (input :: inputs) =
        emissionsOf (received ++ marketEvents input.event) input 0 (runtime.requestsOf input) ++
          emissions (runtime.onEvent input).strategyCoordinator (received ++ marketEvents input.event) inputs := by
      rw [requestsOf_eq, hcoordinator, hcontext]
      rfl
    rw [hconfig] at hcalls' happroved' hrejected'
    dsimp only
    rw [hemitted, List.filter_append, List.map_append, List.countP_append, List.countP_append, ← add_assoc, ← add_assoc,
      ← happroved, ← hrejected, ← hcalls, ← hcalls', callsOf, List.filterMap_append]
    exact ⟨rfl, happroved', hrejected'⟩

/-- In every run of a fresh runtime, the tracked orders are the admitted emissions, numbered in turn, and every fill is
of one of them.  An admitted emission is in a market with a recent event.  The first counter of the runtime counts the
admitted emissions, the second one those that are turned down while trading is not paused. -/
theorem admitted_orders (riskConfig : RiskConfig) (config : SimulationRuntimeConfig σ) (inputs : List RuntimeInput) :
    let start := fresh riskConfig config
    let runtime := machine.run start inputs
    let emitted := emissions config.strategyCoordinator [] inputs
    let admitted := emitted.filter fun emission => emission.Admitted riskConfig
    (∀ k (hk : k < admitted.length), ∃ r, runtime.executionEngine.getOrder (matchOrderId (1 + k)) = some r ∧
      r.Books (1 + k) admitted[k].request) ∧
    (∀ id, runtime.executionEngine.getOrder id ≠ none → ∃ k < admitted.length, id = matchOrderId (1 + k)) ∧
    (∀ fill ∈ start.core.fills (start.callsOf inputs), ∃ k < admitted.length, fill.orderId = matchOrderId (1 + k)) ∧
    (∀ emission ∈ admitted, ∃ event ∈ emission.received,
      event.instrument.instrumentId = emission.request.instrument.instrumentId ∧
        emission.now - event.processTimestamp ≤ riskConfig.staleAfterMs) ∧
    runtime.riskApprovedCount = admitted.length ∧
    runtime.riskRejectedCount = (emitted.filter (refused riskConfig)).length := by
  intro start runtime emitted admitted
  have hsteady : start.core.engine.Steady := MatchingEngine.empty_steady
  obtain ⟨hrequests, happroved, hrejected⟩ := @run_emissions _ start [] rfl inputs
  have hcore : runtime.core = TradingCore.machine.run start.core (start.callsOf inputs) := run_core start inputs
  have hengine : runtime.executionEngine = (TradingCore.machine.run start.core (start.callsOf inputs)).engine :=
    congrArg TradingCore.engine hcore
  have hnumber : start.core.engine.Numbers 1 := ⟨rfl, rfl⟩
  obtain ⟨htracked, honly⟩ := TradingCore.tracksRequests_run hsteady hnumber (start.callsOf inputs)
  have hlength : ((start.callsOf inputs).filterMap TradingOp.request?).length = admitted.length :=
    (congrArg List.length hrequests).trans (List.length_map _)
  rw [← hengine] at htracked honly
  rw [hlength] at honly
  -- only admitted requests are submitted, so only their numbers are issued
  have hnumbered : ∀ id, runtime.executionEngine.getOrder id ≠ none →
      ∃ k < admitted.length, id = matchOrderId (1 + k) := fun id => honly id rfl
  refine ⟨fun k hk => ?_, hnumbered, fun fill hfill => hnumbered _ fun hnone => ?_, fun emission hemission => ?_, ?_,
    ?_⟩
  · obtain ⟨r, hr, hbooks⟩ := htracked k (hlength ▸ hk)
    refine ⟨r, hr, ?_⟩
    rw [List.getElem_of_eq hrequests, List.getElem_map] at hbooks
    exact hbooks
  · rw [hengine] at hnone
    exact TradingCore.fills_of_untracked hsteady _ hnone fill hfill rfl
  · have hadmitted : emission.Admitted riskConfig := of_decide_eq_true (List.mem_filter.1 hemission).2
    exact hadmitted.exists_recent
  · rw [← List.countP_eq_length_filter]
    exact happroved.trans (Nat.zero_add _)
  · rw [← List.countP_eq_length_filter]
    exact hrejected.trans (Nat.zero_add _)

end SimulationRuntime

end Wall
