import Wall.ConfigLoader
import Wall.OrderIds
import Wall.RuntimeFrames
import Wall.SampleStrategies
import Wall.StrategyIsolation

/-!
# What the program's strategies request

`build_strategy_coordinator` of `app/application.cpp` and the tools: a threshold strategy and a spread strategy on one
instrument.  Each of them emits a request once, and again only when a `reset_strategy` command has come in between
(`Signals`), and numbers its requests from one.  So in any run of a runtime with these strategies the matching engine
gets at most one order of each strategy for the start and for each reset, and never two with one request id.
-/

namespace Wall

/-! ### Strategies that signal once -/

def isReset : EngineEvent → Bool
  | .transaction command => command.commandType = "reset_strategy"
  | _ => false

namespace SignalState

/-- The state after an event on which nothing is emitted. -/
def afterEvent (state : SignalState) : EngineEvent → SignalState
  | .transaction command => state.onCommand command
  | _ => state

private theorem afterEvent_nextRequestId (state : SignalState) (event : EngineEvent) :
    (state.afterEvent event).nextRequestId = state.nextRequestId := by
  cases event with
  | transaction command =>
    unfold afterEvent onCommand
    dsimp only
    split <;> rfl
  | market => rfl
  | timer => rfl

/-- The requests that a strategy in this state may still emit without a reset. -/
def budget (state : SignalState) : Nat := if state.hasEmittedSignal then 0 else 1

private theorem budget_afterEvent (state : SignalState) (event : EngineEvent) :
    (state.afterEvent event).budget ≤ state.budget + if isReset event then 1 else 0 := by
  cases event with
  | transaction command =>
    obtain ⟨hasEmittedSignal, nextRequestId⟩ := state
    by_cases hreset : command.commandType = "reset_strategy" <;> cases hasEmittedSignal <;>
      simp [afterEvent, onCommand, isReset, budget, hreset]
  | market => exact Nat.le_add_right _ _
  | timer => exact Nat.le_add_right _ _

end SignalState

/-- On an event the strategy emits one request, numbered by its state, if it has not emitted one since the last reset,
or it emits nothing. -/
structure Signals (strategy : Strategy SignalState) (ok : OrderRequest → Prop) : Prop where
  step : ∀ state event context,
    (∃ request, state.hasEmittedSignal = false ∧ ok request ∧
      request.requestId = state.requestId strategy.strategyId ∧
      strategy.onEvent state event context = (state.emitted, some [request])) ∨
    strategy.onEvent state event context = (state.afterEvent event, some [])

/-- The requests of a strategy: numbered in order from a number on, no more than there is a budget for, and all of the
given kind. -/
structure NumberedRequests (strategyId : String) (ok : OrderRequest → Prop) (first budget : Nat)
    (requests : List OrderRequest) : Prop where
  requestIds : requests.map OrderRequest.requestId =
    (List.range' first requests.length).map fun n => strategyId ++ "-request-" ++ toString n
  length_le : requests.length ≤ budget
  kind : ∀ request ∈ requests, ok request

namespace NumberedRequests

variable {strategyId : String} {ok : OrderRequest → Prop} {first budget : Nat} {requests : List OrderRequest}
  (h : NumberedRequests strategyId ok first budget requests)
include h

theorem mono {ok' : OrderRequest → Prop} (hok : ∀ request, ok request → ok' request) :
    NumberedRequests strategyId ok' first budget requests :=
  ⟨h.requestIds, h.length_le, fun request hrequest => hok request (h.kind request hrequest)⟩

/-- Request ids of one strategy are as distinct as their numbers. -/
theorem nodup : (requests.map OrderRequest.requestId).Nodup := by
  rw [h.requestIds]
  refine List.Nodup.map ?_ (List.nodup_range' ..)
  intro m n hmn
  exact Decimal.repr_injective ((String.append_right_inj (strategyId ++ "-request-")).1 hmn)

/-- A strategy keeps to its budget, and emits nothing under another id. -/
private theorem countP_le (hid : ∀ request, ok request → request.strategyId = strategyId) (s : String) :
    (requests.countP fun request => request.strategyId = s) ≤ if s = strategyId then budget else 0 := by
  split
  · exact List.countP_le_length.trans h.length_le
  · rename_i hne
    refine (List.countP_eq_zero.2 fun request hrequest => ?_).le
    rw [decide_eq_true_eq, hid request (h.kind request hrequest)]
    exact Ne.symm hne

end NumberedRequests

theorem Signals.requests {strategy : Strategy SignalState} {ok : OrderRequest → Prop} (h : Signals strategy ok)
    (inputs : List (EngineEvent × StrategyContext)) (slot : StrategySlot SignalState)
    (hstrategy : slot.strategy = strategy) (hpaused : slot.stats.paused = false) :
    NumberedRequests strategy.strategyId ok slot.state.nextRequestId
        (slot.state.budget + inputs.countP fun input => isReset input.1)
        (StrategySlot.machine.outputs slot inputs).flatten ∧
      (StrategySlot.machine.run slot inputs).stats.paused = false := by
  induction inputs generalizing slot with
  | nil => exact ⟨⟨rfl, Nat.zero_le _, fun _ hmem => absurd hmem List.not_mem_nil⟩, hpaused⟩
  | cons input inputs ih =>
    obtain ⟨event, context⟩ := input
    rw [Machine.outputs_cons, Machine.run_cons, List.flatten_cons, List.countP_cons]
    rcases h.step slot.state event context with ⟨request, hsilent, hok, hid, hstep⟩ | hstep
    · rw [← hstrategy] at hstep hid
      rw [StrategySlot.step_of_emit hpaused hstep]
      dsimp only
      obtain ⟨⟨hids, hlength, hkind⟩, hrun⟩ := ih (slot.emitted slot.state.emitted [request]) hstrategy
        (StrategySlot.paused_emitted hpaused _ _)
      refine ⟨⟨?_, ?_, List.forall_mem_cons.2 ⟨hok, hkind⟩⟩, hrun⟩
      · rw [← hstrategy] at hids ⊢
        rw [List.singleton_append, List.map_cons, hids, List.length_cons, List.range'_succ, List.map_cons, hid]
        rfl
      · have hbudget : slot.state.budget = 1 := by rw [SignalState.budget, hsilent]; rfl
        have hspent : (slot.emitted slot.state.emitted [request]).state.budget = 0 := rfl
        rw [hspent] at hlength
        rw [List.singleton_append, List.length_cons, hbudget]
        omega
    · rw [← hstrategy] at hstep
      rw [StrategySlot.step_of_emit hpaused hstep]
      dsimp only
      obtain ⟨⟨hids, hlength, hkind⟩, hrun⟩ := ih (slot.emitted (slot.state.afterEvent event) []) hstrategy
        (StrategySlot.paused_emitted hpaused _ _)
      refine ⟨⟨?_, ?_, hkind⟩, hrun⟩
      · rw [List.nil_append, hids]
        exact congrArg (fun first => (List.range' first _).map _) (slot.state.afterEvent_nextRequestId event)
      · have hbudget := slot.state.budget_afterEvent event
        have hslot : (slot.emitted (slot.state.afterEvent event) []).state = slot.state.afterEvent event := rfl
        rw [hslot] at hlength
        rw [List.nil_append]
        omega

/-! ### The strategies of the program -/

/-- The threshold strategy signals, with limit orders of its own quantity and side. -/
theorem SampleThresholdStrategyConfig.signals (config : SampleThresholdStrategyConfig) :
    Signals config.strategy fun request => request.strategyId = config.strategyId ∧
      request.quantity = config.orderQuantity ∧ request.side = config.side ∧ request.type = .limit ∧
      (config.instrument.instrumentId ≠ "" → config.instrument.quoteAsset ≠ "" →
        request.instrument = config.instrument) ∧ ∃ price, request.price = some price ∧ 0 < price where
  step := by
    intro state event context
    unfold strategy
    dsimp only
    cases event with
    | market event =>
      dsimp only
      split
      · exact .inr rfl
      · rename_i hevent
        split
        · exact .inr rfl
        · split
          · rename_i hemit
            refine .inl ⟨_, ?_, ⟨rfl, rfl, rfl, rfl, ?_, event.price, rfl, ?_⟩, rfl, rfl⟩
            · unfold shouldEmitForTradePrice at hemit
              cases hsignal : state.hasEmittedSignal with
              | false => rfl
              | true => simp [hsignal] at hemit
            · intro hid hquote
              exact if_neg (by simp [hid, hquote])
            · exact lt_of_not_ge fun hle => hevent (.inr hle)
          · exact .inr rfl
    | transaction command => exact .inr rfl
    | timer event => exact .inr rfl

/-- The spread strategy signals, with limit orders of its own quantity and side. -/
theorem SpreadCaptureStrategyConfig.signals (config : SpreadCaptureStrategyConfig) :
    Signals config.strategy fun request => request.strategyId = config.strategyId ∧
      request.quantity = config.orderQuantity ∧ request.side = config.side ∧ request.type = .limit ∧
      request.instrument = config.instrument where
  step := by
    intro state event context
    unfold strategy
    dsimp only
    cases event with
    | market event =>
      dsimp only
      split
      · exact .inr rfl
      · rename_i hevent
        rw [not_or] at hevent
        split
        · exact .inr rfl
        · split
          · split
            · exact .inr rfl
            · exact .inl ⟨_, Bool.eq_false_iff.2 hevent.1, ⟨rfl, rfl, rfl, rfl, rfl⟩, rfl, rfl⟩
          · exact .inr rfl
    | transaction command => exact .inr rfl
    | timer event => exact .inr rfl

/-! ### The requests of a run -/

section Runs

variable {σ : Type*}

/-- Whatever the order in which the slots take turns, the coordinator emits what its slots emit. -/
private theorem StrategyCoordinator.outputs_perm (coordinator : StrategyCoordinator σ)
    (inputs : List (EngineEvent × StrategyContext)) : (machine.outputs coordinator inputs).flatten.Perm
      (coordinator.strategies.flatMap fun slot => (StrategySlot.machine.outputs slot inputs).flatten) := by
  induction inputs generalizing coordinator with
  | nil => simp
  | cons input inputs ih =>
    rw [Machine.outputs_cons, List.flatten_cons]
    refine (List.Perm.append_left _ (ih _)).trans ?_
    have hfirst : (machine.step coordinator input).2 =
        coordinator.strategies.flatMap fun slot => (StrategySlot.machine.step slot input).2 := by
      simp only [machine, onEvent, List.flatMap_map]
      rfl
    have hnext : (machine.step coordinator input).1.strategies =
        coordinator.strategies.map fun slot => (StrategySlot.machine.step slot input).1 := by
      simp only [machine, onEvent, List.map_map]
      rfl
    rw [hfirst, hnext, List.flatMap_map]
    exact List.flatMap_append_perm _ _ _

namespace SimulationRuntime

/-- What the strategies see of a run. -/
def contextsOf : SimulationRuntime σ → List RuntimeInput → List (EngineEvent × StrategyContext)
  | _, [] => []
  | runtime, input :: inputs => (input.event, runtime.contextOf input) :: contextsOf (runtime.onEvent input) inputs

/-- The requests that the matching engine gets in a run. -/
def submittedRequests (runtime : SimulationRuntime σ) (inputs : List RuntimeInput) : List OrderRequest :=
  (runtime.callsOf inputs).filterMap TradingOp.request?

private theorem map_fst_contextsOf (runtime : SimulationRuntime σ) (inputs : List RuntimeInput) :
    (runtime.contextsOf inputs).map Prod.fst = inputs.map RuntimeInput.event := by
  induction inputs generalizing runtime with
  | nil => rfl
  | cons input inputs ih => exact congrArg (List.cons input.event) (ih _)

private theorem coordinator_run (runtime : SimulationRuntime σ) (inputs : List RuntimeInput) :
    (machine.run runtime inputs).strategyCoordinator =
      StrategyCoordinator.machine.run runtime.strategyCoordinator (runtime.contextsOf inputs) := by
  induction inputs generalizing runtime with
  | nil => rfl
  | cons input inputs ih =>
    rw [Machine.run_cons, ih, contextsOf, Machine.run_cons]
    congr 1
    exact (onEvent_frame runtime input).2.1

private theorem submitOps_requests (riskConfig : RiskConfig) (store : MarketStateStore) (input : RuntimeInput) (k : Nat)
    (requests : List OrderRequest) :
    ((submitOps riskConfig store input k requests).filterMap TradingOp.request?).Sublist requests := by
  induction requests generalizing k with
  | nil => exact .slnil
  | cons request requests ih =>
    rw [submitOps, List.filterMap_append]
    split
    · exact (ih (k + 1)).cons_cons request
    · exact (ih (k + 1)).cons request

/-- The matching engine gets requests that the strategies have emitted, in the same order. -/
private theorem submittedRequests_sublist (runtime : SimulationRuntime σ) (inputs : List RuntimeInput) :
    (runtime.submittedRequests inputs).Sublist
      (StrategyCoordinator.machine.outputs runtime.strategyCoordinator (runtime.contextsOf inputs)).flatten := by
  induction inputs generalizing runtime with
  | nil => exact .slnil
  | cons input inputs ih =>
    rw [submittedRequests, callsOf, List.filterMap_append, contextsOf, Machine.outputs_cons, List.flatten_cons]
    refine List.Sublist.append ?_ ?_
    · have hmarket : (marketOps input.event).filterMap TradingOp.request? = [] := by cases input.event <;> rfl
      have hemitted : runtime.requestsOf input = (StrategyCoordinator.machine.step runtime.strategyCoordinator
          (input.event, runtime.contextOf input)).2 := runtime.requestsOf_eq input
      rw [tradingOps, List.filterMap_append, hmarket, List.nil_append, ← hemitted]
      exact submitOps_requests _ _ _ _ _
    · have hrest := ih (runtime.onEvent input)
      rw [(onEvent_frame runtime input).2.1] at hrest
      exact hrest

end SimulationRuntime

end Runs

/-! ### The strategies of the application -/

def parseOrderSide (side : String) : OrderSide := if side = "sell" then .sell else .buy

def buildInstrument (exchange symbol : String) : Instrument where
  instrumentId := exchange ++ ":" ++ symbol
  exchange := exchange
  symbol := symbol
  baseAsset := if symbol.length ≥ 3 then String.ofList (symbol.toList.take 3) else symbol
  quoteAsset := if symbol.length > 3 then String.ofList (symbol.toList.drop 3) else "USD"
  tickSize := 1 / 10
  lotSize := 1 / 10000

def primaryInstrument (exchangeName : String) (instruments : List String) : Instrument :=
  buildInstrument exchangeName (instruments.headD "BTCUSDT")

def thresholdConfig (instrument : Instrument) (strategy : StrategyConfig) : SampleThresholdStrategyConfig where
  strategyId := strategy.strategyId
  instrumentId := instrument.instrumentId
  instrument := instrument
  triggerPrice := strategy.triggerPrice
  orderQuantity := strategy.orderQuantity
  side := parseOrderSide strategy.side

def spreadConfig (instrument : Instrument) (strategy : StrategyConfig) : SpreadCaptureStrategyConfig where
  strategyId := strategy.strategyId ++ "-spread"
  instrument := instrument
  minSpread := instrument.tickSize * 5
  orderQuantity := strategy.orderQuantity * (1 / 2)
  side := parseOrderSide strategy.side

/-- The strategies that the application adds to its coordinator. -/
def applicationStrategies (exchangeName : String) (instruments : List String) (strategy : StrategyConfig) :
    List (Strategy SignalState × SignalState) :=
  let instrument := primaryInstrument exchangeName instruments
  [((thresholdConfig instrument strategy).strategy, {}), ((spreadConfig instrument strategy).strategy, {})]

def buildStrategyCoordinator (exchangeName : String) (instruments : List String) (strategy : StrategyConfig) :
    StrategyCoordinator SignalState :=
  .ofStrategies (applicationStrategies exchangeName instruments strategy)

private theorem primaryInstrument_quoted (exchangeName : String) (instruments : List String) :
    (primaryInstrument exchangeName instruments).instrumentId ≠ "" ∧
      (primaryInstrument exchangeName instruments).quoteAsset ≠ "" := by
  unfold primaryInstrument buildInstrument
  generalize instruments.headD "BTCUSDT" = symbol
  constructor
  · intro hempty
    have hlength := congrArg String.length hempty
    simp at hlength
  · dsimp only
    split
    · rename_i hlong
      intro hempty
      have hlength : (symbol.toList.drop 3).length = 0 := by
        rw [← String.length_ofList, hempty]
        rfl
      rw [List.length_drop, String.length_toList] at hlength
      omega
    · decide

/-- No request id of the one strategy is one of the other. -/
private theorem requestId_ne_spread (strategyId : String) (m n : Nat) :
    strategyId ++ "-request-" ++ toString m ≠ strategyId ++ "-spread" ++ "-request-" ++ toString n := by
  intro hsame
  rw [String.append_assoc, String.append_assoc, String.append_assoc, String.append_right_inj] at hsame
  have hchars := congrArg (fun text : String => text.toList[1]?) hsame
  simp [String.toList_append] at hchars

/-- A limit order on the instrument, on the configured side, of one of the strategies. -/
structure RequestOf (instrument : Instrument) (strategy : StrategyConfig) (strategyId : String) (quantity : ℚ)
    (request : OrderRequest) : Prop where
  strategyId_eq : request.strategyId = strategyId
  quantity_eq : request.quantity = quantity
  side_eq : request.side = parseOrderSide strategy.side
  type_eq : request.type = .limit
  instrument_eq : request.instrument = instrument

/-- What the coordinator of the application emits on some events: the requests of its two strategies, with a budget of
one for the start and one for each reset. -/
private theorem coordinator_requests (exchangeName : String) (instruments : List String) (strategy : StrategyConfig)
    (inputs : List (EngineEvent × StrategyContext)) :
    let coordinator := buildStrategyCoordinator exchangeName instruments strategy
    let instrument := primaryInstrument exchangeName instruments
    let budget := 1 + inputs.countP fun input => isReset input.1
    ∃ first second, (StrategyCoordinator.machine.outputs coordinator inputs).flatten.Perm (first ++ second) ∧
      NumberedRequests strategy.strategyId
        (RequestOf instrument strategy strategy.strategyId strategy.orderQuantity) 1 budget first ∧
      NumberedRequests (strategy.strategyId ++ "-spread")
        (RequestOf instrument strategy (strategy.strategyId ++ "-spread") (strategy.orderQuantity * (1 / 2))) 1 budget
        second ∧
      ∀ stats ∈ (StrategyCoordinator.machine.run coordinator inputs).allStats, stats.paused = false := by
  intro coordinator instrument budget
  let threshold := StrategyCoordinator.slotOf ((thresholdConfig instrument strategy).strategy, {})
  let spread := StrategyCoordinator.slotOf ((spreadConfig instrument strategy).strategy, {})
  have hslots : coordinator.strategies = [threshold, spread] :=
    StrategyCoordinator.strategies_ofStrategies (applicationStrategies exchangeName instruments strategy)
  obtain ⟨hthreshold, hthresholdRuns⟩ := (thresholdConfig instrument strategy).signals.requests inputs threshold rfl rfl
  obtain ⟨hspread, hspreadRuns⟩ := (spreadConfig instrument strategy).signals.requests inputs spread rfl rfl
  have hemitted := StrategyCoordinator.outputs_perm coordinator inputs
  rw [hslots, List.flatMap_cons, List.flatMap_singleton] at hemitted
  obtain ⟨hid, hquote⟩ := primaryInstrument_quoted exchangeName instruments
  refine ⟨_, _, hemitted, hthreshold.mono ?_, hspread.mono ?_, fun stats hstats => ?_⟩
  · rintro request ⟨hstrategy, hquantity, hside, htype, hinstrument, -⟩
    exact ⟨hstrategy, hquantity, hside, htype, hinstrument hid hquote⟩
  · rintro request ⟨hstrategy, hquantity, hside, htype, hinstrument⟩
    exact ⟨hstrategy, hquantity, hside, htype, hinstrument⟩
  · rw [StrategyCoordinator.allStats, StrategyCoordinator.strategies_run, hslots, List.map_map] at hstats
    simp only [List.map_cons, List.map_nil, Function.comp_apply, List.mem_cons, List.not_mem_nil, or_false] at hstats
    rcases hstats with rfl | rfl
    · exact hthresholdRuns
    · exact hspreadRuns

/-- In any run of a runtime with the application's strategies, whatever a recovery has put into the rest of it: the
orders that reach the matching engine have distinct request ids, and for each strategy there is at most one of them for
the start and one for each reset; each is a limit order on the primary instrument, on the configured side and of the
configured quantity, or half of it for the spread strategy; and no strategy is ever paused. -/
theorem application_requests (exchangeName : String) (instruments : List String) (strategy : StrategyConfig)
    (started : SimulationRuntime SignalState) (inputs : List RuntimeInput) :
    let runtime := { started with
      strategyCoordinator := buildStrategyCoordinator exchangeName instruments strategy }
    let submitted := runtime.submittedRequests inputs
    let resets := inputs.countP fun input => isReset input.event
    (submitted.map OrderRequest.requestId).Nodup ∧
      (∀ strategyId, (submitted.countP fun request => request.strategyId = strategyId) ≤ 1 + resets) ∧
      (∀ request ∈ submitted, request.instrument = primaryInstrument exchangeName instruments ∧
        request.side = parseOrderSide strategy.side ∧ request.type = .limit ∧
        (request.strategyId = strategy.strategyId ∧ request.quantity = strategy.orderQuantity ∨
          request.strategyId = strategy.strategyId ++ "-spread" ∧
            request.quantity = strategy.orderQuantity * (1 / 2))) ∧
      ∀ stats ∈ (SimulationRuntime.machine.run runtime inputs).strategyCoordinator.allStats, stats.paused = false := by
  intro runtime submitted resets
  obtain ⟨first, second, hemitted, hthreshold, hspread, hruns⟩ :=
    coordinator_requests exchangeName instruments strategy (runtime.contextsOf inputs)
  have hbudget : (runtime.contextsOf inputs).countP (fun input => isReset input.1) = resets := by
    show List.countP (isReset ∘ Prod.fst) _ = List.countP (isReset ∘ RuntimeInput.event) _
    rw [← List.countP_map, SimulationRuntime.map_fst_contextsOf, List.countP_map]
  rw [hbudget] at hthreshold hspread
  have hsublist : submitted.Sublist _ := runtime.submittedRequests_sublist inputs
  have hne : strategy.strategyId ≠ strategy.strategyId ++ "-spread" := by
    intro hsame
    have hlength := congrArg String.length hsame
    simp at hlength
  refine ⟨?_, fun strategyId => ?_, fun request hrequest => ?_, ?_⟩
  · refine (hsublist.map _).nodup ((hemitted.map _).nodup_iff.2 ?_)
    rw [List.map_append]
    refine List.Nodup.append hthreshold.nodup hspread.nodup ?_
    rw [hthreshold.requestIds, hspread.requestIds]
    intro id hfirst hsecond
    obtain ⟨m, -, rfl⟩ := List.mem_map.1 hfirst
    obtain ⟨n, -, hn⟩ := List.mem_map.1 hsecond
    exact requestId_ne_spread strategy.strategyId m n hn.symm
  · refine hsublist.countP_le.trans ?_
    rw [hemitted.countP_eq, List.countP_append]
    have hfirst := hthreshold.countP_le (fun _ hrequest => hrequest.strategyId_eq) strategyId
    have hsecond := hspread.countP_le (fun _ hrequest => hrequest.strategyId_eq) strategyId
    -- at most one of the two strategies has this id
    by_cases hstrategy : strategyId = strategy.strategyId
    · rw [if_neg (hstrategy ▸ hne)] at hsecond
      rw [if_pos hstrategy] at hfirst
      omega
    · rw [if_neg hstrategy] at hfirst
      split at hsecond <;> omega
  · rcases List.mem_append.1 (hemitted.mem_iff.1 (hsublist.subset hrequest)) with hmem | hmem
    · have h := hthreshold.kind request hmem
      exact ⟨h.instrument_eq, h.side_eq, h.type_eq, .inl ⟨h.strategyId_eq, h.quantity_eq⟩⟩
    · have h := hspread.kind request hmem
      exact ⟨h.instrument_eq, h.side_eq, h.type_eq, .inr ⟨h.strategyId_eq, h.quantity_eq⟩⟩
  · intro stats hstats
    rw [SimulationRuntime.coordinator_run] at hstats
    exact hruns stats hstats

end Wall
