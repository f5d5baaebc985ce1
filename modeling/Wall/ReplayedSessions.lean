import Wall.NumberFormats
import Wall.RecoveryService
import Wall.RuntimeFrames

/-!
# Replayed sessions

A session is a list of market events that is appended to the log and processed by a runtime; a replay reads the log
and processes what it reads, in a runtime that starts in the same way and finds the same clock and the same pause
switch (`ReplaysAlike`).  The log carries six significant digits of a number, six digits behind the point of a bare
quote.  An event that does not fit (`Survives`) is read as another one, and then there is a strategy that tells the
two apart: it expects the events of the session one by one and emits a request at each that it recognises.
-/

namespace Wall

open KeyedMap Rounding

/-! ### Events that survive the log -/

/-- The numbers of the event fit into the formats that they are written in. -/
structure MarketEvent.Survives (event : MarketEvent) : Prop where
  tickSize : event.instrument.tickSize ∈ streamedNumbers
  lotSize : event.instrument.lotSize ∈ streamedNumbers
  price : event.price ∈ streamedNumbers
  quantity : event.quantity ∈ streamedNumbers
  bidPrice : ∀ price ∈ event.bidPrice, price ∈ toStringNumbers
  askPrice : ∀ price ∈ event.askPrice, price ∈ toStringNumbers
  bidLevels : ∀ level ∈ event.bidLevels, level.price ∈ streamedNumbers ∧ level.quantity ∈ streamedNumbers
  askLevels : ∀ level ∈ event.askLevels, level.price ∈ streamedNumbers ∧ level.quantity ∈ streamedNumbers

section Rounded

variable {rnd rndOptional : ℚ → ℚ} (hrnd : IsNearest streamedNumbers rnd)
  (hrndOptional : IsNearest toStringNumbers rndOptional)

include hrnd in
private theorem map_round_eq_iff (levels : List BookLevel) : levels.map (BookLevel.round rnd) = levels ↔
    ∀ level ∈ levels, level.price ∈ streamedNumbers ∧ level.quantity ∈ streamedNumbers := by
  have hlevel : ∀ level : BookLevel, level.round rnd = level ↔
      level.price ∈ streamedNumbers ∧ level.quantity ∈ streamedNumbers := by
    intro level
    rw [← hrnd.fixed_iff, ← hrnd.fixed_iff]
    cases level
    simp [BookLevel.round]
  have hmap := List.map_inj_left (l := levels) (f := BookLevel.round rnd) (g := id)
  simp only [List.map_id, id_eq] at hmap
  simp only [hmap, hlevel]

include hrndOptional in
private theorem map_optional_eq_iff (value : Option ℚ) :
    value.map rndOptional = value ↔ ∀ x ∈ value, x ∈ toStringNumbers := by
  cases value with
  | none => simp
  | some x => simp [hrndOptional.fixed_iff]

include hrnd hrndOptional in
/-- Rounding leaves an event as it is exactly if its numbers fit. -/
theorem round_eq_iff (event : MarketEvent) :
    (EngineEvent.market event).round rnd rndOptional = .market event ↔ event.Survives := by
  have hfields : (EngineEvent.market event).round rnd rndOptional = .market event ↔
      rnd event.instrument.tickSize = event.instrument.tickSize ∧
        rnd event.instrument.lotSize = event.instrument.lotSize ∧ rnd event.price = event.price ∧
        rnd event.quantity = event.quantity ∧ event.bidPrice.map rndOptional = event.bidPrice ∧
        event.askPrice.map rndOptional = event.askPrice ∧
        event.bidLevels.map (BookLevel.round rnd) = event.bidLevels ∧
        event.askLevels.map (BookLevel.round rnd) = event.askLevels := by
    obtain ⟨_, _, ⟨_, _, _, _, _, _, _⟩, _, _, _, _, _, _, _, _, _⟩ := event
    simp [EngineEvent.round, and_assoc]
  rw [hfields, hrnd.fixed_iff, hrnd.fixed_iff, hrnd.fixed_iff, hrnd.fixed_iff, map_optional_eq_iff hrndOptional,
    map_optional_eq_iff hrndOptional, map_round_eq_iff hrnd, map_round_eq_iff hrnd]
  constructor
  · rintro ⟨htick, hlot, hprice, hquantity, hbid, hask, hbids, hasks⟩
    exact ⟨htick, hlot, hprice, hquantity, hbid, hask, hbids, hasks⟩
  · rintro ⟨htick, hlot, hprice, hquantity, hbid, hask, hbids, hasks⟩
    exact ⟨htick, hlot, hprice, hquantity, hbid, hask, hbids, hasks⟩

end Rounded

namespace ReplayService

/-- The log that a session's events are appended to, after `reset_log`. -/
def logOf (service : ReplayService) (events : List MarketEvent) : String :=
  events.foldl (fun log event => service.appendEvent log (.market event)) ""

/-- What a replay of the log reads. -/
def replayed (service : ReplayService) (events : List MarketEvent) : List EngineEvent :=
  (service.replay (some (service.logOf events))).1

variable {service : ReplayService} {rnd rndOptional : ℚ → ℚ}

private theorem logOf_eq (service : ReplayService) (events : List MarketEvent) : service.logOf events =
    String.join ((events.map fun event => service.serializeEvent (.market event)).map (· ++ "\n")) := by
  rw [logOf, String.join, List.foldl_map, List.foldl_map]
  simp only [appendEvent, String.append_assoc]

/-- The replay reads the events of the session, rounded. -/
private theorem replayed_eq (hstreamed : Numerals service.streamed service.stod rnd)
    (hoptional : Numerals service.toString service.stod rndOptional) {events : List MarketEvent}
    (hevents : ∀ event ∈ events, Loggable (.market event)) :
    service.replayed events = events.map fun event => (EngineEvent.market event).round rnd rndOptional := by
  let lines := events.map fun event => LogLine.event (.market event)
  have htexts : lines.map (LogLine.text service) = events.map fun event => service.serializeEvent (.market event) := by
    simp [lines, LogLine.text]
  have hallowed : ∀ line ∈ lines, line.Allowed service := by
    intro line hline
    obtain ⟨event, hevent, rfl⟩ := List.mem_map.1 hline
    exact hevents event hevent
  have htokens : (Getline.tokens '\n' (service.logOf events).toList).map String.ofList =
      lines.map (LogLine.text service) := by
    refine tokens_of_isLog ?_ (.inl (by rw [logOf_eq, htexts]))
    intro text htext
    rw [htexts] at htext
    obtain ⟨event, hevent, rfl⟩ := List.mem_map.1 htext
    exact newline_not_mem_serializeEvent hstreamed hoptional (hevents event hevent)
  have hread : lines.filterMap LogLine.event? = events.map .market := by
    simp [lines, List.filterMap_map, Function.comp_def, LogLine.event?]
  rw [replayed, replay, htokens, foldl_replayLine hstreamed hoptional hallowed, hread]
  simp

end ReplayService

/-! ### Sessions -/

/-- The outcome of a session that a replay has to reproduce. -/
structure SameOutcome {σ : Type*} (direct replayed : SimulationRuntime σ) : Prop where
  positions : replayed.portfolioService.positions = direct.portfolioService.positions
  balances : replayed.portfolioService.balances = direct.portfolioService.balances
  approved : replayed.riskApprovedCount = direct.riskApprovedCount
  fills : replayed.appliedFillCount = direct.appliedFillCount

/-- The inputs with other events, read at the same clock and pause switch. -/
def withEvents (inputs : List RuntimeInput) (events : List EngineEvent) : List RuntimeInput :=
  inputs.zipWith (fun input event => { input with event := event }) events

/-- Whatever the risk limits, the strategies, the restored orders, the clock and the pause switch, replaying the log of
the events has the outcome of processing them. -/
def ReplaysAlike (service : ReplayService) (events : List MarketEvent) : Prop :=
  ∀ (σ : Type) (riskConfig : RiskConfig) (config : SimulationRuntimeConfig σ) (orders : List OrderRecord)
    (inputs : List RuntimeInput), inputs.map RuntimeInput.event = events.map .market →
    let start := orders.foldl SimulationRuntime.restoreOpenOrder (SimulationRuntime.fresh riskConfig config)
    SameOutcome (SimulationRuntime.machine.run start inputs)
      (SimulationRuntime.machine.run start (withEvents inputs (service.replayed events)))

private theorem withEvents_self (inputs : List RuntimeInput) :
    withEvents inputs (inputs.map RuntimeInput.event) = inputs := by
  induction inputs with
  | nil => rfl
  | cons input inputs ih => exact congrArg (List.cons input) ih

/-! ### A strategy that expects a session -/

/-- A request that passes the risk checks of `probeConfig`. -/
def probeRequest (event : EngineEvent) : OrderRequest where
  instrument := match event with
    | .market event => event.instrument
    | _ => {}
  quantity := 1
  price := some 1

/-- A strategy that expects events one by one and emits a request at each that it recognises. -/
def expectingStrategy : Strategy (List EngineEvent) where
  strategyId := "expecting"
  onEvent expected event _ :=
    match expected with
    | [] => ([], some [])
    | next :: expected => (expected, some (if event = next then [probeRequest event] else []))

def probeConfig : RiskConfig where
  maxOrderQuantity := 1
  maxOrderNotional := 1
  maxPositionQuantity := 1

/-- The event, at a clock that stands before all of its timestamps. -/
def probeInput (event : EngineEvent) : RuntimeInput where
  event := event
  strategyClock _ := -2 ^ 63
  now _ := -2 ^ 63
  paused _ := false

/-- The strategy takes one event off its list. -/
private theorem expecting_onEvent {stats : StrategyRuntimeStats} (hstats : stats.paused = false)
    (next event : EngineEvent) (expected : List EngineEvent) (context : StrategyContext) :
    let coordinator : StrategyCoordinator (List EngineEvent) :=
      ⟨[{ strategy := expectingStrategy, state := next :: expected, stats := stats }]⟩
    (∃ stats', stats'.paused = false ∧ (coordinator.onEvent event context).1.strategies =
        [{ strategy := expectingStrategy, state := expected, stats := stats' }]) ∧
      (coordinator.onEvent event context).2 = if event = next then [probeRequest event] else [] := by
  dsimp only
  simp only [StrategyCoordinator.onEvent, List.map_cons, List.map_nil, List.flatMap_cons, List.flatMap_nil,
    List.append_nil, StrategySlot.onEvent, hstats, Bool.false_eq_true, ↓reduceIte]
  refine ⟨⟨_, ?_, rfl⟩, rfl⟩
  rfl

/-- The probe passes every check against a market state that is not older than the clock. -/
private theorem probe_approved {store : MarketStateStore} {event : EngineEvent} {state : MarketState}
    (hstate : store.get (probeRequest event).instrument.instrumentId = some state)
    (htime : -2 ^ 63 ≤ state.lastProcessTimestamp) :
    (RiskEngine.evaluate probeConfig store (-2 ^ 63) (probeRequest event)).approved = true := by
  have hfresh : store.isStale (-2 ^ 63) (probeRequest event).instrument.instrumentId probeConfig.staleAfterMs =
      false := by
    rw [MarketStateStore.isStale, hstate]
    refine decide_eq_false ?_
    simp only [probeConfig]
    omega
  unfold RiskEngine.evaluate
  rw [hfresh]
  norm_num [probeRequest, probeConfig, RiskEngine.resolveReferencePrice]

/-- After an event the market state of its instrument is known, and none is older than the event or than before. -/
private theorem apply_times {store : MarketStateStore} {event : MarketEvent} {bound : Int} (hbound : bound ≤ 0)
    (hstore : ∀ i state, store.get i = some state → bound ≤ state.lastProcessTimestamp)
    (hevent : bound ≤ event.processTimestamp) :
    (∃ state, (store.apply event).get event.instrument.instrumentId = some state) ∧
      ∀ i state, (store.apply event).get i = some state → bound ≤ state.lastProcessTimestamp := by
  unfold MarketStateStore.apply MarketStateStore.get
  dsimp only
  constructor
  · rw [getElem?_modifyD, if_pos rfl]
    exact ⟨_, rfl⟩
  · have hold : bound ≤ (store.states[event.instrument.instrumentId]?.getD default).lastProcessTimestamp := by
      cases h : store.states[event.instrument.instrumentId]? with
      | none => exact hbound
      | some old => exact hstore _ _ h
    refine forall_modifyD hstore ?_
    split
    · exact hold
    · exact hevent

namespace SimulationRuntime

/-- A runtime with the strategy, which has yet to see the events, and with no market state older than the clock. -/
structure Expecting (runtime : SimulationRuntime (List EngineEvent)) (expected : List EngineEvent) : Prop where
  riskConfig : runtime.riskConfig = probeConfig
  slot : ∃ stats, stats.paused = false ∧
    runtime.strategyCoordinator.strategies = [{ strategy := expectingStrategy, state := expected, stats := stats }]
  store : ∀ i state, runtime.marketStateStore.get i = some state → -2 ^ 63 ≤ state.lastProcessTimestamp

/-- An event is approved one request exactly if it is the expected one. -/
theorem Expecting.step {runtime : SimulationRuntime (List EngineEvent)} {next : EngineEvent}
    {expected : List EngineEvent} (h : Expecting runtime (next :: expected)) {event : MarketEvent}
    (hevent : -2 ^ 63 ≤ event.processTimestamp) :
    Expecting (runtime.onEvent (probeInput (.market event))) expected ∧
      (runtime.onEvent (probeInput (.market event))).riskApprovedCount =
        runtime.riskApprovedCount + if EngineEvent.market event = next then 1 else 0 := by
  obtain ⟨stats, hstats, hslot⟩ := h.slot
  have hcoordinator : runtime.strategyCoordinator =
      ⟨[{ strategy := expectingStrategy, state := next :: expected, stats := stats }]⟩ :=
    congrArg StrategyCoordinator.mk hslot
  obtain ⟨hnext, hrequests⟩ := expecting_onEvent hstats next (.market event) expected
    (runtime.contextOf (probeInput (.market event)))
  rw [← hcoordinator] at hnext hrequests
  obtain ⟨hconfig, hcoordinator', hstore'⟩ := onEvent_frame runtime (probeInput (.market event))
  obtain ⟨⟨state, hstate⟩, htimes⟩ := apply_times (by norm_num) h.store hevent
  refine ⟨⟨hconfig.trans h.riskConfig, ?_, ?_⟩, ?_⟩
  · rw [hcoordinator']
    exact hnext
  · rw [hstore']
    exact htimes
  · rw [onEvent_approved, approvedOps]
    congr 1
    have hpasses : approves runtime.riskConfig (nextStore runtime.marketStateStore (.market event))
        (probeInput (.market event)) 0 (probeRequest (.market event)) = true := by
      rw [approves, h.riskConfig]
      exact probe_approved hstate (htimes _ _ hstate)
    show (submitOps _ _ _ 0 (runtime.strategyCoordinator.onEvent (.market event) _).2).length = _
    rw [hrequests]
    split
    · rw [submitOps, submitOps, List.append_nil]
      exact congrArg List.length (if_pos hpasses)
    · rfl

/-- The count of approvals tells whether the events were the expected ones. -/
theorem Expecting.run {events : List MarketEvent} (hevents : ∀ event ∈ events, -2 ^ 63 ≤ event.processTimestamp)
    {runtime : SimulationRuntime (List EngineEvent)} {expected : List EngineEvent} (h : Expecting runtime expected)
    (hlength : events.length = expected.length) :
    let final := machine.run runtime (events.map fun event => probeInput (.market event))
    final.riskApprovedCount ≤ runtime.riskApprovedCount + expected.length ∧
      (final.riskApprovedCount = runtime.riskApprovedCount + expected.length ↔
        events.map EngineEvent.market = expected) := by
  induction events generalizing runtime expected with
  | nil =>
    obtain rfl := List.length_eq_zero_iff.1 hlength.symm
    simp
  | cons event events ih =>
    cases expected with
    | nil => cases hlength
    | cons next expected =>
      obtain ⟨hevent, hrest⟩ := List.forall_mem_cons.1 hevents
      obtain ⟨hstep, hcount⟩ := h.step hevent
      obtain ⟨hle, hiff⟩ := ih hrest hstep (Nat.succ.inj hlength)
      rw [List.map_cons, List.map_cons, List.length_cons, List.cons.injEq, ← hiff]
      show (machine.run (runtime.onEvent (probeInput (.market event))) _).riskApprovedCount ≤ _ ∧
        ((machine.run (runtime.onEvent (probeInput (.market event))) _).riskApprovedCount = _ ↔ _)
      by_cases heq : EngineEvent.market event = next
      · rw [if_pos heq] at hcount
        rw [and_iff_right heq]
        omega
      · rw [if_neg heq] at hcount
        rw [iff_false_right fun hand => heq hand.1]
        omega

end SimulationRuntime

/-! ### Replay and processing -/

section Replay

variable {service : ReplayService} {rnd rndOptional : ℚ → ℚ}

/-- The market event that is read for one that was written. -/
def readEvent (rnd rndOptional : ℚ → ℚ) (event : MarketEvent) : MarketEvent :=
  match (EngineEvent.market event).round rnd rndOptional with
  | .market event => event
  | _ => event

/-- At the probing clock the replay's inputs are the events that it reads. -/
private theorem withEvents_probe (events : List MarketEvent) :
    withEvents (events.map fun event => probeInput (.market event))
        (events.map fun event => (EngineEvent.market event).round rnd rndOptional) =
      (events.map (readEvent rnd rndOptional)).map fun event => probeInput (.market event) := by
  induction events with
  | nil => rfl
  | cons event events ih => exact congrArg (List.cons (probeInput (.market (readEvent rnd rndOptional event)))) ih

/-- A fresh runtime with the expecting strategy. -/
def expectingConfig (expected : List EngineEvent) : SimulationRuntimeConfig (List EngineEvent) where
  strategyCoordinator := ⟨[{ strategy := expectingStrategy, state := expected, stats := {} }]⟩

private theorem expecting_fresh (expected : List EngineEvent) :
    (SimulationRuntime.fresh probeConfig (expectingConfig expected)).Expecting expected :=
  ⟨rfl, ⟨{}, rfl, rfl⟩, fun _ _ hstate => nomatch hstate⟩

/-- Replaying a session has the outcome of processing it, for every runtime, exactly if the numbers of its events fit
into the formats of the log. -/
theorem replays_alike_iff (hstreamed : Numerals service.streamed service.stod rnd)
    (hoptional : Numerals service.toString service.stod rndOptional) (hrnd : IsNearest streamedNumbers rnd)
    (hrndOptional : IsNearest toStringNumbers rndOptional) {events : List MarketEvent}
    (hevents : ∀ event ∈ events, Loggable (.market event)) :
    ReplaysAlike service events ↔ ∀ event ∈ events, event.Survives := by
  have hread := ReplayService.replayed_eq hstreamed hoptional hevents
  constructor
  · intro h
    have htimes : ∀ event ∈ events, -2 ^ 63 ≤ event.processTimestamp :=
      fun event hevent => ((hevents event hevent).longs _ (by simp [EngineEvent.longs])).1
    have htimes' : ∀ event ∈ events.map (readEvent rnd rndOptional), -2 ^ 63 ≤ event.processTimestamp := by
      intro read hread
      obtain ⟨event, hevent, rfl⟩ := List.mem_map.1 hread
      exact htimes event hevent
    have hstart := expecting_fresh (events.map EngineEvent.market)
    have hsame := h _ probeConfig (expectingConfig (events.map EngineEvent.market)) []
      (events.map fun event => probeInput (.market event)) (by simp [Function.comp_def, probeInput])
    have happroved := hsame.approved
    rw [hread, withEvents_probe] at happroved
    -- the session itself is recognised in full, so what is read must be too
    have hdirect := (hstart.run htimes (by simp)).2.2 rfl
    have hreplay := (hstart.run htimes' (by simp)).2.1 (happroved.trans hdirect)
    rw [List.map_map] at hreplay
    intro event hevent
    exact (round_eq_iff hrnd hrndOptional event).1 (List.map_inj_left.1 hreplay event hevent)
  · intro h σ riskConfig config orders inputs hinputs
    have hsame : service.replayed events = inputs.map RuntimeInput.event := by
      rw [hread, hinputs]
      exact List.map_congr_left fun event hevent => (round_eq_iff hrnd hrndOptional event).2 (h event hevent)
    dsimp only
    rw [hsame, withEvents_self]
    exact ⟨rfl, rfl, rfl, rfl⟩

/-! ### The formats of the program -/

/-- A log in decimal numerals. -/
def decimalService : ReplayService where
  streamed := Numeral.significant 6
  toString := Numeral.fixed 6
  stod := Numeral.value

instance (event : MarketEvent) : Decidable event.Survives :=
  decidable_of_iff
    ((EngineEvent.market event).round (roundSignificant 10 6) (roundTo ((10 : ℚ) ^ (-6 : ℤ))) = .market event)
    (round_eq_iff nearest_streamed nearest_toString event)

/-- A book snapshot with one ask level. -/
def exampleSnapshot (price : ℚ) : MarketEvent where
  eventId := "book-1"
  type := .bookSnapshot
  instrument := { instrumentId := "btc-usdt", tickSize := 1 / 100, lotSize := 1 / 1000 }
  askLevels := [{ price := price, quantity := 1 }]
  processTimestamp := 1000

theorem loggable_exampleSnapshot (price : ℚ) : Loggable (.market (exampleSnapshot price)) :=
  ⟨by simp only [EngineEvent.texts, exampleSnapshot]; decide, by simp [EngineEvent.ints],
    by simp [EngineEvent.longs, exampleSnapshot]⟩

theorem replays_alike_iff_exampleSnapshot : ReplaysAlike decimalService [exampleSnapshot 42000] := by
  refine (replays_alike_iff (numerals_significant 6) (numerals_fixed 6) nearest_streamed nearest_toString ?_).2 ?_
  · exact List.forall_mem_singleton.2 (loggable_exampleSnapshot 42000)
  · decide +kernel

/-- A resting order to buy one at 42000.02. -/
def exampleRestingBuy : OrderRecord where
  orderId := "resting-1"
  clientOrderId := "client-1"
  instrumentId := "btc-usdt"
  quantity := 1
  price := some (4200002 / 100)

/-- An ask level at 42000.04 does not reach the resting order; the log says 42000, and the replay fills the order. -/
theorem replayed_level_rounded :
    let event := exampleSnapshot (4200004 / 100)
    let start : SimulationRuntime Unit :=
      [exampleRestingBuy].foldl SimulationRuntime.restoreOpenOrder
        (SimulationRuntime.fresh probeConfig { strategyCoordinator := {} })
    let inputs := [probeInput (.market event)]
    Loggable (.market event) ∧ 4200004 / 100 ∈ doubleDecimals ∧
      (SimulationRuntime.machine.run start inputs).appliedFillCount = 0 ∧
      (SimulationRuntime.machine.run start (withEvents inputs (decimalService.replayed [event]))).appliedFillCount = 1 ∧
      ¬ ReplaysAlike decimalService [event] := by
  refine ⟨loggable_exampleSnapshot _, by decide +kernel, by decide +kernel, by decide +kernel, fun h => ?_⟩
  have hfills := (h Unit probeConfig { strategyCoordinator := {} } [exampleRestingBuy]
    [probeInput (.market (exampleSnapshot (4200004 / 100)))] rfl).fills
  revert hfills
  decide +kernel

end Replay

end Wall
