import Wall.BacktestRunner
import Wall.ControllerRuns
import Wall.HealthStatus
import Wall.ReplayedSessions
import Wall.RuntimeMetrics

/-!
# Sessions of the application

`app/application.cpp` from the subscriptions on: the controller delivers each event to the runtime, which also updates
the health of its components, to the event log and to the structured logger.  The sources are arbitrary, on a state of
their own.  Whatever calls the controller gets, the runtime has processed the delivered events, and the log holds them
in the same order; so a backtest of the log at the same readings is the session again, if the events survive the
formats of the log.
-/

namespace Wall

open RuntimeHealthStatus

inductive LogLevel
  | info
  | warn
  | error
  deriving DecidableEq, Repr

structure StructuredLogRecord where
  level : LogLevel
  message : String
  fields : List (String × String)
  deriving DecidableEq, Repr

/-- What the subscribers of the application write to. -/
structure ApplicationState (σ : Type*) where
  runtime : SimulationRuntime σ
  healthStatus : RuntimeHealthStatus := {}
  eventLog : String := ""
  records : List StructuredLogRecord := []
  handledEvents : Nat := 0

/-! ### What a run of the controller does to a part of the world -/

/-- The events that were delivered to the first handler, in order. -/
def deliveredFirst (effects : List QueueEffect) : List EngineEvent :=
  (deliveries effects).filterMap fun delivery => if delivery.1 = 0 then some delivery.2 else none

@[simp] theorem deliveredFirst_append (effects effects' : List QueueEffect) :
    deliveredFirst (effects ++ effects') = deliveredFirst effects ++ deliveredFirst effects' := by
  rw [deliveredFirst, deliveries_append, List.filterMap_append]
  rfl

namespace EngineController

variable {ω α : Type*}

/-- The handlers act on a part of the world, and the sources leave it as it is. -/
structure Acts (view : ω → α) (act : α → EngineEvent → α) (controller : EngineController ω) : Prop where
  handlers : controller.dispatcher.handlers ≠ []
  publish : ∀ event world, view (controller.dispatcher.publish event world).1 = act (view world) event
  sources : ∀ source ∈ controller.sources, ∀ world, view (source world).2 = view world

namespace Acts

variable {view : ω → α} {act : α → EngineEvent → α} {controller : EngineController ω}

theorem congr (h : Acts view act controller) {controller' : EngineController ω}
    (hdispatcher : controller'.dispatcher = controller.dispatcher)
    (hsources : controller'.sources = controller.sources) : Acts view act controller' := by
  obtain ⟨hhandlers, hpublish, hkept⟩ := h
  exact ⟨by rwa [hdispatcher], by rwa [hdispatcher], by rwa [hsources]⟩

private theorem delivered_publish (h : Acts view act controller) (event : EngineEvent) (world : ω) :
    deliveredFirst (controller.dispatcher.publish event world).2 = [event] := by
  obtain ⟨n, hn⟩ := Nat.exists_eq_succ_of_ne_zero (List.length_eq_zero_iff.not.2 h.handlers)
  rw [deliveredFirst, EventDispatcher.deliveries_publish, EventDispatcher.deliveriesOf, hn, List.range_succ_eq_map,
    List.map_cons, List.filterMap_cons, List.map_map, List.filterMap_map]
  refine congrArg (List.cons event) (List.filterMap_eq_nil_iff.2 fun number _ => ?_)
  show (if number.succ = 0 then some event else none) = none
  exact if_neg (Nat.succ_ne_zero number)

theorem poll (h : Acts view act controller) : view controller.pollSourcesOnce.1.world = view controller.world := by
  suffices hkept : ∀ (sources : List (EngineEventSource ω)) (number : Nat) (world : ω),
      (∀ source ∈ sources, ∀ world, view (source world).2 = view world) →
        view (pollFrom number sources world).1 = view world from hkept _ 0 _ h.sources
  intro sources
  induction sources with
  | nil => exact fun _ _ _ => rfl
  | cons source sources ih =>
    intro number world hsources
    obtain ⟨hsource, hrest⟩ := List.forall_mem_cons.1 hsources
    rw [pollFrom, ih (number + 1) _ hrest, hsource]

theorem drain (h : Acts view act controller) (fuel : Nat) :
    view (EngineController.drain fuel controller).1.world =
      (deliveredFirst (EngineController.drain fuel controller).2.effects).foldl act (view controller.world) := by
  induction fuel generalizing controller with
  | zero => rfl
  | succ fuel ih =>
    cases hqueue : controller.queue with
    | nil =>
      rw [drain_of_empty hqueue]
      rfl
    | cons event queue =>
      have hnext : Acts view act (controller.publishFront event queue) := h.congr rfl rfl
      have hrest := ih hnext
      rw [drain_of_cons hqueue, deliveredFirst_append, List.foldl_append, h.delivered_publish, hrest]
      congr 1
      exact h.publish event controller.world

theorem step (h : Acts view act controller) (fuel : Nat) (call : ControllerCall) :
    view ((machine fuel).step controller call).1.world =
      (deliveredFirst ((machine fuel).step controller call).2.effects).foldl act (view controller.world) := by
  have hnone {effects : List QueueEffect} (heffects : deliveries effects = []) : deliveredFirst effects = [] := by
    rw [deliveredFirst, heffects]
    rfl
  have hscan (now : Int) : deliveredFirst (controller.enqueueDueTimers now).2.effects = [] :=
    hnone (accounts_scan controller now).deliveries
  have hpoll (controller : EngineController ω) : deliveredFirst controller.pollSourcesOnce.2.effects = [] :=
    hnone (accounts_poll controller).deliveries
  cases call with
  | enqueue event => rfl
  | scheduleTimer timerId due => rfl
  | enqueueDueTimers now =>
    show view controller.world = (deliveredFirst (controller.enqueueDueTimers now).2.effects).foldl act _
    rw [hscan]
    rfl
  | pollSourcesOnce =>
    show view controller.pollSourcesOnce.1.world = (deliveredFirst controller.pollSourcesOnce.2.effects).foldl act _
    rw [hpoll, h.poll]
    rfl
  | drain => exact h.drain fuel
  | runOnce now =>
    have htimers : Acts view act (controller.enqueueDueTimers now).1 := h.congr rfl rfl
    have hpolled : Acts view act (controller.enqueueDueTimers now).1.pollSourcesOnce.1 := htimers.congr rfl rfl
    show view (EngineController.drain fuel (controller.enqueueDueTimers now).1.pollSourcesOnce.1).1.world =
      (deliveredFirst ((controller.enqueueDueTimers now).2.effects ++
        (controller.enqueueDueTimers now).1.pollSourcesOnce.2.effects ++ _)).foldl act _
    rw [hpolled.drain, deliveredFirst_append, deliveredFirst_append, hscan, hpoll, htimers.poll]
    rfl

/-- A run folds the delivered events over that part of the world. -/
theorem run (h : Acts view act controller) (fuel : Nat) (calls : List ControllerCall) :
    view ((machine fuel).run controller calls).world =
      (deliveredFirst (effectsOf ((machine fuel).outputs controller calls))).foldl act (view controller.world) := by
  induction calls generalizing controller with
  | nil => rfl
  | cons call calls ih =>
    obtain ⟨_, hstep⟩ := accounts_step fuel controller call
    have hnext : Acts view act ((machine fuel).step controller call).1 := h.congr hstep.dispatcher hstep.sources
    have heffects (result : CallResult) (results : List CallResult) :
        effectsOf (result :: results) = result.effects ++ effectsOf results := List.flatMap_cons
    rw [Machine.run_cons, ih hnext, Machine.outputs_cons, heffects, deliveredFirst_append, List.foldl_append,
      h.step fuel call]

end Acts

end EngineController

variable {σ τ : Type*}

/-! ### The subscribers -/

/-- The status of the risk component that an event leads to, if its requests were evaluated. -/
def riskVerdict (before after : SimulationRuntime σ) : Option HealthStatus :=
  if after.riskRejectedCount > before.riskRejectedCount then some .degraded
  else if after.riskApprovedCount > before.riskApprovedCount then some .healthy
  else none

/-- The health of the components after an event that took the runtime from one state to another. -/
def updateHealth (healthStatus : RuntimeHealthStatus) (event : EngineEvent) (before after : SimulationRuntime σ) :
    RuntimeHealthStatus :=
  let healthStatus := match event with
    | .market _ => healthStatus.setStatus .marketData .healthy
    | .transaction _ => healthStatus.setStatus .ingestion .healthy
    | .timer _ => healthStatus
  let healthStatus := match riskVerdict before after with
    | some status => healthStatus.setStatus .risk status
    | none => healthStatus
  if after.appliedFillCount > before.appliedFillCount then healthStatus.setStatus .execution .healthy
  else healthStatus

def eventRecord : EngineEvent → StructuredLogRecord
  | .market event =>
    { level := .info
      message := "processed_market_event"
      fields := [("event_id", event.eventId), ("instrument_id", event.instrument.instrumentId)] }
  | .transaction command =>
    { level := .info
      message := "processed_transaction_command"
      fields := [("transaction_id", command.transactionId), ("command_type", command.commandType)] }
  | .timer event =>
    { level := .info
      message := "processed_timer"
      fields := [("timer_id", event.timerId)] }

namespace ApplicationState

/-- The first subscriber: the runtime, at the readings of the event's turn, and the health of the components. -/
def process (readings : Nat → Readings) (event : EngineEvent) (state : ApplicationState σ) : ApplicationState σ :=
  let runtime := state.runtime.onEvent ((readings state.handledEvents).input event)
  { state with
    runtime := runtime
    healthStatus := updateHealth state.healthStatus event state.runtime runtime
    handledEvents := state.handledEvents + 1 }

/-- The second subscriber. -/
def append (service : ReplayService) (event : EngineEvent) (state : ApplicationState σ) : ApplicationState σ :=
  { state with eventLog := service.appendEvent state.eventLog event }

/-- The third subscriber. -/
def log (event : EngineEvent) (state : ApplicationState σ) : ApplicationState σ :=
  { state with records := state.records ++ [eventRecord event] }

/-- What the delivery of one event does. -/
def deliver (service : ReplayService) (readings : Nat → Readings) (state : ApplicationState σ) (event : EngineEvent) :
    ApplicationState σ :=
  log event (append service event (process readings event state))

end ApplicationState

/-- A subscriber that enqueues nothing, beside the sources. -/
def subscriber (act : EngineEvent → ApplicationState σ → ApplicationState σ) : Handler (ApplicationState σ × τ) :=
  fun event world => ([], (act event world.1, world.2))

/-- A source on a state of its own, beside the application. -/
def beside (source : EngineEventSource τ) : EngineEventSource (ApplicationState σ × τ) :=
  fun world => ((source world.2).1, (world.1, (source world.2).2))

/-- The application's controller. -/
def applicationController (service : ReplayService) (readings : Nat → Readings) (sources : List (EngineEventSource τ))
    (runtime : SimulationRuntime σ) (sourceState : τ) : EngineController (ApplicationState σ × τ) where
  dispatcher :=
    { handlers := [subscriber (ApplicationState.process readings), subscriber (ApplicationState.append service),
        subscriber ApplicationState.log] }
  sources := sources.map beside
  world := ({ runtime := runtime }, sourceState)

private theorem acts_applicationController (service : ReplayService) (readings : Nat → Readings)
    (sources : List (EngineEventSource τ)) (runtime : SimulationRuntime σ) (sourceState : τ) :
    EngineController.Acts Prod.fst (ApplicationState.deliver service readings)
      (applicationController service readings sources runtime sourceState) where
  handlers := List.cons_ne_nil _ _
  publish := fun _ _ => rfl
  sources := by
    intro source hsource world
    obtain ⟨own, -, rfl⟩ := List.mem_map.1 hsource
    rfl

/-! ### The delivered events -/

namespace ApplicationState

variable (service : ReplayService) (readings : Nat → Readings)

/-- The events, the first of them at the readings number `first`. -/
private theorem runtime_deliver (events : List EngineEvent) (state : ApplicationState σ) :
    (events.foldl (deliver service readings) state).runtime = SimulationRuntime.machine.run state.runtime
      ((events.zipIdx state.handledEvents).map fun entry => (readings entry.2).input entry.1) := by
  induction events generalizing state with
  | nil => rfl
  | cons event events ih =>
    rw [List.foldl_cons, ih, List.zipIdx_cons, List.map_cons, Machine.run_cons]
    rfl

private theorem eventLog_deliver (events : List EngineEvent) (state : ApplicationState σ) :
    (events.foldl (deliver service readings) state).eventLog =
      events.foldl service.appendEvent state.eventLog := by
  induction events generalizing state with
  | nil => rfl
  | cons event events ih => exact ih (deliver service readings state event)

end ApplicationState

namespace ReplayService

variable {service : ReplayService} {rnd rndOptional : ℚ → ℚ}

/-- The events that are appended to an empty log are replayed, rounded, with no line skipped. -/
private theorem replay_appended (hstreamed : Numerals service.streamed service.stod rnd)
    (hoptional : Numerals service.toString service.stod rndOptional) {events : List EngineEvent}
    (hevents : ∀ event ∈ events, Loggable event) :
    service.replay (some (events.foldl service.appendEvent "")) =
      (events.map (EngineEvent.round rnd rndOptional),
        { totalRecords := events.length
          replayedRecords := events.length
          skippedRecords := 0 }) := by
  have htexts : (events.map LogLine.event).map (LogLine.text service) = events.map service.serializeEvent := by
    simp [LogLine.text]
  have hallowed : ∀ line ∈ events.map LogLine.event, line.Allowed service := by
    intro line hline
    obtain ⟨event, hevent, rfl⟩ := List.mem_map.1 hline
    exact hevents event hevent
  have hlog : IsLog (events.map service.serializeEvent) (events.foldl service.appendEvent "") := by
    have hline : service.appendEvent = fun log event => log ++ (service.serializeEvent event ++ "\n") := by
      funext log event
      rw [appendEvent, String.append_assoc]
    rw [hline]
    exact .inl (by rw [String.join, List.map_map, List.foldl_map]; rfl)
  have hread : (events.map LogLine.event).filterMap LogLine.event? = events := by
    simp [List.filterMap_map, Function.comp_def, LogLine.event?]
  have hskipped : (events.map LogLine.event).filterMap LogLine.other? = [] := by
    simp [List.filterMap_map, Function.comp_def, LogLine.other?]
  have htokens : (Getline.tokens '\n' (events.foldl service.appendEvent "").toList).map String.ofList =
      (events.map LogLine.event).map (LogLine.text service) := by
    rw [htexts]
    refine tokens_of_isLog ?_ hlog
    intro text htext
    obtain ⟨event, hevent, rfl⟩ := List.mem_map.1 htext
    exact newline_not_mem_serializeEvent hstreamed hoptional (hevents event hevent)
  rw [replay, htokens, foldl_replayLine hstreamed hoptional hallowed, hread, hskipped]
  simp

end ReplayService

/-! ### Sessions and backtests -/

section Sessions

variable {service : ReplayService} {rnd rndOptional : ℚ → ℚ}

/-- A session of the application under any calls, with any sources: the runtime has processed the events that were
delivered, in order, at the readings of their turns, and the log holds them all.  A replay of the log skips no line
and reads the events, rounded to the formats of the log; if these leave the events as they are, a backtest of the log
through the same runtime at the same readings ends with the runtime of the session. -/
theorem session_backtest (hstreamed : Numerals service.streamed service.stod rnd)
    (hoptional : Numerals service.toString service.stod rndOptional) (readings : Nat → Readings)
    (sources : List (EngineEventSource τ)) (runtime : SimulationRuntime σ) (sourceState : τ) (fuel : Nat)
    (calls : List ControllerCall) :
    let controller := applicationController service readings sources runtime sourceState
    let session := ((EngineController.machine fuel).run controller calls).world.1
    let delivered := deliveredFirst (effectsOf ((EngineController.machine fuel).outputs controller calls))
    (∀ event ∈ delivered, Loggable event) →
      session.runtime = SimulationRuntime.machine.run runtime (readAt readings delivered) ∧
      service.replay (some session.eventLog) =
        (delivered.map (EngineEvent.round rnd rndOptional),
          { totalRecords := delivered.length, replayedRecords := delivered.length, skippedRecords := 0 }) ∧
      (delivered.map (EngineEvent.round rnd rndOptional) = delivered →
        (runBacktest service (some session.eventLog) readings runtime).1 = session.runtime) := by
  intro controller session delivered hloggable
  have hacts := acts_applicationController service readings sources runtime sourceState
  have hsession : session = delivered.foldl (ApplicationState.deliver service readings) { runtime := runtime } :=
    hacts.run fuel calls
  have hruntime : session.runtime = SimulationRuntime.machine.run runtime (readAt readings delivered) := by
    rw [hsession]
    exact ApplicationState.runtime_deliver service readings delivered { runtime := runtime }
  have hreplay : service.replay (some session.eventLog) =
      (delivered.map (EngineEvent.round rnd rndOptional),
        { totalRecords := delivered.length, replayedRecords := delivered.length, skippedRecords := 0 }) := by
    rw [hsession, ApplicationState.eventLog_deliver]
    exact ReplayService.replay_appended hstreamed hoptional hloggable
  refine ⟨hruntime, hreplay, fun hsurvive => ?_⟩
  rw [runBacktest, hreplay, hsurvive, hruntime]

end Sessions

/-- One snapshot that fits into the formats of the log, delivered to a runtime without strategies. -/
theorem session_backtest_exampleSnapshot :
    let runtime : SimulationRuntime Unit := SimulationRuntime.fresh probeConfig { strategyCoordinator := {} }
    let readings : Nat → Readings := fun _ => ⟨fun _ => 0, fun _ => 0, fun _ => false⟩
    let controller := applicationController decimalService readings ([] : List (EngineEventSource Unit)) runtime ()
    let calls := [ControllerCall.enqueue (.market (exampleSnapshot 42000)), .drain]
    let session := ((EngineController.machine 2).run controller calls).world.1
    (runBacktest decimalService (some session.eventLog) readings runtime).1 = session.runtime := by
  intro runtime readings controller calls session
  have hdelivered : deliveredFirst (effectsOf ((EngineController.machine 2).outputs controller calls)) =
      [.market (exampleSnapshot 42000)] := rfl
  have hstreamed : Numerals decimalService.streamed decimalService.stod (Rounding.roundSignificant 10 6) :=
    numerals_significant 6
  have hoptional : Numerals decimalService.toString decimalService.stod (Rounding.roundTo ((10 : ℚ) ^ (-6 : ℤ))) :=
    numerals_fixed 6
  have hsession := session_backtest hstreamed hoptional readings ([] : List (EngineEventSource Unit)) runtime () 2 calls
  dsimp only at hsession
  rw [hdelivered] at hsession
  refine (hsession ?_).2.2 ?_
  · exact List.forall_mem_singleton.2 (loggable_exampleSnapshot 42000)
  · decide +kernel

/-! ### Health -/

section Health

/-- What an event makes of the status of each component. -/
private theorem getStatus_updateHealth (healthStatus : RuntimeHealthStatus) (event : EngineEvent)
    (before after : SimulationRuntime σ) :
    let updated := updateHealth healthStatus event before after
    updated.getStatus .marketData =
        (if SimulationRuntime.isMarketEvent event then .healthy else healthStatus.getStatus .marketData) ∧
      updated.getStatus .ingestion =
        (if SimulationRuntime.isTransactionEvent event then .healthy else healthStatus.getStatus .ingestion) ∧
      updated.getStatus .risk = (riskVerdict before after).getD (healthStatus.getStatus .risk) ∧
      updated.getStatus .execution =
        (if before.appliedFillCount < after.appliedFillCount then .healthy else healthStatus.getStatus .execution) := by
  unfold updateHealth
  cases riskVerdict before after <;> cases event <;>
    by_cases hfills : before.appliedFillCount < after.appliedFillCount <;>
    simp [hfills, getStatus_setStatus, SimulationRuntime.isMarketEvent, SimulationRuntime.isTransactionEvent]

/-- The statuses that the requests of a run lead to, in order. -/
def riskVerdicts : SimulationRuntime σ → List RuntimeInput → List HealthStatus
  | _, [] => []
  | runtime, input :: inputs =>
    (riskVerdict runtime (runtime.onEvent input)).toList ++ riskVerdicts (runtime.onEvent input) inputs

/-- A later verdict counts, and the verdict of this event if there is none. -/
private theorem getLast?_verdicts (verdict : Option HealthStatus) (later : List HealthStatus) (status : HealthStatus) :
    (verdict.toList ++ later).getLast?.getD status = later.getLast?.getD (verdict.getD status) := by
  rw [List.getLast?_append]
  cases later.getLast? <;> cases verdict <;> rfl

private theorem appliedFillCount_onEvent_le (runtime : SimulationRuntime σ) (input : RuntimeInput) :
    runtime.appliedFillCount ≤ (runtime.onEvent input).appliedFillCount := by
  have hrequests (k : Nat) (requests : List OrderRequest) (runtime : SimulationRuntime σ) :
      runtime.appliedFillCount ≤ (SimulationRuntime.handleRequests input k requests runtime).appliedFillCount := by
    induction requests generalizing k runtime with
    | nil => exact le_rfl
    | cons request requests ih =>
      refine le_trans ?_ (ih (k + 1) _)
      rcases SimulationRuntime.handleRequest_cases runtime input k request with ⟨-, heq⟩ | ⟨-, heq⟩
      · rw [heq]
        exact Nat.le_add_right _ _
      · rw [heq]
  have hmarket : runtime.appliedFillCount ≤ (runtime.marketPhase input.event).appliedFillCount := by
    cases input.event with
    | market event =>
      show _ ≤ (runtime.onMarketEvent event).appliedFillCount
      rw [(SimulationRuntime.onMarketEvent_parts runtime event).2.1]
      exact Nat.le_add_right _ _
    | timer => exact le_rfl
    | transaction => exact le_rfl
  rw [SimulationRuntime.onEvent_eq]
  exact hmarket.trans (hrequests 0 _ (runtime.beforeRequests input))

private theorem appliedFillCount_run_le (runtime : SimulationRuntime σ) (inputs : List RuntimeInput) :
    runtime.appliedFillCount ≤ (SimulationRuntime.machine.run runtime inputs).appliedFillCount := by
  induction inputs generalizing runtime with
  | nil => exact le_rfl
  | cons input inputs ih => exact (appliedFillCount_onEvent_le runtime input).trans (ih _)

/-- The status of each component after the events. -/
private theorem getStatus_deliver (service : ReplayService) (readings : Nat → Readings) (events : List EngineEvent)
    (state : ApplicationState σ) :
    let after := events.foldl (ApplicationState.deliver service readings) state
    let inputs := (events.zipIdx state.handledEvents).map fun entry => (readings entry.2).input entry.1
    after.healthStatus.getStatus .marketData =
        (if events.any SimulationRuntime.isMarketEvent then .healthy else state.healthStatus.getStatus .marketData) ∧
      after.healthStatus.getStatus .ingestion =
        (if events.any SimulationRuntime.isTransactionEvent then .healthy
          else state.healthStatus.getStatus .ingestion) ∧
      after.healthStatus.getStatus .risk =
        (riskVerdicts state.runtime inputs).getLast?.getD (state.healthStatus.getStatus .risk) ∧
      after.healthStatus.getStatus .execution =
        (if state.runtime.appliedFillCount < after.runtime.appliedFillCount then .healthy
          else state.healthStatus.getStatus .execution) := by
  induction events generalizing state with
  | nil => simp [riskVerdicts]
  | cons event events ih =>
    obtain ⟨hmarket, hingestion, hrisk, hexecution⟩ := ih (ApplicationState.deliver service readings state event)
    obtain ⟨hmarket', hingestion', hrisk', hexecution'⟩ := getStatus_updateHealth state.healthStatus event state.runtime
      (state.runtime.onEvent ((readings state.handledEvents).input event))
    dsimp only
    rw [List.foldl_cons, List.any_cons, List.any_cons, List.zipIdx_cons, List.map_cons, riskVerdicts, hmarket,
      hingestion, hrisk, hexecution]
    refine ⟨?_, ?_, ?_, ?_⟩
    · have hstatus : (ApplicationState.deliver service readings state event).healthStatus.getStatus .marketData = _ :=
        hmarket'
      rw [hstatus]
      cases SimulationRuntime.isMarketEvent event <;> simp
    · have hstatus : (ApplicationState.deliver service readings state event).healthStatus.getStatus .ingestion = _ :=
        hingestion'
      rw [hstatus]
      cases SimulationRuntime.isTransactionEvent event <;> simp
    · have hstatus : (ApplicationState.deliver service readings state event).healthStatus.getStatus .risk = _ := hrisk'
      rw [hstatus]
      exact (getLast?_verdicts _ _ _).symm
    · have hstatus : (ApplicationState.deliver service readings state event).healthStatus.getStatus .execution = _ :=
        hexecution'
      rw [hstatus]
      -- the count of fills never falls, so it has grown overall if it grew at this event or at a later one
      have hgrown := appliedFillCount_onEvent_le state.runtime ((readings state.handledEvents).input event)
      have hlater : (ApplicationState.deliver service readings state event).runtime.appliedFillCount ≤
          (events.foldl (ApplicationState.deliver service readings)
            (ApplicationState.deliver service readings state event)).runtime.appliedFillCount := by
        rw [ApplicationState.runtime_deliver]
        exact appliedFillCount_run_le _ _
      have hruntime : (ApplicationState.deliver service readings state event).runtime =
          state.runtime.onEvent ((readings state.handledEvents).input event) := rfl
      rw [hruntime] at hlater ⊢
      split
      · rw [if_pos (by omega)]
      · split
        · rw [if_pos (by omega)]
        · rw [if_neg (by omega)]

private theorem unavailable_not_mem_riskVerdicts (runtime : SimulationRuntime σ) (inputs : List RuntimeInput) :
    .unavailable ∉ riskVerdicts runtime inputs := by
  induction inputs generalizing runtime with
  | nil => exact List.not_mem_nil
  | cons input inputs ih =>
    rw [riskVerdicts, List.mem_append, not_or]
    refine ⟨?_, ih _⟩
    unfold riskVerdict
    split
    · decide
    · split <;> decide

/-- The health of the components after a session of the application under any calls, with any sources: market data and
ingestion are healthy once an event of their kind has been delivered, risk has the verdict of the last event whose
requests were evaluated, and execution is healthy once a fill has been applied; before that each of them is unknown.
No component is unavailable, and the overall status is the worst of the four. -/
theorem session_health (service : ReplayService) (readings : Nat → Readings) (sources : List (EngineEventSource τ))
    (runtime : SimulationRuntime σ) (sourceState : τ) (fuel : Nat) (calls : List ControllerCall) :
    let controller := applicationController service readings sources runtime sourceState
    let session := ((EngineController.machine fuel).run controller calls).world.1
    let delivered := deliveredFirst (effectsOf ((EngineController.machine fuel).outputs controller calls))
    let health := session.healthStatus
    health.getStatus .marketData = (if delivered.any SimulationRuntime.isMarketEvent then .healthy else .unknown) ∧
      health.getStatus .ingestion =
        (if delivered.any SimulationRuntime.isTransactionEvent then .healthy else .unknown) ∧
      health.getStatus .risk = (riskVerdicts runtime (readAt readings delivered)).getLast?.getD .unknown ∧
      health.getStatus .execution =
        (if runtime.appliedFillCount < session.runtime.appliedFillCount then .healthy else .unknown) ∧
      (∀ component, (health.getStatus component).severity ≤ health.overallStatus.severity) ∧
      (∃ component, health.getStatus component = health.overallStatus) ∧ health.overallStatus ≠ .unavailable := by
  intro controller session delivered health
  have hacts := acts_applicationController service readings sources runtime sourceState
  have hsession : session = delivered.foldl (ApplicationState.deliver service readings) { runtime := runtime } :=
    hacts.run fuel calls
  obtain ⟨hmarket, hingestion, hrisk, hexecution⟩ :=
    getStatus_deliver service readings delivered { runtime := runtime }
  rw [← hsession] at hmarket hingestion hrisk hexecution
  simp only [getStatus_initial] at hmarket hingestion hrisk hexecution
  obtain ⟨⟨worst, hworst⟩, hle⟩ := health.overallStatus_worst
  refine ⟨hmarket, hingestion, hrisk, hexecution, hle, ⟨worst, hworst⟩, ?_⟩
  rw [← hworst]
  cases worst with
  | ingestion =>
    rw [hingestion]
    split <;> decide
  | marketData =>
    rw [hmarket]
    split <;> decide
  | risk =>
    rw [hrisk]
    intro hlast
    generalize hinputs : List.map _ delivered.zipIdx = inputs at hlast
    cases hfound : (riskVerdicts runtime inputs).getLast? with
    | none =>
      rw [hfound] at hlast
      cases hlast
    | some status =>
      rw [hfound] at hlast
      cases hlast
      exact unavailable_not_mem_riskVerdicts runtime inputs (List.mem_of_getLast? hfound)
  | execution =>
    rw [hexecution]
    split <;> decide

end Health

end Wall
