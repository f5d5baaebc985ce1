import Wall.Strategy
import Wall.Lib.Machine

/-!
# Strategies do not disturb each other

A strategy that runs alone reads the events in order until it throws (`Strategy.soloRun`).  The coordinator's answer to
each event is made of what its strategies emit alone, in the order in which they were added, and each strategy's
counters and pause state are those of its run alone (`strategies_isolated`): neither depends on the other strategies,
whichever of them fail and when.
-/

namespace Wall

variable {σ : Type*}

/-! ### A strategy alone -/

/-- The results of a strategy that runs alone on the events, up to the event on which it throws. -/
def Strategy.soloRun (strategy : Strategy σ) :
    σ → List (EngineEvent × StrategyContext) → List (Option (List OrderRequest))
  | _, [] => []
  | state, (event, context) :: inputs =>
    match strategy.onEvent state event context with
    | (state, some requests) => some requests :: strategy.soloRun state inputs
    | (_, none) => [none]

/-- What a strategy with these results emits on the event numbered `n`: nothing where it throws and nothing after. -/
def emittedOn (results : List (Option (List OrderRequest))) (n : Nat) : List OrderRequest :=
  results[n]?.join.getD []

/-- The counters after these results. -/
def StrategyRuntimeStats.after (stats : StrategyRuntimeStats) (results : List (Option (List OrderRequest))) :
    StrategyRuntimeStats :=
  { stats with
    handledEvents := stats.handledEvents + results.length
    emittedRequests := stats.emittedRequests + (results.map fun result => (result.getD []).length).sum
    failures := stats.failures + results.count none
    paused := stats.paused || decide (none ∈ results) }

/-- The counters of a strategy that runs alone on the events. -/
def Strategy.soloStats (strategy : Strategy σ) (state : σ) (inputs : List (EngineEvent × StrategyContext)) :
    StrategyRuntimeStats :=
  ({ strategyId := strategy.strategyId } : StrategyRuntimeStats).after (strategy.soloRun state inputs)

@[simp] theorem emittedOn_nil (n : Nat) : emittedOn [] n = [] := rfl

@[simp] theorem emittedOn_zero (result : Option (List OrderRequest)) (results : List (Option (List OrderRequest))) :
    emittedOn (result :: results) 0 = result.getD [] := rfl

@[simp] theorem emittedOn_succ (result : Option (List OrderRequest)) (results : List (Option (List OrderRequest)))
    (n : Nat) : emittedOn (result :: results) (n + 1) = emittedOn results n := rfl

@[simp] theorem StrategyRuntimeStats.after_nil (stats : StrategyRuntimeStats) : stats.after [] = stats := by
  simp [after]

private theorem StrategyRuntimeStats.after_after (stats : StrategyRuntimeStats)
    (results results' : List (Option (List OrderRequest))) :
    (stats.after results).after results' = stats.after (results ++ results') := by
  simp [after, Nat.add_assoc, Bool.or_assoc]

/-! ### A slot of the coordinator -/

namespace StrategySlot

/-- A slot, one event after another. -/
def machine : Machine (StrategySlot σ) (EngineEvent × StrategyContext) (List OrderRequest) where
  step := fun slot input => slot.onEvent input.1 input.2

private theorem step_of_paused {slot : StrategySlot σ} (h : slot.stats.paused = true)
    (input : EngineEvent × StrategyContext) : machine.step slot input = (slot, []) := by
  simp [machine, onEvent, h]

/-- The slot of a strategy that has thrown and is now in the given state. -/
def failed (slot : StrategySlot σ) (state : σ) : StrategySlot σ :=
  { slot with
    state := state
    stats := slot.stats.after [none] }

/-- The slot of a strategy that has emitted the requests and is now in the given state. -/
def emitted (slot : StrategySlot σ) (state : σ) (requests : List OrderRequest) : StrategySlot σ :=
  { slot with
    state := state
    stats := slot.stats.after [some requests] }

private theorem step_of_throw {slot : StrategySlot σ} (h : slot.stats.paused = false) {event : EngineEvent}
    {context : StrategyContext} {state : σ}
    (hresult : slot.strategy.onEvent slot.state event context = (state, none)) :
    machine.step slot (event, context) = (slot.failed state, []) := by
  simp [machine, onEvent, failed, StrategyRuntimeStats.after, h, hresult]

theorem step_of_emit {slot : StrategySlot σ} (h : slot.stats.paused = false) {event : EngineEvent}
    {context : StrategyContext} {state : σ} {requests : List OrderRequest}
    (hresult : slot.strategy.onEvent slot.state event context = (state, some requests)) :
    machine.step slot (event, context) = (slot.emitted state requests, requests) := by
  simp [machine, onEvent, emitted, StrategyRuntimeStats.after, h, hresult]

private theorem paused_failed (slot : StrategySlot σ) (state : σ) : (slot.failed state).stats.paused = true := by
  simp [failed, StrategyRuntimeStats.after]

theorem paused_emitted {slot : StrategySlot σ} (h : slot.stats.paused = false) (state : σ)
    (requests : List OrderRequest) : (slot.emitted state requests).stats.paused = false := by
  simp [emitted, StrategyRuntimeStats.after, h]

/-- A paused slot stays as it is. -/
private theorem run_of_paused {slot : StrategySlot σ} (h : slot.stats.paused = true)
    (inputs : List (EngineEvent × StrategyContext)) : machine.run slot inputs = slot := by
  induction inputs with
  | nil => rfl
  | cons input inputs ih => rw [Machine.run_cons, step_of_paused h, ih]

/-- A paused slot emits nothing. -/
private theorem outputs_of_paused {slot : StrategySlot σ} (h : slot.stats.paused = true)
    (inputs : List (EngineEvent × StrategyContext)) (n : Nat) :
    (machine.outputs slot inputs)[n]?.getD [] = [] := by
  induction inputs generalizing n with
  | nil => rfl
  | cons input inputs ih =>
    rw [Machine.outputs_cons, step_of_paused h]
    cases n with
    | zero => rfl
    | succ n => exact ih n

/-- The counters of a slot are those of its strategy's run alone. -/
private theorem stats_run {slot : StrategySlot σ} (h : slot.stats.paused = false)
    (inputs : List (EngineEvent × StrategyContext)) :
    (machine.run slot inputs).stats = slot.stats.after (slot.strategy.soloRun slot.state inputs) := by
  induction inputs generalizing slot with
  | nil => simp [Strategy.soloRun]
  | cons input inputs ih =>
    obtain ⟨event, context⟩ := input
    rw [Machine.run_cons, Strategy.soloRun]
    rcases hresult : slot.strategy.onEvent slot.state event context with ⟨state, _ | requests⟩
    · rw [step_of_throw h hresult, run_of_paused (slot.paused_failed state)]
      rfl
    · rw [step_of_emit h hresult, ih (paused_emitted h state requests)]
      exact slot.stats.after_after [some requests] _

/-- What a slot emits on an event is what its strategy emits there when it runs alone. -/
private theorem outputs_eq {slot : StrategySlot σ} (h : slot.stats.paused = false)
    (inputs : List (EngineEvent × StrategyContext)) (n : Nat) :
    (machine.outputs slot inputs)[n]?.getD [] = emittedOn (slot.strategy.soloRun slot.state inputs) n := by
  induction inputs generalizing slot n with
  | nil => rfl
  | cons input inputs ih =>
    obtain ⟨event, context⟩ := input
    rw [Machine.outputs_cons, Strategy.soloRun]
    rcases hresult : slot.strategy.onEvent slot.state event context with ⟨state, _ | requests⟩
    · rw [step_of_throw h hresult]
      cases n with
      | zero => rfl
      | succ n => exact outputs_of_paused (slot.paused_failed state) inputs n
    · rw [step_of_emit h hresult]
      cases n with
      | zero => rfl
      | succ n => exact ih (paused_emitted h state requests) n

end StrategySlot

/-! ### The coordinator -/

namespace StrategyCoordinator

/-- The coordinator, one event after another. -/
def machine : Machine (StrategyCoordinator σ) (EngineEvent × StrategyContext) (List OrderRequest) where
  step := fun coordinator input => coordinator.onEvent input.1 input.2

def allStats (coordinator : StrategyCoordinator σ) : List StrategyRuntimeStats :=
  coordinator.strategies.map StrategySlot.stats

/-- The coordinator to which the strategies, in the states they are in, have been added in order. -/
def ofStrategies (members : List (Strategy σ × σ)) : StrategyCoordinator σ :=
  members.foldl (fun coordinator member => coordinator.addStrategy member.1 member.2) {}

/-- The slot that is made for a strategy. -/
def slotOf (member : Strategy σ × σ) : StrategySlot σ where
  strategy := member.1
  state := member.2
  stats := { strategyId := member.1.strategyId }

theorem strategies_ofStrategies (members : List (Strategy σ × σ)) :
    (ofStrategies members).strategies = members.map slotOf := by
  suffices h : ∀ coordinator : StrategyCoordinator σ,
      (members.foldl (fun coordinator member => coordinator.addStrategy member.1 member.2) coordinator).strategies =
        coordinator.strategies ++ members.map slotOf from h {}
  induction members with
  | nil => simp
  | cons member members ih =>
    intro coordinator
    rw [List.foldl_cons, ih, addStrategy, List.append_assoc]
    rfl

/-- Each slot of the coordinator runs on its own. -/
theorem strategies_run (coordinator : StrategyCoordinator σ) (inputs : List (EngineEvent × StrategyContext)) :
    (machine.run coordinator inputs).strategies =
      coordinator.strategies.map fun slot => StrategySlot.machine.run slot inputs := by
  induction inputs generalizing coordinator with
  | nil => simp
  | cons input inputs ih =>
    rw [Machine.run_cons, ih]
    simp [machine, onEvent, StrategySlot.machine]

/-- The coordinator's answers are the slots' answers, one slot after another. -/
private theorem outputs_eq (coordinator : StrategyCoordinator σ) (inputs : List (EngineEvent × StrategyContext)) :
    machine.outputs coordinator inputs = (List.range inputs.length).map fun n =>
      coordinator.strategies.flatMap fun slot => (StrategySlot.machine.outputs slot inputs)[n]?.getD [] := by
  induction inputs generalizing coordinator with
  | nil => rfl
  | cons input inputs ih =>
    rw [Machine.outputs_cons, ih, List.length_cons, List.range_succ_eq_map, List.map_cons, List.map_map]
    simp only [machine, onEvent, List.flatMap_map]
    rfl

private theorem allStats_run_ofStrategies (members : List (Strategy σ × σ))
    (inputs : List (EngineEvent × StrategyContext)) :
    (machine.run (ofStrategies members) inputs).allStats = members.map fun member =>
      member.1.soloStats member.2 inputs := by
  rw [allStats, strategies_run, strategies_ofStrategies, List.map_map, List.map_map]
  refine List.map_congr_left fun member _ => ?_
  exact StrategySlot.stats_run rfl inputs

/-- The requests for each event are those its strategies emit when each of them runs alone, in the order in which the
strategies were added, with nothing from a strategy on the event on which it throws and after it.  Each strategy has
the counters and the pause state of its run alone, so another one in a strategy's place changes those of no other. -/
theorem strategies_isolated (members : List (Strategy σ × σ)) (inputs : List (EngineEvent × StrategyContext)) :
    machine.outputs (ofStrategies members) inputs = (List.range inputs.length).map (fun n =>
      members.flatMap fun member => emittedOn (member.1.soloRun member.2 inputs) n) ∧
    (machine.run (ofStrategies members) inputs).allStats = members.map (fun member =>
      member.1.soloStats member.2 inputs) ∧
    ∀ (n : Nat) (other : Strategy σ × σ),
      (machine.run (ofStrategies (members.set n other)) inputs).allStats.eraseIdx n =
        (machine.run (ofStrategies members) inputs).allStats.eraseIdx n := by
  refine ⟨?_, allStats_run_ofStrategies members inputs, fun n other => ?_⟩
  · rw [outputs_eq, strategies_ofStrategies]
    refine List.map_congr_left fun n _ => ?_
    rw [List.flatMap_map]
    exact List.flatMap_congr fun member _ => StrategySlot.outputs_eq rfl inputs n
  · rw [allStats_run_ofStrategies, allStats_run_ofStrategies, List.map_set, List.eraseIdx_set_eq]

end StrategyCoordinator

end Wall
