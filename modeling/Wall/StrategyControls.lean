import Wall.StrategyIsolation

/-!
# Pausing and resuming strategies

`pause_strategy`, `resume_strategy` and `is_paused` of `strategy/strategy_coordinator.cpp`: the owner's controls, which
act on the first strategy with the id, whatever has paused it.

Events, pauses and resumes come in any order.  A strategy sees of them the events and the controls that are its own
(`signals`), and runs under these alone (`Strategy.controlled`).  It never sees that it was paused: its state and its
counters are those of a run on the events that it has handled, one after the other (`controlled_strategies`).
-/

namespace Wall

variable {σ : Type*}

def StrategySlot.setPaused (slot : StrategySlot σ) (paused : Bool) : StrategySlot σ :=
  { slot with stats := { slot.stats with paused := paused } }

namespace StrategyCoordinator

/-- The loop of `pause_strategy` and `resume_strategy`: the first strategy with the id, and whether there is one. -/
def scanPaused (paused : Bool) (strategyId : String) : List (StrategySlot σ) → List (StrategySlot σ) × Bool
  | [] => ([], false)
  | slot :: slots =>
    if slot.stats.strategyId = strategyId then (slot.setPaused paused :: slots, true)
    else
      let (slots, found) := scanPaused paused strategyId slots
      (slot :: slots, found)

def pauseStrategy (coordinator : StrategyCoordinator σ) (strategyId : String) : StrategyCoordinator σ × Bool :=
  let (strategies, found) := scanPaused true strategyId coordinator.strategies
  ({ strategies := strategies }, found)

def resumeStrategy (coordinator : StrategyCoordinator σ) (strategyId : String) : StrategyCoordinator σ × Bool :=
  let (strategies, found) := scanPaused false strategyId coordinator.strategies
  ({ strategies := strategies }, found)

def isPaused (coordinator : StrategyCoordinator σ) (strategyId : String) : Bool :=
  match coordinator.strategies.find? fun slot => decide (slot.stats.strategyId = strategyId) with
  | some slot => slot.stats.paused
  | none => false

end StrategyCoordinator

inductive CoordinatorCall
  | onEvent (event : EngineEvent) (context : StrategyContext)
  | pauseStrategy (strategyId : String)
  | resumeStrategy (strategyId : String)

def StrategyCoordinator.call (coordinator : StrategyCoordinator σ) : CoordinatorCall → StrategyCoordinator σ
  | .onEvent event context => (coordinator.onEvent event context).1
  | .pauseStrategy strategyId => (coordinator.pauseStrategy strategyId).1
  | .resumeStrategy strategyId => (coordinator.resumeStrategy strategyId).1

/-! ### A strategy under its own controls -/

/-- What a call is to one strategy. -/
inductive StrategySignal
  | event (event : EngineEvent) (context : StrategyContext)
  | control (paused : Bool)

/-- What a call is to the strategy at place `n`, when the strategies have these ids. -/
def CoordinatorCall.signal (ids : List String) (n : Nat) : CoordinatorCall → Option StrategySignal
  | .onEvent event context => some (.event event context)
  | .pauseStrategy strategyId => if ids.idxOf strategyId = n then some (.control true) else none
  | .resumeStrategy strategyId => if ids.idxOf strategyId = n then some (.control false) else none

def signals (ids : List String) (n : Nat) (calls : List CoordinatorCall) : List StrategySignal :=
  calls.filterMap (CoordinatorCall.signal ids n)

/-- What becomes of a signal: an event is handled, or skipped while the strategy is paused. -/
inductive SignalOutcome
  | controlled (paused : Bool)
  | handled (result : Option (List OrderRequest))
  | skipped

/-- The pause flag that an outcome leaves, if it sets it: a strategy that throws is paused. -/
def SignalOutcome.flag : SignalOutcome → Option Bool
  | .controlled paused => some paused
  | .handled none => some true
  | .handled (some _) | .skipped => none

/-- Whether the last outcome that says so leaves the strategy paused. -/
def pausedAfter (outcomes : List SignalOutcome) : Bool := (outcomes.filterMap SignalOutcome.flag).getLast?.getD false

/-- The events that a strategy has handled. -/
def handledInputs (signals : List StrategySignal) (outcomes : List SignalOutcome) :
    List (EngineEvent × StrategyContext) :=
  (signals.zip outcomes).filterMap fun
    | (.event event context, .handled _) => some (event, context)
    | _ => none

private theorem pausedAfter_concat (outcomes : List SignalOutcome) (outcome : SignalOutcome) :
    pausedAfter (outcomes ++ [outcome]) = outcome.flag.getD (pausedAfter outcomes) := by
  rw [pausedAfter, List.filterMap_append]
  cases hflag : outcome.flag with
  | none => simp [hflag, pausedAfter]
  | some paused => simp [hflag]

private theorem handledInputs_concat {signals : List StrategySignal} {outcomes : List SignalOutcome}
    (h : signals.length = outcomes.length) (signal : StrategySignal) (outcome : SignalOutcome) :
    handledInputs (signals ++ [signal]) (outcomes ++ [outcome]) =
      handledInputs signals outcomes ++ handledInputs [signal] [outcome] := by
  rw [handledInputs, List.zip_append h, List.filterMap_append]
  rfl

namespace Strategy

/-- A strategy on its own, one event after the other, whatever it throws. -/
def machine (strategy : Strategy σ) : Machine σ (EngineEvent × StrategyContext) (Option (List OrderRequest)) where
  step := fun state input => strategy.onEvent state input.1 input.2

/-- A strategy under its own controls, with its pause flag. -/
def controlled (strategy : Strategy σ) : Machine (σ × Bool) StrategySignal SignalOutcome where
  step
    | (state, _), .control paused => ((state, paused), .controlled paused)
    | (state, true), .event _ _ => ((state, true), .skipped)
    | (state, false), .event event context =>
      let (state, result) := strategy.onEvent state event context
      ((state, result.isNone), .handled result)

end Strategy

/-- The slot of a strategy that has handled the inputs, with its pause flag. -/
def StrategySlot.having (member : Strategy σ × σ) (inputs : List (EngineEvent × StrategyContext)) (paused : Bool) :
    StrategySlot σ :=
  let results := member.1.machine.outputs member.2 inputs
  { strategy := member.1
    state := member.1.machine.run member.2 inputs
    stats :=
      { strategyId := member.1.strategyId
        handledEvents := inputs.length
        emittedRequests := (results.map fun result => (result.getD []).length).sum
        failures := results.count none
        paused := paused } }

/-! ### A slot under its signals -/

namespace StrategySlot

open StrategyCoordinator (slotOf)

def receive (slot : StrategySlot σ) : StrategySignal → StrategySlot σ
  | .event event context => (slot.onEvent event context).1
  | .control paused => slot.setPaused paused

private theorem receive_strategyId (slot : StrategySlot σ) (signal : StrategySignal) :
    (slot.receive signal).stats.strategyId = slot.stats.strategyId := by
  cases signal with
  | control => rfl
  | event event context =>
    show (slot.onEvent event context).1.stats.strategyId = _
    unfold onEvent
    split
    · rfl
    · split <;> rfl

/-- An event that an active strategy handles is one more input, and pauses it if it throws. -/
private theorem having_onEvent (member : Strategy σ × σ) (inputs : List (EngineEvent × StrategyContext))
    (event : EngineEvent) (context : StrategyContext) :
    let result := (member.1.onEvent (member.1.machine.run member.2 inputs) event context).2
    (having member inputs false).onEvent event context =
      (having member (inputs ++ [(event, context)]) result.isNone, result.getD []) := by
  have hstep : member.1.machine.step (member.1.machine.run member.2 inputs) (event, context) =
      member.1.onEvent (member.1.machine.run member.2 inputs) event context := rfl
  rcases hresult : member.1.onEvent (member.1.machine.run member.2 inputs) event context with ⟨state, _ | requests⟩ <;>
    simp [onEvent, having, Machine.run_append, Machine.outputs_append, hstep, hresult]

private theorem having_requests (member : Strategy σ × σ) (inputs : List (EngineEvent × StrategyContext))
    (paused : Bool) (event : EngineEvent) (context : StrategyContext) :
    ((having member inputs paused).onEvent event context).2 =
      if paused then []
      else (member.1.onEvent (member.1.machine.run member.2 inputs) event context).2.getD [] := by
  cases paused with
  | true => rfl
  | false => rw [having_onEvent, if_neg Bool.false_ne_true]

/-- What a slot has seen of its signals is what its strategy has under its own controls. -/
private theorem foldl_receive (member : Strategy σ × σ) (signals : List StrategySignal) :
    let outcomes := member.1.controlled.outputs (member.2, false) signals
    signals.foldl receive (slotOf member) = having member (handledInputs signals outcomes) (pausedAfter outcomes) := by
  -- the state and the flag under the controls go along with what the slot has
  let Keeps (signals : List StrategySignal) (seen : σ × Bool) (outcomes : List SignalOutcome) : Prop :=
    signals.length = outcomes.length ∧
      seen = (member.1.machine.run member.2 (handledInputs signals outcomes), pausedAfter outcomes) ∧
      signals.foldl receive (slotOf member) = having member (handledInputs signals outcomes) (pausedAfter outcomes)
  suffices h : Keeps signals (member.1.controlled.run (member.2, false) signals)
      (member.1.controlled.outputs (member.2, false) signals) from h.2.2
  have hany : member.1.controlled.Admissible (fun _ _ => True) (member.2, false) signals :=
    Machine.admissible_of_forall (fun _ _ _ => trivial) _
  refine Machine.invariant_history ?_ hany ⟨rfl, rfl, rfl⟩
  rintro signals seen outcomes signal - ⟨hlength, rfl, hslot⟩
  have hlength' : ∀ outcome, (signals ++ [signal]).length = (outcomes ++ [outcome]).length :=
    fun outcome : SignalOutcome => by rw [List.length_append, List.length_append, hlength]; rfl
  refine ⟨hlength' _, ?_⟩
  rw [List.foldl_append, hslot, handledInputs_concat hlength, pausedAfter_concat]
  generalize handledInputs signals outcomes = inputs
  cases signal with
  | control paused =>
    have hstep : member.1.controlled.step (member.1.machine.run member.2 inputs, pausedAfter outcomes)
        (.control paused) = ((member.1.machine.run member.2 inputs, paused), .controlled paused) := rfl
    have hnone : handledInputs [.control paused] [.controlled paused] = [] := rfl
    rw [hstep, hnone, List.append_nil]
    exact ⟨rfl, rfl⟩
  | event event context =>
    cases hpaused : pausedAfter outcomes with
    | true =>
      have hstep : member.1.controlled.step (member.1.machine.run member.2 inputs, true) (.event event context) =
          ((member.1.machine.run member.2 inputs, true), .skipped) := rfl
      have hnone : handledInputs [.event event context] [.skipped] = [] := rfl
      rw [hstep, hnone, List.append_nil]
      exact ⟨rfl, rfl⟩
    | false =>
      let result := member.1.onEvent (member.1.machine.run member.2 inputs) event context
      have hstep : member.1.controlled.step (member.1.machine.run member.2 inputs, false) (.event event context) =
          ((result.1, result.2.isNone), .handled result.2) := rfl
      have hone : handledInputs [.event event context] [.handled result.2] = [(event, context)] := rfl
      have hflag : (SignalOutcome.handled result.2).flag.getD false = result.2.isNone := by
        cases result.2 <;> rfl
      rw [hstep, hone, hflag, Machine.run_append]
      refine ⟨rfl, ?_⟩
      show ((having member inputs false).onEvent event context).1 = _
      rw [having_onEvent]

end StrategySlot

/-! ### The coordinator under its calls -/

private theorem map_eq_mapIdx {α β : Type*} (f : α → β) (l : List α) : l.map f = l.mapIdx fun _ => f :=
  List.ext_getElem (by simp) (by simp)

namespace StrategyCoordinator

def ids (coordinator : StrategyCoordinator σ) : List String :=
  coordinator.strategies.map fun slot => slot.stats.strategyId

/-- The scan finds the strategy at the first place of the id. -/
private theorem scanPaused_eq (paused : Bool) (strategyId : String) (slots : List (StrategySlot σ)) :
    let ids := slots.map fun slot => slot.stats.strategyId
    scanPaused paused strategyId slots =
      (slots.mapIdx fun n slot => if ids.idxOf strategyId = n then slot.setPaused paused else slot,
        decide (strategyId ∈ ids)) := by
  induction slots with
  | nil => rfl
  | cons slot slots ih =>
    dsimp only at ih ⊢
    rw [scanPaused, ih, List.map_cons, List.mapIdx_cons, List.idxOf_cons]
    by_cases hid : slot.stats.strategyId = strategyId
    · have hrest : slots.mapIdx (fun _ slot => slot) = slots := (map_eq_mapIdx _ slots).symm.trans (List.map_id' slots)
      simp [hid, hrest]
    · have hbeq : (slot.stats.strategyId == strategyId) = false := beq_eq_false_iff_ne.2 hid
      simp [hid, hbeq, Ne.symm hid]

/-- What a slot sees of a call. -/
def seen (ids : List String) (call : CoordinatorCall) (n : Nat) (slot : StrategySlot σ) : StrategySlot σ :=
  (call.signal ids n).elim slot slot.receive

private theorem strategies_call (coordinator : StrategyCoordinator σ) (call : CoordinatorCall) :
    (coordinator.call call).strategies = coordinator.strategies.mapIdx (seen coordinator.ids call) := by
  have hscan : ∀ paused strategyId, (scanPaused paused strategyId coordinator.strategies).1 =
      coordinator.strategies.mapIdx fun n slot =>
        (if coordinator.ids.idxOf strategyId = n then some (StrategySignal.control paused) else none).elim slot
          slot.receive := by
    intro paused strategyId
    rw [scanPaused_eq]
    refine congrArg (List.mapIdx · _) (funext₂ fun n slot => ?_)
    by_cases hn : coordinator.ids.idxOf strategyId = n
    · rw [if_pos hn]
      exact if_pos hn
    · rw [if_neg hn]
      exact if_neg hn
  cases call with
  | onEvent event context =>
    show (coordinator.strategies.map fun slot => slot.onEvent event context).map Prod.fst = _
    rw [List.map_map]
    exact map_eq_mapIdx _ _
  | pauseStrategy strategyId => exact hscan true strategyId
  | resumeStrategy strategyId => exact hscan false strategyId

private theorem ids_call (coordinator : StrategyCoordinator σ) (call : CoordinatorCall) :
    (coordinator.call call).ids = coordinator.ids := by
  rw [ids, strategies_call]
  refine List.ext_getElem (by simp [ids]) fun n hn _ => ?_
  simp only [List.getElem_map, List.getElem_mapIdx, ids, seen]
  cases call.signal (coordinator.strategies.map fun slot => slot.stats.strategyId) n with
  | none => rfl
  | some signal => exact StrategySlot.receive_strategyId _ _

/-- Each strategy sees its own signals. -/
private theorem strategies_calls (coordinator : StrategyCoordinator σ) (calls : List CoordinatorCall) :
    (calls.foldl call coordinator).strategies = coordinator.strategies.mapIdx fun n slot =>
      (signals coordinator.ids n calls).foldl StrategySlot.receive slot := by
  induction calls generalizing coordinator with
  | nil => exact List.ext_getElem (by simp) (by simp [signals])
  | cons call calls ih =>
    rw [List.foldl_cons, ih, strategies_call, ids_call, List.mapIdx_mapIdx]
    refine congrArg (List.mapIdx · _) (funext₂ fun n slot => ?_)
    show (signals coordinator.ids n calls).foldl StrategySlot.receive (seen coordinator.ids call n slot) = _
    rw [seen, signals, signals, List.filterMap_cons]
    cases call.signal coordinator.ids n <;> rfl

private theorem ids_calls (coordinator : StrategyCoordinator σ) (calls : List CoordinatorCall) :
    (calls.foldl call coordinator).ids = coordinator.ids := by
  induction calls generalizing coordinator with
  | nil => rfl
  | cons call calls ih => rw [List.foldl_cons, ih, ids_call]

/-- The first strategy with an id is at the first place of the id. -/
private theorem find?_strategyId (strategyId : String) (slots : List (StrategySlot σ)) :
    (slots.find? fun slot => decide (slot.stats.strategyId = strategyId)) =
      slots[(slots.map fun slot => slot.stats.strategyId).idxOf strategyId]? := by
  induction slots with
  | nil => rfl
  | cons slot slots ih =>
    rw [List.find?_cons, ih, List.map_cons, List.idxOf_cons]
    by_cases hid : slot.stats.strategyId = strategyId
    · simp [hid]
    · have hbeq : (slot.stats.strategyId == strategyId) = false := beq_eq_false_iff_ne.2 hid
      simp [hid, hbeq]

/-- Under any events, pauses and resumes, in any order, each strategy has the state and the counters of a run alone on
the events that it has handled, and it handles an event exactly if neither its last control nor a throw since has left
it paused.  An event asks the active strategies in order.  A control finds its strategy exactly if there is one with
the id, and of several with one id it is the first one's. -/
theorem controlled_strategies (members : List (Strategy σ × σ)) (calls : List CoordinatorCall) :
    let ids := members.map fun member => member.1.strategyId
    let coordinator := calls.foldl call (ofStrategies members)
    let outcomes := fun n (member : Strategy σ × σ) =>
      member.1.controlled.outputs (member.2, false) (signals ids n calls)
    let handled := fun n member => handledInputs (signals ids n calls) (outcomes n member)
    coordinator.strategies = (members.mapIdx fun n member =>
      StrategySlot.having member (handled n member) (pausedAfter (outcomes n member))) ∧
    (∀ event context, (coordinator.onEvent event context).2 = (members.mapIdx fun n member =>
      if pausedAfter (outcomes n member) then []
      else (member.1.onEvent (member.1.machine.run member.2 (handled n member)) event context).2.getD []).flatten) ∧
    ∀ strategyId, (coordinator.pauseStrategy strategyId).2 = decide (strategyId ∈ ids) ∧
      (coordinator.resumeStrategy strategyId).2 = decide (strategyId ∈ ids) ∧
      coordinator.isPaused strategyId =
        (members[ids.idxOf strategyId]?.map fun member =>
          pausedAfter (outcomes (ids.idxOf strategyId) member)).getD false := by
  intro ids coordinator outcomes handled
  have hids : (ofStrategies members).ids = ids := by
    rw [StrategyCoordinator.ids, strategies_ofStrategies, List.map_map]
    rfl
  have hids' : coordinator.ids = ids := (ids_calls _ calls).trans hids
  have hstrategies : coordinator.strategies = members.mapIdx fun n member =>
      StrategySlot.having member (handled n member) (pausedAfter (outcomes n member)) := by
    rw [strategies_calls, hids, strategies_ofStrategies, map_eq_mapIdx, List.mapIdx_mapIdx]
    exact congrArg (List.mapIdx · members) (funext₂ fun n member => StrategySlot.foldl_receive member _)
  have hfound : ∀ paused strategyId, (scanPaused paused strategyId coordinator.strategies).2 =
      decide (strategyId ∈ ids) := by
    intro paused strategyId
    rw [scanPaused_eq, ← hids']
    rfl
  refine ⟨hstrategies, fun event context => ?_, fun strategyId =>
    ⟨hfound true strategyId, hfound false strategyId, ?_⟩⟩
  · show (coordinator.strategies.map fun slot => slot.onEvent event context).flatMap Prod.snd = _
    rw [hstrategies, List.flatMap_def, List.map_map, map_eq_mapIdx, List.mapIdx_mapIdx]
    refine congrArg List.flatten (congrArg (List.mapIdx · members) (funext₂ fun n member => ?_))
    exact StrategySlot.having_requests member _ _ event context
  · rw [isPaused, find?_strategyId, show coordinator.strategies.map _ = _ from hids', hstrategies, List.getElem?_mapIdx]
    cases members[ids.idxOf strategyId]? <;> rfl

end StrategyCoordinator

end Wall
