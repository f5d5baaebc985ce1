import Wall.ConfigLoader
import Wall.SimulatedRuns

/-!
# Partial fills of the simulator

The validation of the configuration keeps the ratio of a partial fill between zero and one, one included.  With a
ratio below one every fill is positive and every partly filled order is filled properly in part; with a ratio of one
the first order that reaches the threshold is reported as partly filled with its whole quantity
(`proper_iff_of_valid`).
-/

namespace Wall

open KeyedMap

/-- The settings of the simulator in the application. -/
def SimulationConfig.execution (config : SimulationConfig) : SimulatedExecutionConfig where
  partialFillThreshold := config.partialFillThreshold
  partialFillRatio := config.partialFillRatio

/-- The call submits no order that the simulator accepts and whose quantity reaches the threshold. -/
def SimulatedCall.BelowThreshold (config : SimulatedExecutionConfig) (call : SimulatedCall) : Prop :=
  ∀ request, call = .submit request → request.Simulable → request.quantity < config.partialFillThreshold

namespace SimulatedExecutionEngine

/-- The call emits positive fills only, and what it reports as partly filled is the order that it submits, filled to
more than nothing and less than its quantity. -/
def ProperStep (engine : SimulatedExecutionEngine) (call : SimulatedCall) : Prop :=
  (∀ fill ∈ (machine.step engine call).2.fills, 0 < fill.quantity) ∧
  ∀ update ∈ (machine.step engine call).2.updates, update.status = .partiallyFilled →
    ∃ request, call = .submit request ∧ update.orderId = engine.issuedId ∧ 0 < update.filledQuantity ∧
      update.filledQuantity < request.quantity

/-- Every open order is filled properly in part. -/
structure OpenProperly (config : SimulatedExecutionConfig) (engine : SimulatedExecutionEngine) : Prop where
  config_eq : engine.config = config
  remaining : ∀ (orderId : String) (order : OpenOrderState), engine.openOrders[orderId]? = some order →
    order.filledQuantity < order.request.quantity

variable {config : SimulatedExecutionConfig} {engine : SimulatedExecutionEngine} {request : OrderRequest}

private theorem properStep_of_isRejection {call : SimulatedCall} (h : (machine.step engine call).2.IsRejection) :
    engine.ProperStep call := by
  obtain ⟨hfills, update, hupdates, hstatus⟩ := h
  refine ⟨by simp [hfills], fun other hother hpartly => ?_⟩
  rw [hupdates, List.mem_singleton] at hother
  rw [hother, hstatus] at hpartly
  cases hpartly

private theorem clampPartialFillRatio_of_mem (h : 0 < config.partialFillRatio ∧ config.partialFillRatio ≤ 1) :
    config.clampPartialFillRatio = config.partialFillRatio := by
  rw [SimulatedExecutionConfig.clampPartialFillRatio, if_neg (not_lt.2 h.1.le), if_neg (not_lt.2 h.2)]

/-- A submission that fills in part is proper exactly if the ratio is below one. -/
private theorem properStep_submit_partly (h : request.Simulable) (hopens : engine.OpensPartly request)
    (hratio : 0 < engine.config.partialFillRatio ∧ engine.config.partialFillRatio ≤ 1) :
    engine.ProperStep (.submit request) ↔ engine.config.partialFillRatio < 1 := by
  have hstep : machine.step engine (.submit request) = _ := engine.submit_partly h hopens
  have hpart : engine.partialFillQuantity request = request.quantity * engine.config.partialFillRatio := by
    rw [partialFillQuantity, clampPartialFillRatio_of_mem hratio]
  have hpositive : 0 < engine.partialFillQuantity request := by
    rw [hpart]
    exact mul_pos h.2.2 hratio.1
  have hless : engine.partialFillQuantity request < request.quantity ↔ engine.config.partialFillRatio < 1 := by
    rw [hpart]
    exact mul_lt_iff_lt_one_right h.2.2
  rw [ProperStep, hstep, ← hless]
  constructor
  · rintro ⟨-, hupdates⟩
    obtain ⟨other, hsubmit, -, -, hlt⟩ := hupdates
      (engine.submitUpdate .partiallyFilled (engine.partialFillQuantity request) none) (by simp) rfl
    cases hsubmit
    exact hlt
  · intro hlt
    refine ⟨by simpa [submitFill] using hpositive, fun update hupdate hpartly => ?_⟩
    simp only [List.mem_cons, List.not_mem_nil, or_false] at hupdate
    rcases hupdate with rfl | rfl
    · cases hpartly
    · exact ⟨request, rfl, rfl, hpositive, hlt⟩

private theorem properStep_submit_filled (h : request.Simulable) (hopens : ¬ engine.OpensPartly request) :
    engine.ProperStep (.submit request) := by
  have hstep : machine.step engine (.submit request) = _ := engine.submit_filled h hopens
  rw [ProperStep, hstep]
  refine ⟨by simpa [submitFill] using h.2.2, fun update hupdate hpartly => ?_⟩
  simp only [List.mem_cons, List.not_mem_nil, or_false] at hupdate
  rcases hupdate with rfl | rfl <;> cases hpartly

/-- While the open orders are filled properly, completing or canceling one is proper. -/
private theorem OpenProperly.properStep_of_closes (h : OpenProperly config engine) {call : SimulatedCall}
    {orderId : String} (hcloses : call.Closes orderId) : engine.ProperStep call := by
  cases hopen : engine.openOrders[orderId]? with
  | none => exact properStep_of_isRejection (isRejection_of_closes hcloses hopen).2
  | some order =>
    rcases hcloses with rfl | rfl
    · have hstep : machine.step engine (.completeOpenOrder orderId) = _ := completeOpenOrder_open hopen
      rw [ProperStep, hstep]
      refine ⟨?_, ?_⟩
      · simpa using h.remaining orderId order hopen
      · simp [makeUpdate]
    · have hstep : machine.step engine (.cancelOpenOrder orderId) = _ := cancelOpenOrder_open hopen
      rw [ProperStep, hstep]
      exact ⟨by simp, by simp [makeUpdate]⟩

/-- A proper call leaves the open orders filled properly. -/
theorem OpenProperly.step (h : OpenProperly config engine) {call : SimulatedCall} (hproper : engine.ProperStep call) :
    OpenProperly config (machine.step engine call).1 := by
  refine ⟨(config_step engine call).trans h.config_eq, fun orderId order horder => ?_⟩
  have herased : ∀ other, (engine.openOrders.erase other)[orderId]? = some order →
      order.filledQuantity < order.request.quantity := by
    intro other hother
    rw [getElem?_erase] at hother
    split at hother
    · cases hother
    · exact h.remaining orderId order hother
  cases call with
  | submit request =>
    change (engine.submit request).1.openOrders[orderId]? = some order at horder
    by_cases hsimulable : request.Simulable
    · by_cases hopens : engine.OpensPartly request
      · have hstep : machine.step engine (.submit request) = _ := engine.submit_partly hsimulable hopens
        rw [engine.submit_partly hsimulable hopens] at horder
        rw [ProperStep, hstep] at hproper
        rw [Std.ExtTreeMap.getElem?_insertIfNew] at horder
        split at horder
        · cases horder
          -- the update that opens the order is below the full quantity, since the step is proper
          obtain ⟨other, hsubmit, -, -, hlt⟩ := hproper.2
            (engine.submitUpdate .partiallyFilled (engine.partialFillQuantity request) none) (by simp) rfl
          cases hsubmit
          exact hlt
        · exact h.remaining orderId order horder
      · rw [engine.submit_filled hsimulable hopens] at horder
        exact h.remaining orderId order horder
    · obtain ⟨reason, heq⟩ := engine.submit_rejected hsimulable
      rw [heq] at horder
      exact h.remaining orderId order horder
  | completeOpenOrder other =>
    change (engine.completeOpenOrder other).1.openOrders[orderId]? = some order at horder
    cases hopen : engine.openOrders[other]? with
    | none =>
      rw [completeOpenOrder_notFound hopen] at horder
      exact h.remaining orderId order horder
    | some _ =>
      rw [completeOpenOrder_open hopen] at horder
      exact herased other horder
  | cancelOpenOrder other =>
    change (engine.cancelOpenOrder other).1.openOrders[orderId]? = some order at horder
    cases hopen : engine.openOrders[other]? with
    | none =>
      rw [cancelOpenOrder_notFound hopen] at horder
      exact h.remaining orderId order horder
    | some _ =>
      rw [cancelOpenOrder_open hopen] at horder
      exact herased other horder

/-- The call is proper exactly if the ratio is below one or it submits nothing that reaches the threshold. -/
private theorem OpenProperly.properStep_iff (h : OpenProperly config engine)
    (hthreshold : 0 < config.partialFillThreshold)
    (hratio : 0 < config.partialFillRatio ∧ config.partialFillRatio ≤ 1) (call : SimulatedCall) :
    engine.ProperStep call ↔ config.partialFillRatio < 1 ∨ call.BelowThreshold config := by
  obtain rfl := h.config_eq
  cases call with
  | submit request =>
    have hbelow : SimulatedCall.BelowThreshold engine.config (.submit request) ↔
        (request.Simulable → ¬ engine.OpensPartly request) := by
      constructor
      · intro hlt hsimulable hopens
        exact (hlt request rfl hsimulable).not_ge hopens.1
      · rintro hnot _ ⟨⟩ hsimulable
        exact not_le.1 fun hle => hnot hsimulable ⟨hle, hthreshold⟩
    rw [hbelow]
    by_cases hsimulable : request.Simulable
    · by_cases hopens : engine.OpensPartly request
      · rw [properStep_submit_partly hsimulable hopens hratio]
        exact ⟨.inl, fun hor => hor.resolve_right fun hnot => hnot hsimulable hopens⟩
      · exact iff_of_true (properStep_submit_filled hsimulable hopens) (.inr fun _ => hopens)
    · exact iff_of_true (properStep_of_isRejection (isRejection_submit hsimulable)) (.inr fun h => absurd h hsimulable)
  | completeOpenOrder orderId =>
    exact iff_of_true (h.properStep_of_closes (.inl rfl)) (.inr fun _ hsubmit => by cases hsubmit)
  | cancelOpenOrder orderId =>
    exact iff_of_true (h.properStep_of_closes (.inr rfl)) (.inr fun _ hsubmit => by cases hsubmit)

/-- A run is proper exactly if all its calls may be. -/
private theorem OpenProperly.admissible_iff (h : OpenProperly config engine)
    (hthreshold : 0 < config.partialFillThreshold)
    (hratio : 0 < config.partialFillRatio ∧ config.partialFillRatio ≤ 1) (calls : List SimulatedCall) :
    machine.Admissible ProperStep engine calls ↔
      ∀ call ∈ calls, config.partialFillRatio < 1 ∨ call.BelowThreshold config := by
  induction calls generalizing engine with
  | nil => simp [Machine.Admissible]
  | cons call calls ih =>
    rw [List.forall_mem_cons, ← h.properStep_iff hthreshold hratio]
    exact and_congr_right fun hproper => ih (h.step hproper)

/-- Under a validated configuration every fill of a run is positive and every partly filled order is filled properly
in part, exactly if the ratio is below one or no accepted order reaches the threshold. -/
theorem proper_iff_of_valid (config : AppConfig) (hvalid : (ConfigLoader.validate config).valid = true)
    (calls : List SimulatedCall) :
    machine.Admissible ProperStep (fresh config.simulation.execution) calls ↔
      config.simulation.partialFillRatio < 1 ∨
        ∀ call ∈ calls, call.BelowThreshold config.simulation.execution := by
  obtain ⟨hthreshold, hratio⟩ := ConfigLoader.simulation_of_valid hvalid
  have hfresh : OpenProperly config.simulation.execution (fresh config.simulation.execution) :=
    ⟨rfl, fun orderId order horder => by simp [fresh] at horder⟩
  rw [hfresh.admissible_iff hthreshold hratio calls]
  constructor
  · intro hall
    by_cases hlt : config.simulation.partialFillRatio < 1
    · exact .inl hlt
    · exact .inr fun call hcall => (hall call hcall).resolve_left hlt
  · rintro (hlt | hall) call hcall
    · exact .inl hlt
    · exact .inr (hall call hcall)

/-- A validated configuration with this ratio. -/
def exampleConfig (partialFillRatio : ℚ) : AppConfig where
  mode := "simulation"
  redis := { host := "localhost" }
  postgres := { host := "localhost", database := "trading", user := "trading" }
  kafka := { brokers := ["localhost:9092"], transactionTopic := "transactions", consumerGroup := "engine" }
  risk := { maxOrderQuantity := 5, maxOrderNotional := 500000, maxPositionQuantity := 10, staleAfterMs := 5000 }
  strategy :=
    { strategyId := "threshold"
      triggerInstrumentId := "btc-usdt"
      triggerPrice := 42000
      orderQuantity := 1
      side := "buy" }
  simulation := { partialFillThreshold := 1 / 2, partialFillRatio := partialFillRatio }

/-- An order above the threshold, completed after its partial fill. -/
def examplePartialRun : List SimulatedCall :=
  [.submit { quantity := 1, price := some 42000 }, .completeOpenOrder "sim-order-1"]

theorem proper_iff_of_valid_exampleConfig :
    (ConfigLoader.validate (exampleConfig (2 / 5))).valid = true ∧
    machine.Admissible ProperStep (fresh (exampleConfig (2 / 5)).simulation.execution) examplePartialRun := by
  have hvalid : (ConfigLoader.validate (exampleConfig (2 / 5))).valid = true := by decide +kernel
  have hratio : (exampleConfig (2 / 5)).simulation.partialFillRatio < 1 := by norm_num [exampleConfig]
  exact ⟨hvalid, (proper_iff_of_valid _ hvalid _).2 (.inl hratio)⟩

/-- With a ratio of one the order is reported as partly filled with its whole quantity, and its completion emits a fill
of nothing. -/
theorem not_proper_exampleConfig :
    (ConfigLoader.validate (exampleConfig 1)).valid = true ∧
    ¬ machine.Admissible ProperStep (fresh (exampleConfig 1).simulation.execution) examplePartialRun ∧
    (machine.outputs (fresh (exampleConfig 1).simulation.execution) examplePartialRun).map (fun result =>
      (result.updates.map fun update => (update.status, update.filledQuantity), result.fills.map FillEvent.quantity)) =
      [([(.acknowledged, 0), (.partiallyFilled, 1)], [1]), ([(.filled, 1)], [0])] := by
  refine ⟨by decide +kernel, fun hall => ?_, by decide +kernel⟩
  obtain ⟨request, hsubmit, -, -, hlt⟩ := hall.1.2
    (makeUpdate "sim-order-1" "sim-client-1" .partiallyFilled 1 none) (by decide +kernel) rfl
  cases hsubmit
  exact hlt.false

end SimulatedExecutionEngine

end Wall
