import Wall.SimulatedExecutionEngine

/-!
# Runs of the simulated execution engine

What a run reports about an accepted order is one of four histories (`Lifecycle`): filled at once; or filled in part
and still open, completed, or canceled.  Every call keeps the order in one of them (`Follows.step`), whatever the calls
for other orders do, and the fills of the order add up to the quantity reported last (`fills_conserved`).
-/

namespace Wall

open KeyedMap

/-! ### What is reported about an order -/

/-- The statuses and filled quantities that the result reports for the order, rejections left out. -/
def ExecutionResult.reported (result : ExecutionResult) (orderId : String) : List (OrderStatus × ℚ) :=
  (result.updates.filter fun update => update.orderId = orderId ∧ update.status ≠ .rejected).map fun update =>
    (update.status, update.filledQuantity)

/-- The quantity of the result's fills for the order. -/
def ExecutionResult.filledFor (result : ExecutionResult) (orderId : String) : ℚ :=
  ((result.fills.filter fun fill => fill.orderId = orderId).map FillEvent.quantity).sum

def reported (orderId : String) (results : List ExecutionResult) : List (OrderStatus × ℚ) :=
  results.flatMap fun result => result.reported orderId

def filledFor (orderId : String) (results : List ExecutionResult) : ℚ :=
  (results.map fun result => result.filledFor orderId).sum

/-- The result rejects nothing. -/
def ExecutionResult.Accepted (result : ExecutionResult) : Prop := ∀ update ∈ result.updates, update.status ≠ .rejected

instance (result : ExecutionResult) : Decidable result.Accepted :=
  inferInstanceAs (Decidable (∀ update ∈ result.updates, update.status ≠ .rejected))

/-- The result is one rejection, with no fill. -/
def ExecutionResult.IsRejection (result : ExecutionResult) : Prop :=
  result.fills = [] ∧ ∃ update, result.updates = [update] ∧ update.status = .rejected

/-- The call completes or cancels the order. -/
def SimulatedCall.Closes (call : SimulatedCall) (orderId : String) : Prop :=
  call = .completeOpenOrder orderId ∨ call = .cancelOpenOrder orderId

private theorem reported_concat (orderId : String) (results : List ExecutionResult) (result : ExecutionResult) :
    reported orderId (results ++ [result]) = reported orderId results ++ result.reported orderId := by
  simp [reported]

private theorem filledFor_concat (orderId : String) (results : List ExecutionResult) (result : ExecutionResult) :
    filledFor orderId (results ++ [result]) = filledFor orderId results + result.filledFor orderId := by
  simp [filledFor]

namespace SimulatedExecutionEngine

/-- What an accepted order of this quantity can have come to: whether it is open, what is reported, what is filled. -/
inductive Lifecycle (quantity part : ℚ) : Bool → List (OrderStatus × ℚ) → ℚ → Prop
  | opened : Lifecycle quantity part true [(.acknowledged, 0), (.partiallyFilled, part)] part
  | filled : Lifecycle quantity part false [(.acknowledged, 0), (.filled, quantity)] quantity
  | completed : Lifecycle quantity part false
      [(.acknowledged, 0), (.partiallyFilled, part), (.filled, quantity)] quantity
  | canceled : Lifecycle quantity part false
      [(.acknowledged, 0), (.partiallyFilled, part), (.pendingCancel, part), (.canceled, part)] part

/-- The order with this id has come to one of the histories. -/
structure Follows (engine : SimulatedExecutionEngine) (orderId : String) (request : OrderRequest) (part : ℚ)
    (results : List ExecutionResult) : Prop where
  issued : ∃ number < engine.nextOrderId, orderId = simOrderId number
  order : ∀ order, engine.openOrders[orderId]? = some order → order.request = request ∧ order.filledQuantity = part
  lifecycle : Lifecycle request.quantity part engine.openOrders[orderId]?.isSome (reported orderId results)
    (filledFor orderId results)

/-- Nothing is known of orders whose number is not issued yet. -/
structure Unissued (engine : SimulatedExecutionEngine) (results : List ExecutionResult) : Prop where
  order : ∀ number, engine.nextOrderId ≤ number → engine.openOrders[simOrderId number]? = none
  reported : ∀ number, engine.nextOrderId ≤ number → reported (simOrderId number) results = []
  filled : ∀ number, engine.nextOrderId ≤ number → filledFor (simOrderId number) results = 0

variable {engine : SimulatedExecutionEngine} {orderId : String} {request : OrderRequest} {part : ℚ}
  {results : List ExecutionResult} {order : OpenOrderState}

/-! ### One call -/

/-- A result that says nothing about the order. -/
structure Silent (before after : SimulatedExecutionEngine) (result : ExecutionResult) (orderId : String) : Prop where
  order : after.openOrders[orderId]? = before.openOrders[orderId]?
  reported : result.reported orderId = []
  filled : result.filledFor orderId = 0

private theorem silent_of_rejection {after : SimulatedExecutionEngine} {result : ExecutionResult}
    (horders : after.openOrders = engine.openOrders) (h : result.IsRejection) (orderId : String) :
    Silent engine after result orderId := by
  obtain ⟨hfills, update, hupdates, hstatus⟩ := h
  refine ⟨by rw [horders], ?_, ?_⟩
  · simp [ExecutionResult.reported, hupdates, hstatus]
  · simp [ExecutionResult.filledFor, hfills]

/-- A result whose updates and fills are all for another order. -/
private theorem silent_of_other {after : SimulatedExecutionEngine} {result : ExecutionResult}
    (horder : after.openOrders[orderId]? = engine.openOrders[orderId]?)
    (hupdates : ∀ update ∈ result.updates, update.orderId ≠ orderId)
    (hfills : ∀ fill ∈ result.fills, fill.orderId ≠ orderId) : Silent engine after result orderId := by
  refine ⟨horder, ?_, ?_⟩
  · rw [ExecutionResult.reported, List.filter_eq_nil_iff.2, List.map_nil]
    intro update hupdate hsame
    exact hupdates update hupdate (decide_eq_true_iff.1 hsame).1
  · rw [ExecutionResult.filledFor, List.filter_eq_nil_iff.2, List.map_nil, List.sum_nil]
    intro fill hfill hsame
    exact hfills fill hfill (decide_eq_true_iff.1 hsame)

private theorem isRejection_notFound (orderId : String) : (notFound orderId).IsRejection :=
  ⟨rfl, _, rfl, rfl⟩

theorem isRejection_submit (h : ¬ request.Simulable) : (engine.submit request).2.IsRejection := by
  obtain ⟨reason, heq⟩ := engine.submit_rejected h
  rw [heq]
  exact ⟨rfl, _, rfl, rfl⟩

/-- A request is accepted exactly if the simulator can handle it. -/
private theorem accepted_iff : (engine.submit request).2.Accepted ↔ request.Simulable := by
  constructor
  · intro h
    by_contra hnot
    have hrejection : (engine.submit request).2.IsRejection := isRejection_submit hnot
    obtain ⟨-, update, hupdates, hstatus⟩ := hrejection
    exact h update (hupdates ▸ List.mem_singleton_self update) hstatus
  · intro h
    by_cases hopens : engine.OpensPartly request
    · rw [engine.submit_partly h hopens]
      simp [ExecutionResult.Accepted, submitUpdate, makeUpdate]
    · rw [engine.submit_filled h hopens]
      simp [ExecutionResult.Accepted, submitUpdate, makeUpdate]

private theorem nextOrderId_submit (engine : SimulatedExecutionEngine) (request : OrderRequest) :
    (engine.submit request).1.nextOrderId = engine.nextOrderId + 1 := by
  by_cases h : request.Simulable
  · by_cases hopens : engine.OpensPartly request
    · rw [engine.submit_partly h hopens]
      rfl
    · rw [engine.submit_filled h hopens]
      rfl
  · obtain ⟨reason, heq⟩ := engine.submit_rejected h
    rw [heq]
    rfl

private theorem orderId_submit (engine : SimulatedExecutionEngine) (request : OrderRequest) :
    (engine.submit request).2.orderId = engine.issuedId := by
  by_cases h : request.Simulable
  · by_cases hopens : engine.OpensPartly request
    · rw [engine.submit_partly h hopens]
    · rw [engine.submit_filled h hopens]
  · obtain ⟨reason, heq⟩ := engine.submit_rejected h
    rw [heq]

/-- A call that does not issue the order's id and does not close it says nothing about it. -/
private theorem silent_step {call : SimulatedCall}
    (hissued : ∀ request, call = .submit request → orderId ≠ engine.issuedId) (hcloses : ¬ call.Closes orderId) :
    Silent engine (machine.step engine call).1 (machine.step engine call).2 orderId := by
  cases call with
  | submit request =>
    replace hissued := hissued request rfl
    change Silent engine (engine.submit request).1 (engine.submit request).2 orderId
    by_cases h : request.Simulable
    · by_cases hopens : engine.OpensPartly request
      · rw [engine.submit_partly h hopens]
        refine silent_of_other ?_ ?_ ?_
        · rw [Std.ExtTreeMap.getElem?_insertIfNew, if_neg]
          rintro ⟨hsame, -⟩
          exact hissued (Std.compare_eq_iff_eq.1 hsame).symm
        · simp [submitUpdate, makeUpdate, hissued.symm]
        · simp [submitFill, hissued.symm]
      · rw [engine.submit_filled h hopens]
        refine silent_of_other rfl ?_ ?_
        · simp [submitUpdate, makeUpdate, hissued.symm]
        · simp [submitFill, hissued.symm]
    · refine silent_of_rejection ?_ (isRejection_submit h) orderId
      obtain ⟨reason, heq⟩ := engine.submit_rejected h
      rw [heq]
      rfl
  | completeOpenOrder other =>
    have hne : other ≠ orderId := fun hsame => hcloses (.inl (hsame ▸ rfl))
    change Silent engine (engine.completeOpenOrder other).1 (engine.completeOpenOrder other).2 orderId
    cases hopen : engine.openOrders[other]? with
    | none =>
      rw [completeOpenOrder_notFound hopen]
      exact silent_of_rejection rfl (isRejection_notFound other) orderId
    | some order =>
      rw [completeOpenOrder_open hopen]
      refine silent_of_other ?_ ?_ ?_
      · rw [getElem?_erase, if_neg hne]
      · simp [makeUpdate, hne]
      · simp [hne]
  | cancelOpenOrder other =>
    have hne : other ≠ orderId := fun hsame => hcloses (.inr (hsame ▸ rfl))
    change Silent engine (engine.cancelOpenOrder other).1 (engine.cancelOpenOrder other).2 orderId
    cases hopen : engine.openOrders[other]? with
    | none =>
      rw [cancelOpenOrder_notFound hopen]
      exact silent_of_rejection rfl (isRejection_notFound other) orderId
    | some order =>
      rw [cancelOpenOrder_open hopen]
      refine silent_of_other ?_ ?_ ?_
      · rw [getElem?_erase, if_neg hne]
      · simp [makeUpdate, hne]
      · simp

theorem nextOrderId_le_step (engine : SimulatedExecutionEngine) (call : SimulatedCall) :
    engine.nextOrderId ≤ (machine.step engine call).1.nextOrderId := by
  cases call with
  | submit request => exact (Nat.le_succ _).trans (nextOrderId_submit engine request).ge
  | completeOpenOrder orderId =>
    change _ ≤ (engine.completeOpenOrder orderId).1.nextOrderId
    cases hopen : engine.openOrders[orderId]? with
    | none => rw [completeOpenOrder_notFound hopen]
    | some order => rw [completeOpenOrder_open hopen]
  | cancelOpenOrder orderId =>
    change _ ≤ (engine.cancelOpenOrder orderId).1.nextOrderId
    cases hopen : engine.openOrders[orderId]? with
    | none => rw [cancelOpenOrder_notFound hopen]
    | some order => rw [cancelOpenOrder_open hopen]

/-- An order that is not open cannot be closed. -/
theorem isRejection_of_closes {call : SimulatedCall} (hcall : call.Closes orderId)
    (hopen : engine.openOrders[orderId]? = none) :
    (machine.step engine call).1 = engine ∧ (machine.step engine call).2.IsRejection := by
  rcases hcall with rfl | rfl
  · change (engine.completeOpenOrder orderId).1 = engine ∧ (engine.completeOpenOrder orderId).2.IsRejection
    rw [completeOpenOrder_notFound hopen]
    exact ⟨rfl, isRejection_notFound orderId⟩
  · change (engine.cancelOpenOrder orderId).1 = engine ∧ (engine.cancelOpenOrder orderId).2.IsRejection
    rw [cancelOpenOrder_notFound hopen]
    exact ⟨rfl, isRejection_notFound orderId⟩

/-! ### One order -/

theorem Follows.skip (h : Follows engine orderId request part results) {after : SimulatedExecutionEngine}
    {result : ExecutionResult} (hle : engine.nextOrderId ≤ after.nextOrderId)
    (hsilent : Silent engine after result orderId) : Follows after orderId request part (results ++ [result]) := by
  obtain ⟨number, hlt, hid⟩ := h.issued
  refine ⟨⟨number, hlt.trans_le hle, hid⟩, fun order horder => h.order order (hsilent.order ▸ horder), ?_⟩
  rw [hsilent.order, reported_concat, filledFor_concat, hsilent.reported, hsilent.filled, List.append_nil, add_zero]
  exact h.lifecycle

private theorem reported_of_open (h : Lifecycle request.quantity part true (reported orderId results)
    (filledFor orderId results)) :
    reported orderId results = [(.acknowledged, 0), (.partiallyFilled, part)] ∧ filledFor orderId results = part := by
  generalize reported orderId results = statuses at h ⊢
  generalize filledFor orderId results = quantity at h ⊢
  cases h
  exact ⟨rfl, rfl⟩

/-- Every call leaves the order in one of the histories. -/
theorem Follows.step (h : Follows engine orderId request part results) (call : SimulatedCall) :
    Follows (machine.step engine call).1 orderId request part (results ++ [(machine.step engine call).2]) := by
  have hle := nextOrderId_le_step engine call
  by_cases hcloses : call.Closes orderId
  · cases hopen : engine.openOrders[orderId]? with
    | none =>
      obtain ⟨hsame, hrejection⟩ := isRejection_of_closes hcloses hopen
      exact h.skip hle (silent_of_rejection (by rw [hsame]) hrejection orderId)
    | some order =>
      obtain ⟨number, hlt, hid⟩ := h.issued
      obtain ⟨rfl, rfl⟩ := h.order order hopen
      have hlifecycle := h.lifecycle
      rw [hopen] at hlifecycle
      obtain ⟨hreported, hfilled⟩ := reported_of_open hlifecycle
      rcases hcloses with rfl | rfl
      · change Follows (engine.completeOpenOrder orderId).1 orderId order.request order.filledQuantity
          (results ++ [(engine.completeOpenOrder orderId).2])
        rw [completeOpenOrder_open hopen]
        have herased : (engine.openOrders.erase orderId)[orderId]? = none := by rw [getElem?_erase, if_pos rfl]
        refine ⟨⟨number, hlt, hid⟩, fun other hother => (by cases herased.symm.trans hother), ?_⟩
        rw [herased, reported_concat, filledFor_concat, hreported, hfilled]
        have hlast : Lifecycle order.request.quantity order.filledQuantity false _ _ := .completed
        simpa [ExecutionResult.reported, ExecutionResult.filledFor, makeUpdate] using hlast
      · change Follows (engine.cancelOpenOrder orderId).1 orderId order.request order.filledQuantity
          (results ++ [(engine.cancelOpenOrder orderId).2])
        rw [cancelOpenOrder_open hopen]
        have herased : (engine.openOrders.erase orderId)[orderId]? = none := by rw [getElem?_erase, if_pos rfl]
        refine ⟨⟨number, hlt, hid⟩, fun other hother => (by cases herased.symm.trans hother), ?_⟩
        rw [herased, reported_concat, filledFor_concat, hreported, hfilled]
        have hlast : Lifecycle order.request.quantity order.filledQuantity false _ _ := .canceled
        simpa [ExecutionResult.reported, ExecutionResult.filledFor, makeUpdate] using hlast
  · refine h.skip hle (silent_step ?_ hcloses)
    rintro _ - rfl
    obtain ⟨number, hlt, hid⟩ := h.issued
    exact absurd (simOrderId_injective hid) hlt.ne'

theorem Unissued.step (h : Unissued engine results) (call : SimulatedCall) :
    Unissued (machine.step engine call).1 (results ++ [(machine.step engine call).2]) := by
  have hle := nextOrderId_le_step engine call
  -- a number that is still free after the call is not the one that the call issues
  have hquiet : ∀ number, (machine.step engine call).1.nextOrderId ≤ number →
      Silent engine (machine.step engine call).1 (machine.step engine call).2 (simOrderId number) := by
    intro number hnumber
    by_cases hcloses : call.Closes (simOrderId number)
    · obtain ⟨hsame, hrejection⟩ := isRejection_of_closes hcloses (h.order number (hle.trans hnumber))
      exact silent_of_rejection (by rw [hsame]) hrejection _
    · refine silent_step ?_ hcloses
      rintro request rfl hid
      have hnext : (engine.submit request).1.nextOrderId ≤ number := hnumber
      rw [nextOrderId_submit, simOrderId_injective hid] at hnext
      exact Nat.not_succ_le_self _ hnext
  refine ⟨fun number hnumber => ?_, fun number hnumber => ?_, fun number hnumber => ?_⟩
  · rw [(hquiet number hnumber).order]
    exact h.order number (hle.trans hnumber)
  · rw [reported_concat, h.reported number (hle.trans hnumber), (hquiet number hnumber).reported]
    rfl
  · rw [filledFor_concat, h.filled number (hle.trans hnumber), (hquiet number hnumber).filled, add_zero]

/-- An accepted order starts one of the histories. -/
private theorem Unissued.follows (h : Unissued engine results) (hsimulable : request.Simulable) :
    Follows (engine.submit request).1 engine.issuedId request (engine.partialFillQuantity request)
      (results ++ [(engine.submit request).2]) := by
  have hreported : Wall.reported engine.issuedId results = [] := h.reported engine.nextOrderId le_rfl
  have hfilled : filledFor engine.issuedId results = 0 := h.filled engine.nextOrderId le_rfl
  have hnone : engine.openOrders[engine.issuedId]? = none := h.order engine.nextOrderId le_rfl
  have hissued : ∃ number < (engine.submit request).1.nextOrderId, engine.issuedId = simOrderId number := by
    rw [nextOrderId_submit]
    exact ⟨engine.nextOrderId, Nat.lt_succ_self _, rfl⟩
  by_cases hopens : engine.OpensPartly request
  · rw [engine.submit_partly hsimulable hopens] at hissued ⊢
    have hopen : (engine.openOrders.insertIfNew engine.issuedId (engine.openedOrder request))[engine.issuedId]? =
        some (engine.openedOrder request) := by
      rw [Std.ExtTreeMap.getElem?_insertIfNew, if_pos]
      refine ⟨Std.ReflCmp.compare_self, fun hmem => ?_⟩
      rw [Std.ExtTreeMap.mem_iff_isSome_getElem?, hnone] at hmem
      cases hmem
    refine ⟨hissued, fun order horder => ?_, ?_⟩
    · cases hopen.symm.trans horder
      exact ⟨rfl, rfl⟩
    · rw [hopen, reported_concat, filledFor_concat, hreported, hfilled]
      have hfirst : Lifecycle request.quantity (engine.partialFillQuantity request) true _ _ := .opened
      simpa [ExecutionResult.reported, ExecutionResult.filledFor, submitUpdate, submitFill, makeUpdate] using hfirst
  · rw [engine.submit_filled hsimulable hopens] at hissued ⊢
    refine ⟨hissued, fun order horder => (by cases hnone.symm.trans horder), ?_⟩
    have hclosed : engine.numbered.openOrders[engine.issuedId]? = none := hnone
    rw [reported_concat, filledFor_concat, hreported, hfilled, hclosed]
    have hfirst : Lifecycle request.quantity (engine.partialFillQuantity request) false _ _ := .filled
    simpa [ExecutionResult.reported, ExecutionResult.filledFor, submitUpdate, submitFill, makeUpdate] using hfirst

/-! ### Runs -/

/-- An engine before its first call. -/
def fresh (config : SimulatedExecutionConfig) : SimulatedExecutionEngine where
  config := config

private theorem unissued_run (config : SimulatedExecutionConfig) (calls : List SimulatedCall) :
    Unissued (machine.run (fresh config) calls) (machine.outputs (fresh config) calls) := by
  have hadmissible : machine.Admissible (fun _ _ => True) (fresh config) calls :=
    Machine.admissible_of_forall (fun _ _ _ => trivial) _
  exact Machine.invariant_history (P := fun _ engine results => Unissued engine results)
    (fun _ _ _ call _ h => h.step call) hadmissible
    { order := fun _ _ => by simp [fresh], reported := fun _ _ => rfl, filled := fun _ _ => rfl }

theorem follows_run (config : SimulatedExecutionConfig) (before : List SimulatedCall) {request : OrderRequest}
    (h : request.Simulable) (after : List SimulatedCall) :
    Follows (machine.run (fresh config) (before ++ .submit request :: after))
      (machine.run (fresh config) before).issuedId request
      ((machine.run (fresh config) before).partialFillQuantity request)
      (machine.outputs (fresh config) (before ++ .submit request :: after)) := by
  induction after using List.reverseRecOn with
  | nil =>
    rw [Machine.run_append, Machine.outputs_append]
    exact (unissued_run config before).follows h
  | append_singleton after call ih =>
    rw [← List.cons_append, ← List.append_assoc, Machine.run_append, Machine.outputs_append]
    exact ih.step call

theorem config_step (engine : SimulatedExecutionEngine) (call : SimulatedCall) :
    (machine.step engine call).1.config = engine.config := by
  cases call with
  | submit request =>
    change (engine.submit request).1.config = engine.config
    by_cases h : request.Simulable
    · by_cases hopens : engine.OpensPartly request
      · rw [engine.submit_partly h hopens]
        rfl
      · rw [engine.submit_filled h hopens]
        rfl
    · obtain ⟨reason, heq⟩ := engine.submit_rejected h
      rw [heq]
      rfl
  | completeOpenOrder orderId =>
    change (engine.completeOpenOrder orderId).1.config = engine.config
    cases hopen : engine.openOrders[orderId]? with
    | none => rw [completeOpenOrder_notFound hopen]
    | some order => rw [completeOpenOrder_open hopen]
  | cancelOpenOrder orderId =>
    change (engine.cancelOpenOrder orderId).1.config = engine.config
    cases hopen : engine.openOrders[orderId]? with
    | none => rw [cancelOpenOrder_notFound hopen]
    | some order => rw [cancelOpenOrder_open hopen]

private theorem clampPartialFillRatio_le_one (config : SimulatedExecutionConfig) :
    config.clampPartialFillRatio ≤ 1 := by
  unfold SimulatedExecutionConfig.clampPartialFillRatio
  split
  · exact zero_le_one
  · split
    · exact le_rfl
    · rename_i h
      exact not_lt.1 h

/-- The part filled at the submission is at most the whole. -/
private theorem partialFillQuantity_le (engine : SimulatedExecutionEngine) (h : 0 < request.quantity) :
    engine.partialFillQuantity request ≤ request.quantity :=
  mul_le_of_le_one_right h.le (clampPartialFillRatio_le_one engine.config)

theorem Lifecycle.last {quantity part filled : ℚ} {isOpen : Bool} {statuses : List (OrderStatus × ℚ)}
    (h : Lifecycle quantity part isOpen statuses filled) (hpart : part ≤ quantity) :
    ∃ status, statuses.getLast? = some (status, filled) ∧ filled ≤ quantity ∧
      (status = .filled → filled = quantity) := by
  cases h with
  | opened => exact ⟨_, rfl, hpart, nofun⟩
  | filled => exact ⟨_, rfl, le_rfl, fun _ => rfl⟩
  | completed => exact ⟨_, rfl, le_rfl, fun _ => rfl⟩
  | canceled => exact ⟨_, rfl, hpart, nofun⟩

/-- An order reported as filled or canceled is not open. -/
theorem Lifecycle.closed {quantity part filled : ℚ} {isOpen : Bool} {statuses : List (OrderStatus × ℚ)}
    (h : Lifecycle quantity part isOpen statuses filled)
    (hfinal : ∃ entry ∈ statuses, entry.1 = .filled ∨ entry.1 = .canceled) : isOpen = false := by
  cases h with
  | opened => simp at hfinal
  | filled | completed | canceled => rfl

/-- In any run the fills of an accepted order add up to the quantity reported last and never exceed its quantity, they
equal it when that report is `filled`, and once the order is reported as filled or canceled a call that completes or
cancels it is rejected. -/
theorem fills_conserved (config : SimulatedExecutionConfig) (before : List SimulatedCall) (request : OrderRequest)
    (after : List SimulatedCall)
    (h : (machine.step (machine.run (fresh config) before) (.submit request)).2.Accepted) :
    let orderId := (machine.step (machine.run (fresh config) before) (.submit request)).2.orderId
    (∃ status, (reported orderId (machine.outputs (fresh config) (before ++ .submit request :: after))).getLast? =
        some (status, filledFor orderId (machine.outputs (fresh config) (before ++ .submit request :: after))) ∧
      filledFor orderId (machine.outputs (fresh config) (before ++ .submit request :: after)) ≤ request.quantity ∧
      (status = .filled →
        filledFor orderId (machine.outputs (fresh config) (before ++ .submit request :: after)) =
          request.quantity)) ∧
    ∀ between call rest, after = between ++ call :: rest → call.Closes orderId →
      (∃ entry ∈ reported orderId (machine.outputs (fresh config) (before ++ .submit request :: between)),
        entry.1 = .filled ∨ entry.1 = .canceled) →
      (machine.step (machine.run (fresh config) (before ++ .submit request :: between)) call).2.IsRejection := by
  have hsimulable : request.Simulable := accepted_iff.1 h
  have hid : (machine.step (machine.run (fresh config) before) (.submit request)).2.orderId =
      (machine.run (fresh config) before).issuedId := orderId_submit _ request
  rw [hid]
  refine ⟨(follows_run config before hsimulable after).lifecycle.last (partialFillQuantity_le _ hsimulable.2.2), ?_⟩
  rintro between call rest - hcloses hfinal
  have hclosed := (follows_run config before hsimulable between).lifecycle.closed hfinal
  exact (isRejection_of_closes hcloses (Option.isSome_eq_false_iff.1 hclosed |> Option.isNone_iff_eq_none.1)).2

/-- An order filled in part, completed, and then canceled too late. -/
theorem fills_conserved_exampleRun :
    let config : SimulatedExecutionConfig := { partialFillThreshold := 1 / 2, partialFillRatio := 2 / 5 }
    let request : OrderRequest := { quantity := 1, price := some 42000 }
    (machine.step (machine.run (fresh config) []) (.submit request)).2.Accepted ∧
    (machine.step (machine.run (fresh config) ([] ++ .submit request :: [.completeOpenOrder "sim-order-1"]))
      (.cancelOpenOrder "sim-order-1")).2.IsRejection := by
  intro config request
  have haccepted : (machine.step (machine.run (fresh config) []) (.submit request)).2.Accepted := by decide +kernel
  refine ⟨haccepted, ?_⟩
  exact (fills_conserved config [] request [.completeOpenOrder "sim-order-1", .cancelOpenOrder "sim-order-1"]
    haccepted).2 [.completeOpenOrder "sim-order-1"] (.cancelOpenOrder "sim-order-1") [] rfl
    (.inr (congrArg SimulatedCall.cancelOpenOrder (by decide +kernel)))
    ⟨(.filled, 1), by decide +kernel, .inl rfl⟩

end SimulatedExecutionEngine

end Wall
