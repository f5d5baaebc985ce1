import Wall.Redelivery

/-!
# No second fill after a restart

A restart keeps an order's record and loses the ids of the reports that made it.  A report that was not dropped as a
duplicate left the filled quantity at no less than its own, so the restored tracker finds no new quantity in it.  A
report that was dropped as a duplicate was never read, and the restored tracker does read it
(`duplicate_fills_after_restart`).
-/

namespace Wall

open KeyedMap

namespace LiveExecutionTracker

/-- The tracker that a restart builds for one record. -/
def restarted (record : OrderRecord) : LiveExecutionTracker := ({} : LiveExecutionTracker).restoreOrder record

/-- The report is delivered by one of the calls, and that delivery is not dropped as a duplicate. -/
def ReadBy (tracker : LiveExecutionTracker) (calls : List TrackerCall) (report : ExecutionReport) : Prop :=
  ∃ before after, calls = before ++ .applyReport report :: after ∧ ¬ (machine.run tracker before).IsDuplicate report

/-! ### The record of an order -/

private theorem advance_orderId (tracker : LiveExecutionTracker) (state : LocalOrderState) (report : ExecutionReport) :
    ∃ state', (tracker.advance state report).1.orders = tracker.orders.insert report.orderId state' ∧
      state'.orderId = state.orderId := by
  by_cases h : max report.cumulativeFilledQuantity state.filledQuantity - state.filledQuantity > 0
  · simp only [advance, h, decide_true, Bool.or_true, ↓reduceIte]
    exact ⟨_, rfl, rfl⟩
  · simp only [advance, h, decide_false, Bool.or_false, Bool.false_and, Bool.false_eq_true, ↓reduceIte]
    split
    · exact ⟨_, rfl, rfl⟩
    · refine ⟨_, rfl, ?_⟩
      split <;> rfl

/-- Every order is kept under its own id. -/
def KeyedById (tracker : LiveExecutionTracker) : Prop :=
  ∀ (id : String) (state : LocalOrderState), tracker.orders[id]? = some state → state.orderId = id

theorem KeyedById.insert {tracker : LiveExecutionTracker} (h : tracker.KeyedById) {state : LocalOrderState}
    {id : String} (hid : state.orderId = id) :
    ∀ (id' : String) (state' : LocalOrderState),
      (tracker.orders.insert id state)[id']? = some state' → state'.orderId = id' := by
  intro id' state' hstate'
  rw [getElem?_insert] at hstate'
  split at hstate'
  · rename_i heq
    cases hstate'
    exact hid.trans heq
  · exact h id' state' hstate'

theorem KeyedById.applyReport {tracker : LiveExecutionTracker} (h : tracker.KeyedById) (report : ExecutionReport) :
    (tracker.applyReport report).1.KeyedById := by
  by_cases hd : tracker.IsDuplicate report
  · rw [applyReport_of_duplicate hd]
    exact h
  · have hremember : (tracker.remember report).KeyedById := by
      unfold KeyedById
      rw [remember_orders]
      exact h
    rw [applyReport_of_not_duplicate hd]
    cases hstate : tracker.orders[report.orderId]? with
    | none => exact hremember
    | some state =>
      dsimp only
      split
      · exact hremember
      · obtain ⟨state', horders, hid⟩ := advance_orderId (tracker.remember report) state report
        unfold KeyedById
        rw [horders]
        exact hremember.insert (hid.trans (h _ _ hstate))

private theorem keyedById_run (calls : List TrackerCall) : (machine.run {} calls).KeyedById := by
  have hok : machine.Admissible (fun _ _ => True) {} calls := Machine.admissible_of_forall (fun _ _ _ => trivial) _
  refine Machine.invariant (P := KeyedById) ?_ hok fun id state hstate => by simp at hstate
  intro tracker call _ h
  cases call with
  | registerOrder request orderId clientOrderId => exact h.insert rfl
  | restoreOrder order => exact h.insert rfl
  | applyReport report => exact h.applyReport report

/-! ### Reports that bring nothing new -/

/-- A report that is not above the order's filled quantity emits no fill. -/
private theorem applyReport_fills_nil {tracker : LiveExecutionTracker} {report : ExecutionReport}
    (h : ∀ state, tracker.orders[report.orderId]? = some state →
      report.cumulativeFilledQuantity ≤ state.filledQuantity) : (tracker.applyReport report).2.fills = [] := by
  by_cases hd : tracker.IsDuplicate report
  · rw [applyReport_of_duplicate hd]
  · rw [applyReport_of_not_duplicate hd]
    cases hstate : tracker.orders[report.orderId]? with
    | none => rfl
    | some state =>
      dsimp only
      split
      · rfl
      · have hmax := max_eq_right (h state hstate)
        unfold advance
        simp only [hmax, sub_self, gt_iff_lt, lt_irrefl, decide_false, Bool.false_eq_true, if_false]
        split <;> rfl

/-- The tracker knows the order with this filled quantity, and no other order. -/
def KnowsOnly (tracker : LiveExecutionTracker) (id : String) (filledQuantity : ℚ) : Prop :=
  (∃ state, tracker.orders[id]? = some state ∧ state.filledQuantity = filledQuantity) ∧
    ∀ id', id' ≠ id → tracker.orders[id']? = none

private theorem knowsOnly_restarted (record : OrderRecord) :
    (restarted record).KnowsOnly record.orderId record.filledQuantity := by
  refine ⟨⟨_, (getElem?_insert ..).trans (if_pos rfl), rfl⟩, fun id' hne => ?_⟩
  exact (getElem?_insert ..).trans ((if_neg hne.symm).trans (by simp))

private theorem KnowsOnly.fills_nil {tracker : LiveExecutionTracker} {id : String} {filledQuantity : ℚ}
    (h : tracker.KnowsOnly id filledQuantity) {report : ExecutionReport}
    (hreport : report.orderId = id → report.cumulativeFilledQuantity ≤ filledQuantity) :
    (tracker.applyReport report).2.fills = [] := by
  refine applyReport_fills_nil fun state hstate => ?_
  obtain ⟨⟨state', hstate', hfilled⟩, hothers⟩ := h
  have hid : report.orderId = id := by
    by_contra hne
    rw [hothers _ hne] at hstate
    cases hstate
  rw [hid, hstate', Option.some.injEq] at hstate
  subst hstate
  exact (hreport hid).trans_eq hfilled.symm

theorem KnowsOnly.applyReport {tracker : LiveExecutionTracker} {id : String} {filledQuantity : ℚ}
    (h : tracker.KnowsOnly id filledQuantity) {report : ExecutionReport}
    (hreport : report.orderId = id → report.cumulativeFilledQuantity ≤ filledQuantity) :
    (tracker.applyReport report).1.KnowsOnly id filledQuantity := by
  by_cases hd : tracker.IsDuplicate report
  · rw [applyReport_of_duplicate hd]
    exact h
  · obtain ⟨⟨state, hstate, rfl⟩, hothers⟩ := h
    obtain ⟨state', hstate', hfilled, -⟩ := (applyReport_spec hd).known hstate
    refine ⟨⟨state', hstate', ?_⟩, fun id' hne => ((applyReport_spec hd).unknown (hothers id' hne)).1⟩
    rw [hfilled]
    split
    · rename_i hid
      exact max_eq_right (hreport hid)
    · rfl

theorem KnowsOnly.getOrder {tracker : LiveExecutionTracker} {id : String} {filledQuantity : ℚ}
    (h : tracker.KnowsOnly id filledQuantity) :
    (tracker.getOrder id).map OrderRecord.filledQuantity = some filledQuantity := by
  obtain ⟨⟨state, hstate, hfilled⟩, -⟩ := h
  rw [LiveExecutionTracker.getOrder, hstate]
  exact congrArg some hfilled

/-- A restored order stays as it is under reports that are not above it. -/
private theorem reconcile_restarted {record : OrderRecord} {again : List ExecutionReport}
    (h : ∀ report ∈ again, report.orderId = record.orderId →
      report.cumulativeFilledQuantity ≤ record.filledQuantity) :
    (∀ result ∈ ((restarted record).reconcile again).2, result.fills = []) ∧
      (((restarted record).reconcile again).1.getOrder record.orderId).map OrderRecord.filledQuantity =
        some record.filledQuantity := by
  have hok : reportMachine.Admissible (fun _ report => report.orderId = record.orderId →
      report.cumulativeFilledQuantity ≤ record.filledQuantity) (restarted record) again :=
    Machine.admissible_of_forall (fun report hreport _ => h report hreport) _
  have hstep : ∀ (tracker : LiveExecutionTracker) (report : ExecutionReport),
      (report.orderId = record.orderId → report.cumulativeFilledQuantity ≤ record.filledQuantity) →
      tracker.KnowsOnly record.orderId record.filledQuantity →
      (tracker.applyReport report).1.KnowsOnly record.orderId record.filledQuantity :=
    fun _ _ hreport hknows => hknows.applyReport hreport
  rw [reconcile_eq]
  exact ⟨Machine.forall_outputs hstep (fun _ _ hreport hknows => hknows.fills_nil hreport) hok
    (knowsOnly_restarted record), (Machine.invariant hstep hok (knowsOnly_restarted record)).getOrder⟩

/-! ### The restart -/

/-- A report that was read is within the order's filled quantity. -/
private theorem le_of_readBy {pre post : List TrackerCall} {call : TrackerCall} {id : String} {filledQuantity : ℚ}
    (hcall : call.makesKnown id = some filledQuantity) (hpost : ∀ c ∈ post, c.makesKnown id = none)
    {state : LocalOrderState} (hstate : (machine.run {} (pre ++ call :: post)).orders[id]? = some state)
    {report : ExecutionReport} (hread : (machine.run {} (pre ++ [call])).ReadBy post report)
    (hid : report.orderId = id) : report.cumulativeFilledQuantity ≤ state.filledQuantity := by
  obtain ⟨-, state', hstate', hreached⟩ := tracked_of_known hcall hpost
  obtain rfl : state = state' := Option.some.inj (hstate.symm.trans hstate')
  obtain ⟨before, after, rfl, hnew⟩ := hread
  rw [← Machine.run_append, (run_remembers _).isDuplicate_iff, not_not] at hnew
  refine (hreached _).2 (.inr ⟨before, report, after, rfl, hid, le_rfl, ?_⟩)
  -- the call that made the order known delivers no report
  have hreports : reportsOf (pre ++ [call] ++ before) = reportsOf (pre ++ before) := by
    cases call with
    | registerOrder => simp [reportsOf]
    | restoreOrder => simp [reportsOf]
    | applyReport => cases hcall
  rwa [hreports] at hnew

/-- An order is registered, reports are delivered, and a fresh tracker restores the order's record.  Whatever reports
it is then given, in any order and any number of times, of those delivered after the registration and not dropped as
duplicates: no fill is emitted, and the order's filled quantity stays. -/
theorem no_fill_after_restart (pre post : List TrackerCall) (request : OrderRequest) (id clientOrderId : String)
    (hpost : ∀ c ∈ post, c.makesKnown id = none) :
    ∃ record, (machine.run {} (pre ++ .registerOrder request id clientOrderId :: post)).getOrder id = some record ∧
      ∀ again : List ExecutionReport,
        (∀ report ∈ again,
          (machine.run {} (pre ++ [.registerOrder request id clientOrderId])).ReadBy post report) →
        (∀ result ∈ ((restarted record).reconcile again).2, result.fills = []) ∧
          (((restarted record).reconcile again).1.getOrder id).map OrderRecord.filledQuantity =
            some record.filledQuantity := by
  have hcall : (TrackerCall.registerOrder request id clientOrderId).makesKnown id = some 0 := if_pos rfl
  obtain ⟨-, state, hstate, -⟩ := @tracked_of_known id 0 pre post _ hcall hpost
  have hid : (recordOf state).orderId = id := keyedById_run _ id state hstate
  refine ⟨recordOf state, by rw [getOrder, hstate, Option.map_some], fun again hagain => ?_⟩
  have h := @reconcile_restarted (recordOf state) again fun report hreport horderId =>
    le_of_readBy hcall hpost hstate (hagain report hreport) (horderId.trans hid)
  rwa [hid] at h

/-- Two reports under one id, the second with a larger cumulative quantity. -/
def exampleFirst : ExecutionReport :=
  { reportId := "r1", orderId := "o", status := .partiallyFilled, cumulativeFilledQuantity := 1 }

def exampleSecond : ExecutionReport := { exampleFirst with cumulativeFilledQuantity := 5 }

theorem no_fill_after_restart_exampleFirst :
    let calls : List TrackerCall := [.registerOrder {} "o" "c", .applyReport exampleFirst]
    ∃ record, (machine.run {} calls).getOrder "o" = some record ∧
      ∀ result ∈ ((restarted record).reconcile [exampleFirst, exampleFirst]).2, result.fills = [] := by
  intro calls
  obtain ⟨record, hrecord, h⟩ := no_fill_after_restart [] [.applyReport exampleFirst] {} "o" "c" (by decide)
  refine ⟨record, hrecord, (h [exampleFirst, exampleFirst] fun report hreport => ?_).1⟩
  have hfirst : report = exampleFirst := by simpa using hreport
  rw [hfirst]
  exact ⟨[], [], rfl, by decide +kernel⟩

/-- The second report is dropped as a duplicate of the first; after a restart it is read and fills the order. -/
theorem duplicate_fills_after_restart :
    let calls : List TrackerCall :=
      [.registerOrder {} "o" "c", .applyReport exampleFirst, .applyReport exampleSecond]
    ∃ record, (machine.run {} calls).getOrder "o" = some record ∧
      (∃ result ∈ ((restarted record).reconcile [exampleSecond]).2, result.fills ≠ []) ∧
      (((restarted record).reconcile [exampleSecond]).1.getOrder "o").map OrderRecord.filledQuantity ≠
        some record.filledQuantity := by
  intro calls
  let record : OrderRecord :=
    { orderId := "o", clientOrderId := "c", status := .partiallyFilled, filledQuantity := 1 }
  refine ⟨record, by decide +kernel, ?_, by decide +kernel⟩
  have hfills : ((restarted record).reconcile [exampleSecond]).2.map (fun result => result.fills.length) = [1] := by
    decide +kernel
  rw [List.map_eq_singleton_iff] at hfills
  obtain ⟨result, hresults, hlength⟩ := hfills
  exact ⟨result, hresults ▸ List.mem_singleton_self _, List.ne_nil_of_length_pos (hlength ▸ Nat.one_pos)⟩

end LiveExecutionTracker

end Wall
