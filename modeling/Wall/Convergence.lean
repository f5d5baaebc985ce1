import Wall.TerminalOrders

/-!
# Convergence to the last report

An exchange reports the history of an order and closes it with a last report (`ExchangeHistory`).  Whatever order and
repetition the reports are delivered in, until the last one arrives the order is on the way to it, neither ahead of
it in quantity nor in time, so the last one is never stale; after it every other report is a duplicate or stale
(`Converging`).
-/

namespace Wall

/-- The statuses of a live order that a closing report may follow. -/
def OrderStatus.mayClose (status : OrderStatus) : Bool :=
  status = .pendingSubmit || status = .acknowledged || status = .partiallyFilled || status = .pendingCancel

namespace LiveExecutionTracker

/-- The reports of one order, in the exchange's order: `history`, then `last`, which closes the order. -/
structure ExchangeHistory (id : String) (history : List ExecutionReport) (last : ExecutionReport) : Prop where
  names : ∀ r ∈ history ++ [last], r.orderId = id
  has_id : ∀ r ∈ history ++ [last], r.reportId ≠ ""
  distinct_ids : ((history ++ [last]).map ExecutionReport.reportId).Nodup
  timestamp_pos : ∀ r ∈ history ++ [last], 0 < r.exchangeTimestamp
  timestamps : ((history ++ [last]).map ExecutionReport.exchangeTimestamp).Pairwise (· ≤ ·)
  quantity_nonneg : ∀ r ∈ history ++ [last], 0 ≤ r.cumulativeFilledQuantity
  quantities : ((history ++ [last]).map ExecutionReport.cumulativeFilledQuantity).Pairwise (· ≤ ·)
  open_before : ∀ r ∈ history, r.status = .acknowledged ∨ r.status = .partiallyFilled ∨ r.status = .pendingCancel
  closes : last.status = .filled ∨ last.status = .canceled

namespace ExchangeHistory

variable {id : String} {history : List ExecutionReport} {last : ExecutionReport}
  (h : ExchangeHistory id history last)
include h

private theorem eq_of_reportId_eq {r r' : ExecutionReport} (hr : r ∈ history ++ [last]) (hr' : r' ∈ history ++ [last])
    (hid : r.reportId = r'.reportId) : r = r' :=
  List.inj_on_of_nodup_map h.distinct_ids hr hr' hid

/-- No report is ahead of the last one. -/
private theorem le_last {r : ExecutionReport} (hr : r ∈ history ++ [last]) :
    r.cumulativeFilledQuantity ≤ last.cumulativeFilledQuantity ∧ r.exchangeTimestamp ≤ last.exchangeTimestamp := by
  have hquantities := h.quantities
  have htimestamps := h.timestamps
  rw [List.map_append, List.pairwise_append] at hquantities htimestamps
  rcases List.mem_append.1 hr with hr | hr
  · exact ⟨hquantities.2.2 _ (List.mem_map_of_mem hr) _ (List.mem_singleton_self _),
      htimestamps.2.2 _ (List.mem_map_of_mem hr) _ (List.mem_singleton_self _)⟩
  · obtain rfl := List.mem_singleton.1 hr
    exact ⟨le_refl _, le_refl _⟩

private theorem last_terminal : last.status.isTerminal = true := by
  rcases h.closes with hs | hs <;> rw [hs] <;> rfl

private theorem open_of_ne_last {r : ExecutionReport} (hr : r ∈ history ++ [last]) (hne : r ≠ last) :
    r.status.mayClose = true := by
  rcases List.mem_append.1 hr with hr | hr
  · rcases h.open_before r hr with hs | hs | hs <;> rw [hs] <;> rfl
  · exact absurd (List.mem_singleton.1 hr) hne

private theorem shouldApplyStatus_last {current : OrderStatus} (hc : current.mayClose = true) :
    shouldApplyStatus current last.status = true := by
  rcases h.closes with hs | hs <;> rw [hs] <;> cases current <;> first | rfl | cases hc

end ExchangeHistory

private theorem not_terminal_of_mayClose {status : OrderStatus} (h : status.mayClose = true) :
    status.isTerminal = false := by
  cases status <;> first | rfl | cases h

/-- A report that is not behind the order in quantity or in time is stale only for an order that is terminal. -/
theorem not_stale_of_ahead {state : LocalOrderState} {report : ExecutionReport}
    (hq : state.filledQuantity ≤ report.cumulativeFilledQuantity)
    (ht : state.lastExchangeTimestamp ≤ report.exchangeTimestamp) (hs : state.status.isTerminal = false) :
    shouldIgnoreAsStale state report = false := by
  simp [shouldIgnoreAsStale, not_lt.2 hq, not_lt.2 ht, hs]

private theorem stale_of_terminal {state : LocalOrderState} {report : ExecutionReport}
    (hs : state.status.isTerminal = true)
    (hq : report.cumulativeFilledQuantity ≤ state.filledQuantity) (hne : report.status ≠ state.status) :
    shouldIgnoreAsStale state report = true := by
  simp [shouldIgnoreAsStale, hs, hq, hne]

/-! ### The state on the way to the last report -/

/-- The state of the order when the reports `seen` have been delivered. -/
structure OnTheWay (last : ExecutionReport) (seen : List ExecutionReport) (state : LocalOrderState) : Prop where
  timestamp_le : state.lastExchangeTimestamp ≤ last.exchangeTimestamp
  before : last ∉ seen → state.status.mayClose = true ∧ state.filledQuantity ≤ last.cumulativeFilledQuantity
  closed : last ∈ seen → state.status = last.status ∧ state.filledQuantity = last.cumulativeFilledQuantity

/-- What holds when the reports `seen` have been delivered to a tracker that had processed the ids `known`. -/
structure Converging (id : String) (known : Finset String) (last : ExecutionReport) (seen : List ExecutionReport)
    (tracker : LiveExecutionTracker) (results : List ReconciliationResult) : Prop where
  processed : ∀ x, x ∈ tracker.processedReportIds ↔ x ∈ known ∨ ∃ r ∈ seen, r.reportId = x
  state : ∃ state, tracker.orders[id]? = some state ∧ emitted id results = state.filledQuantity ∧
    OnTheWay last seen state

namespace OnTheWay

variable {seen : List ExecutionReport} {last report : ExecutionReport} {state state' : LocalOrderState}
  (hw : OnTheWay last seen state)
include hw

private theorem last_not_stale (hlast : last ∉ seen) : shouldIgnoreAsStale state last = false :=
  not_stale_of_ahead (hw.before hlast).2 hw.timestamp_le (not_terminal_of_mayClose (hw.before hlast).1)

/-- A repeated report and a stale one are not the first delivery of the last report. -/
theorem ignored (hignored : report ∈ seen ∨ shouldIgnoreAsStale state report = true) :
    OnTheWay last (seen ++ [report]) state := by
  have hseen : last ∈ seen ++ [report] → last ∈ seen := by
    intro hmem
    rcases List.mem_append.1 hmem with hmem | hmem
    · exact hmem
    · obtain rfl := List.mem_singleton.1 hmem
      by_contra hlast
      rcases hignored with hmem' | hstale
      · exact hlast hmem'
      · rw [hw.last_not_stale hlast] at hstale
        cases hstale
  exact ⟨hw.timestamp_le, fun hlast => hw.before fun hmem => hlast (List.mem_append_left _ hmem),
    fun hmem => hw.closed (hseen hmem)⟩

variable {id : String} {history : List ExecutionReport} (h : ExchangeHistory id history last)
include h

/-- Once the last report is in, a report that was not delivered before is stale. -/
private theorem stale_after_last (hr : report ∈ history ++ [last]) (hnew : report ∉ seen) (hlast : last ∈ seen) :
    shouldIgnoreAsStale state report = true := by
  obtain ⟨hstatus, hfilled⟩ := hw.closed hlast
  have hopen : report.status.mayClose = true := by
    refine h.open_of_ne_last hr ?_
    rintro rfl
    exact hnew hlast
  refine stale_of_terminal (hstatus ▸ h.last_terminal) (hfilled ▸ (h.le_last hr).1) fun heq => ?_
  have hterminal := h.last_terminal
  rw [← hstatus, ← heq, not_terminal_of_mayClose hopen] at hterminal
  cases hterminal

private theorem advanced (hr : report ∈ history ++ [last]) (hnew : report ∉ seen)
    (hfresh : shouldIgnoreAsStale state report = false) (hadvanced : Advanced state report state') :
    OnTheWay last (seen ++ [report]) state' := by
  have hlast : last ∉ seen := by
    intro hlast
    rw [hw.stale_after_last h hr hnew hlast] at hfresh
    cases hfresh
  obtain ⟨hopen, hfilled⟩ := hw.before hlast
  refine ⟨?_, fun hnot => ?_, fun hmem => ?_⟩
  · rw [hadvanced.lastExchangeTimestamp]
    exact max_le hw.timestamp_le (h.le_last hr).2
  · have hne : report ≠ last := by
      rintro rfl
      exact hnot (List.mem_append_right _ (List.mem_singleton_self _))
    rw [hadvanced.status, hadvanced.filledQuantity]
    refine ⟨?_, max_le (h.le_last hr).1 hfilled⟩
    split
    · exact h.open_of_ne_last hr hne
    · exact hopen
  · rcases List.mem_append.1 hmem with hmem | hmem
    · exact absurd hmem hlast
    · obtain rfl := List.mem_singleton.1 hmem
      rw [hadvanced.status, hadvanced.filledQuantity]
      exact ⟨if_pos (.inl (h.shouldApplyStatus_last hopen)), max_eq_left hfilled⟩

end OnTheWay

/-- The fills that a report emits for an order are the growth of its filled quantity. -/
private theorem filledBy_applyReport {tracker : LiveExecutionTracker} {report : ExecutionReport} {id : String}
    {state state' : LocalOrderState} (h : tracker.orders[id]? = some state)
    (h' : (tracker.applyReport report).1.orders[id]? = some state') :
    filledBy id (tracker.applyReport report).2.fills = state'.filledQuantity - state.filledQuantity := by
  by_cases hd : tracker.IsDuplicate report
  · rw [applyReport_of_duplicate hd] at h' ⊢
    cases h.symm.trans h'
    rw [filledBy_nil, sub_self]
  · obtain ⟨state'', hstate'', -, hfills⟩ := (applyReport_spec hd).known h
    cases h'.symm.trans hstate''
    exact hfills

theorem Converging.step {id : String} {known : Finset String} {history seen : List ExecutionReport}
    {last report : ExecutionReport} {tracker : LiveExecutionTracker} {results : List ReconciliationResult}
    (h : ExchangeHistory id history last) (hknown : ∀ r ∈ history ++ [last], r.reportId ∉ known)
    (hseen : ∀ r ∈ seen, r ∈ history ++ [last]) (hr : report ∈ history ++ [last])
    (hc : Converging id known last seen tracker results) :
    Converging id known last (seen ++ [report]) (tracker.applyReport report).1
      (results ++ [(tracker.applyReport report).2]) := by
  obtain ⟨state, hstate, hemitted, hway⟩ := hc.state
  -- the ids of the history are distinct, so a report is a duplicate exactly if it was delivered before
  have hduplicate : tracker.IsDuplicate report ↔ report ∈ seen := by
    constructor
    · rintro ⟨-, hmem⟩
      rcases (hc.processed _).1 hmem with hmem | ⟨r, hmem, hid⟩
      · exact absurd hmem (hknown report hr)
      · exact h.eq_of_reportId_eq (hseen r hmem) hr hid ▸ hmem
    · exact fun hmem => ⟨h.has_id report hr, (hc.processed _).2 (.inr ⟨report, hmem, rfl⟩)⟩
  constructor
  · intro x
    by_cases hd : tracker.IsDuplicate report
    · rw [applyReport_of_duplicate hd, hc.processed]
      refine or_congr_right ⟨fun ⟨r, hmem, hid⟩ => ⟨r, List.mem_append_left _ hmem, hid⟩, fun ⟨r, hmem, hid⟩ => ?_⟩
      rcases List.mem_append.1 hmem with hmem | hmem
      · exact ⟨r, hmem, hid⟩
      · exact ⟨report, hduplicate.1 hd, List.mem_singleton.1 hmem ▸ hid⟩
    · rw [(applyReport_spec hd).processed, hc.processed, or_assoc]
      simp [h.has_id report hr, or_and_right, exists_or, eq_comm]
  · rcases applyReport_state hstate report with ⟨hstate', hignored⟩ | ⟨-, hd, hfresh, state', hstate', hadvanced⟩
    · refine ⟨state, hstate', ?_, hway.ignored ?_⟩
      · rw [emitted_concat, filledBy_applyReport hstate hstate', hemitted, sub_self, add_zero]
      · rcases hignored with hne | hd | hstale
        · exact absurd (h.names report hr) hne
        · exact .inl (hduplicate.1 hd)
        · exact .inr hstale
    · refine ⟨state', hstate', ?_, hway.advanced h hr (fun hmem => hd (hduplicate.2 hmem)) hfresh hadvanced⟩
      rw [emitted_concat, filledBy_applyReport hstate hstate', hemitted]
      ring

/-! ### Runs -/

private theorem reconcile_converging {id : String} {history : List ExecutionReport} {last : ExecutionReport}
    (h : ExchangeHistory id history last) {tracker : LiveExecutionTracker}
    (hknown : ∀ r ∈ history ++ [last], r.reportId ∉ tracker.processedReportIds) (request : OrderRequest)
    (clientOrderId : String) {seen : List ExecutionReport} (hseen : ∀ r ∈ seen, r ∈ history ++ [last]) :
    Converging id tracker.processedReportIds last seen
      ((tracker.registerOrder request id clientOrderId).reconcile seen).1
      ((tracker.registerOrder request id clientOrderId).reconcile seen).2 := by
  rw [reconcile_eq]
  have hok : reportMachine.Admissible (fun _ r => r ∈ history ++ [last])
      (tracker.registerOrder request id clientOrderId) seen :=
    Machine.admissible_of_forall (fun r hr _ => hseen r hr) _
  have hlast : 0 ≤ last.cumulativeFilledQuantity ∧ 0 < last.exchangeTimestamp :=
    ⟨h.quantity_nonneg last (by simp), h.timestamp_pos last (by simp)⟩
  refine (Machine.invariant_history (P := fun seen t results => (∀ r ∈ seen, r ∈ history ++ [last]) ∧
    Converging id tracker.processedReportIds last seen t results) ?_ hok ⟨by simp, ?_⟩).2
  · rintro seen t results report hr ⟨hseen, hc⟩
    refine ⟨fun r hmem => ?_, hc.step h hknown hseen hr⟩
    rcases List.mem_append.1 hmem with hmem | hmem
    · exact hseen r hmem
    · exact List.mem_singleton.1 hmem ▸ hr
  · have hregistered : (tracker.registerOrder request id clientOrderId).orders[id]? = some
        { request := request, orderId := id, clientOrderId := clientOrderId, status := .pendingSubmit } :=
      (KeyedMap.getElem?_insert _ _ _ _).trans (if_pos rfl)
    exact ⟨by simp [registerOrder], _, hregistered, rfl, hlast.2.le, fun _ => ⟨rfl, hlast.1⟩, by simp⟩

/-- The reports of an order's history, delivered after its registration in any order and with any repetition, leave
the order with the status and the quantity of the last one from the moment that it is delivered, and the fills
emitted for the order add up to that quantity. -/
theorem history_converges (tracker : LiveExecutionTracker) (request : OrderRequest) (id clientOrderId : String)
    (history : List ExecutionReport) (last : ExecutionReport) (h : ExchangeHistory id history last)
    (hknown : ∀ r ∈ history ++ [last], r.reportId ∉ tracker.processedReportIds) (deliveries : List ExecutionReport)
    (hdeliveries : ∀ r ∈ deliveries, r ∈ history ++ [last]) (hlast : last ∈ deliveries) :
    let registered := tracker.registerOrder request id clientOrderId
    (∃ r, (registered.reconcile deliveries).1.getOrder id = some r ∧ r.status = last.status ∧
      r.filledQuantity = last.cumulativeFilledQuantity) ∧
    emitted id (registered.reconcile deliveries).2 = last.cumulativeFilledQuantity ∧
    ∀ seen, seen <+: deliveries → last ∈ seen →
      ∃ r, (registered.reconcile seen).1.getOrder id = some r ∧ r.status = last.status := by
  intro registered
  have hclosed : ∀ seen, seen <+: deliveries → last ∈ seen →
      ∃ state, (registered.reconcile seen).1.orders[id]? = some state ∧
        emitted id (registered.reconcile seen).2 = state.filledQuantity ∧ state.status = last.status ∧
        state.filledQuantity = last.cumulativeFilledQuantity := by
    intro seen hseen hmem
    obtain ⟨-, state, hstate, hemitted, hway⟩ := reconcile_converging h hknown request clientOrderId
      fun r hr => hdeliveries r (hseen.subset hr)
    exact ⟨state, hstate, hemitted, hway.closed hmem⟩
  refine ⟨?_, ?_, fun seen hseen hmem => ?_⟩
  · obtain ⟨state, hstate, -, hstatus, hfilled⟩ := hclosed deliveries (List.prefix_refl _) hlast
    exact ⟨recordOf state, by rw [getOrder, hstate, Option.map_some], hstatus, hfilled⟩
  · obtain ⟨state, -, hemitted, -, hfilled⟩ := hclosed deliveries (List.prefix_refl _) hlast
    exact hemitted.trans hfilled
  · obtain ⟨state, hstate, -, hstatus, -⟩ := hclosed seen hseen hmem
    exact ⟨recordOf state, by rw [getOrder, hstate, Option.map_some], hstatus⟩

/-- The fill arrives twice and before the acknowledgement. -/
theorem history_converges_exampleDeliveries :
    let acknowledged : ExecutionReport :=
      { reportId := "r1", orderId := "o", status := .acknowledged, exchangeTimestamp := 1 }
    let filled : ExecutionReport :=
      { reportId := "r2", orderId := "o", status := .filled, cumulativeFilledQuantity := 3, exchangeTimestamp := 2 }
    let registered := ({} : LiveExecutionTracker).registerOrder {} "o" "c"
    emitted "o" (registered.reconcile [filled, acknowledged, filled]).2 = 3 := by
  intro acknowledged filled registered
  have h : ExchangeHistory "o" [acknowledged] filled := by
    refine ⟨?_, ?_, ?_, ?_, ?_, ?_, ?_, ?_, ?_⟩ <;> decide +kernel
  exact (history_converges {} {} "o" "c" _ _ h (by decide +kernel) [filled, acknowledged, filled]
    (by decide +kernel) (by decide +kernel)).2.1

end LiveExecutionTracker

end Wall
