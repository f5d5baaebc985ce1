import Wall.Reconciliation

/-!
# Terminal orders

Two tests guard a terminal status: `shouldIgnoreAsStale` drops a report of another status that brings no new
quantity, and `shouldApplyStatus` refuses every transition out of it.  A report that does bring new quantity passes
the first, and `apply_report` then writes its status without asking the second.  So a terminal order becomes open
again exactly when such a report of an open status arrives (`Reopens`).
-/

namespace Wall

namespace LiveExecutionTracker

/-! ### One report and the state of one order -/

/-- The state of an order after a report that is neither a duplicate nor stale. -/
structure Advanced (state : LocalOrderState) (report : ExecutionReport) (state' : LocalOrderState) : Prop where
  status : state'.status =
    if shouldApplyStatus state.status report.status = true ∨ state.filledQuantity < report.cumulativeFilledQuantity
    then report.status else state.status
  filledQuantity : state'.filledQuantity = max report.cumulativeFilledQuantity state.filledQuantity
  lastExchangeTimestamp : state'.lastExchangeTimestamp = max state.lastExchangeTimestamp report.exchangeTimestamp

private theorem advance_state (tracker : LiveExecutionTracker) (state : LocalOrderState) (report : ExecutionReport) :
    ∃ state', (tracker.advance state report).1.orders = tracker.orders.insert report.orderId state' ∧
      Advanced state report state' := by
  by_cases hlt : state.filledQuantity < report.cumulativeFilledQuantity
  · have hmax : max report.cumulativeFilledQuantity state.filledQuantity = report.cumulativeFilledQuantity :=
      max_eq_left hlt.le
    simp only [advance, hmax, gt_iff_lt, sub_pos, hlt, decide_true, Bool.or_true, ↓reduceIte]
    exact ⟨_, rfl, by simp [hlt], hmax.symm, rfl⟩
  · have hmax : max report.cumulativeFilledQuantity state.filledQuantity = state.filledQuantity :=
      max_eq_right (not_lt.1 hlt)
    simp only [advance, hmax, gt_iff_lt, sub_self, lt_irrefl, decide_false, Bool.or_false, Bool.false_and,
      Bool.false_eq_true, ↓reduceIte]
    split
    · rename_i happly
      exact ⟨_, rfl, by simp [happly], hmax.symm, rfl⟩
    · rename_i happly
      refine ⟨_, rfl, ?_, ?_, ?_⟩
      · rw [if_neg (not_or.2 ⟨happly, hlt⟩)]
        split <;> rfl
      · rw [hmax]
        split <;> rfl
      · split
        · rename_i hts
          exact (max_eq_right hts.le).symm
        · rename_i hts
          exact (max_eq_left (not_lt.1 hts)).symm

/-- A report leaves a known order as it is, or names it and advances it. -/
theorem applyReport_state {tracker : LiveExecutionTracker} {id : String} {state : LocalOrderState}
    (h : tracker.orders[id]? = some state) (report : ExecutionReport) :
    ((tracker.applyReport report).1.orders[id]? = some state ∧
      (report.orderId ≠ id ∨ tracker.IsDuplicate report ∨ shouldIgnoreAsStale state report = true)) ∨
    (report.orderId = id ∧ ¬ tracker.IsDuplicate report ∧ shouldIgnoreAsStale state report = false ∧
      ∃ state', (tracker.applyReport report).1.orders[id]? = some state' ∧ Advanced state report state') := by
  by_cases hd : tracker.IsDuplicate report
  · rw [applyReport_of_duplicate hd]
    exact .inl ⟨h, .inr (.inl hd)⟩
  · have hremember : (tracker.remember report).orders[id]? = some state := by rw [remember_orders, h]
    rw [applyReport_of_not_duplicate hd]
    by_cases hid : report.orderId = id
    · subst hid
      rw [h]
      dsimp only
      by_cases hstale : shouldIgnoreAsStale state report = true
      · rw [if_pos hstale]
        exact .inl ⟨hremember, .inr (.inr hstale)⟩
      · rw [if_neg hstale]
        obtain ⟨state', horders, hadvanced⟩ := advance_state (tracker.remember report) state report
        refine .inr ⟨rfl, hd, Bool.not_eq_true _ ▸ hstale, state', ?_, hadvanced⟩
        rw [horders, KeyedMap.getElem?_insert, if_pos rfl]
    · refine .inl ⟨?_, .inl hid⟩
      split
      · exact hremember
      · split
        · exact hremember
        · obtain ⟨state', horders, -⟩ := advance_state (tracker.remember report) _ report
          rw [horders, KeyedMap.getElem?_insert, if_neg hid, hremember]

/-! ### Reports in order -/

/-- The tracker as a machine that reads reports. -/
def reportMachine : Machine LiveExecutionTracker ExecutionReport ReconciliationResult where
  step := applyReport

theorem reconcile_eq (tracker : LiveExecutionTracker) (reports : List ExecutionReport) :
    tracker.reconcile reports = (reportMachine.run tracker reports, reportMachine.outputs tracker reports) := by
  induction reports generalizing tracker with
  | nil => rfl
  | cons report reports ih =>
    rw [reconcile]
    simp only [ih, Machine.run_cons, Machine.outputs_cons]
    rfl

private theorem reconcile_concat (tracker : LiveExecutionTracker) (reports : List ExecutionReport)
    (report : ExecutionReport) :
    (tracker.reconcile (reports ++ [report])).1 = ((tracker.reconcile reports).1.applyReport report).1 := by
  rw [reconcile_eq, reconcile_eq, Machine.run_append]
  rfl

/-! ### Leaving a terminal status -/

/-- The report is of an open status and raises the filled quantity of an order that is terminal. -/
def Reopens (tracker : LiveExecutionTracker) (report : ExecutionReport) : Prop :=
  ¬ tracker.IsDuplicate report ∧ ∃ state ∈ tracker.orders[report.orderId]?, state.status.isTerminal = true ∧
    report.status.isTerminal = false ∧ state.filledQuantity < report.cumulativeFilledQuantity

/-- The orders that are terminal in the first tracker are terminal in the second. -/
def StaysTerminal (tracker tracker' : LiveExecutionTracker) : Prop :=
  ∀ id r, tracker.getOrder id = some r → r.status.isTerminal = true →
    ∃ r', tracker'.getOrder id = some r' ∧ r'.status.isTerminal = true

theorem StaysTerminal.trans {tracker tracker' tracker'' : LiveExecutionTracker} (h : tracker.StaysTerminal tracker')
    (h' : tracker'.StaysTerminal tracker'') : tracker.StaysTerminal tracker'' := by
  intro id r hr ht
  obtain ⟨r', hr', ht'⟩ := h id r hr ht
  exact h' id r' hr' ht'

private theorem shouldApplyStatus_of_terminal {current incoming : OrderStatus} (h : current.isTerminal = true) :
    shouldApplyStatus current incoming = false := by
  unfold shouldApplyStatus
  rw [if_pos h, ite_self]

private theorem not_stale_of_lt {state : LocalOrderState} {report : ExecutionReport}
    (h : state.filledQuantity < report.cumulativeFilledQuantity) : shouldIgnoreAsStale state report = false := by
  cases hstale : shouldIgnoreAsStale state report with
  | false => rfl
  | true => exact absurd (le_of_stale hstale) (not_le.2 h)

/-- One report takes an order out of its terminal status exactly if it reopens one. -/
private theorem staysTerminal_applyReport_iff (tracker : LiveExecutionTracker) (report : ExecutionReport) :
    tracker.StaysTerminal (tracker.applyReport report).1 ↔ ¬ tracker.Reopens report := by
  constructor
  · rintro h ⟨hd, state, hstate, hterminal, hopen, hlt⟩
    obtain ⟨r', hr', hterminal'⟩ := h report.orderId (recordOf state) (by rw [getOrder, hstate]; rfl) hterminal
    rcases applyReport_state hstate report with ⟨-, hignored⟩ | ⟨-, -, -, state', hstate', hadvanced⟩
    · rw [not_stale_of_lt hlt] at hignored
      simp [hd] at hignored
    · rw [getOrder, hstate', Option.map_some, Option.some.injEq] at hr'
      subst hr'
      have hstatus : (recordOf state').status = report.status :=
        hadvanced.status.trans (if_pos (.inr hlt))
      rw [hstatus, hopen] at hterminal'
      cases hterminal'
  · intro h id r hr hterminal
    obtain ⟨state, hstate, rfl⟩ := Option.map_eq_some_iff.1 hr
    rcases applyReport_state hstate report with ⟨hstate', -⟩ | ⟨rfl, hd, -, state', hstate', hadvanced⟩
    · exact ⟨recordOf state, by rw [getOrder, hstate', Option.map_some], hterminal⟩
    · refine ⟨recordOf state', by rw [getOrder, hstate', Option.map_some], ?_⟩
      have hrefused := @shouldApplyStatus_of_terminal state.status report.status hterminal
      show state'.status.isTerminal = true
      rw [hadvanced.status, hrefused]
      -- the order keeps its status, or takes the one of a report that raises its quantity
      split
      · rename_i hlt
        by_contra hopen
        exact h ⟨hd, state, hstate, hterminal, Bool.not_eq_true _ ▸ hopen, by simpa using hlt⟩
      · exact hterminal

/-- In a reachable tracker, no sequence of reports takes an order out of a terminal status exactly if none of the
reports, when it arrives, reopens an order: none that was not processed before names a terminal order with an open
status and a quantity above the one filled. -/
theorem terminal_orders_stay_terminal (setup : List TrackerCall) (reports : List ExecutionReport) :
    let tracker := machine.run {} setup
    (∀ pre post, pre <+: post → post <+: reports →
      (tracker.reconcile pre).1.StaysTerminal (tracker.reconcile post).1) ↔
    ∀ pre report post, reports = pre ++ report :: post → ¬ (tracker.reconcile pre).1.Reopens report := by
  intro tracker
  constructor
  · rintro h pre report post rfl
    rw [← staysTerminal_applyReport_iff, ← reconcile_concat]
    exact h pre (pre ++ [report]) (List.prefix_append _ _) ⟨post, by simp⟩
  · rintro h pre _ ⟨mid, rfl⟩ ⟨post, rfl⟩
    induction mid generalizing pre with
    | nil =>
      rw [List.append_nil]
      exact fun id r hr hterminal => ⟨r, hr, hterminal⟩
    | cons report mid ih =>
      have hstep : (tracker.reconcile pre).1.StaysTerminal (tracker.reconcile (pre ++ [report])).1 := by
        rw [reconcile_concat, staysTerminal_applyReport_iff]
        exact h pre report (mid ++ post) (by simp)
      have hrest := ih (pre ++ [report]) fun pre' report' post' heq => h pre' report' post' (by simpa using heq)
      rw [List.append_assoc, List.singleton_append] at hrest
      exact hstep.trans hrest

/-- A partial fill that arrives after the cancel acknowledgement reopens the order. -/
theorem late_fill_reopens_canceled :
    let tracker := machine.run {} [.registerOrder {} "o" "c",
      .applyReport { reportId := "r1", orderId := "o", status := .canceled, exchangeTimestamp := 2000 }]
    let late : ExecutionReport :=
      { reportId := "r2", orderId := "o", status := .partiallyFilled, cumulativeFilledQuantity := 1
        exchangeTimestamp := 1500 }
    ¬ tracker.StaysTerminal (tracker.reconcile [late]).1 := by
  intro tracker late h
  have hcanceled : (tracker.getOrder "o").map OrderRecord.status = some .canceled := by decide +kernel
  have hopen : ((tracker.reconcile [late]).1.getOrder "o").map OrderRecord.status = some .partiallyFilled := by
    decide +kernel
  obtain ⟨r, hr, hstatus⟩ := Option.map_eq_some_iff.1 hcanceled
  obtain ⟨r', hr', hterminal⟩ := h "o" r hr (by rw [hstatus]; rfl)
  rw [hr', Option.map_some, Option.some.injEq] at hopen
  rw [hopen] at hterminal
  cases hterminal

end LiveExecutionTracker

end Wall
