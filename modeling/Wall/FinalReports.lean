import Wall.Convergence

/-!
# The exchange's final word

A report with a terminal status that is neither a duplicate nor behind the order is not stale, and it moves an order
that is still alive to its status if the transition table lists it or if it raises the filled quantity.  The table
lists every terminal status from every status that is alive, but for `rejected` and `expired` after `pending_cancel`
(`final_word_iff`).
-/

namespace Wall

namespace LiveExecutionTracker

/-- A report that ends an order: of a known order that is alive, new, terminal, and not behind the order in its
cumulative quantity or its timestamp. -/
structure EndsOrder (tracker : LiveExecutionTracker) (state : LocalOrderState) (report : ExecutionReport) : Prop where
  known : tracker.orders[report.orderId]? = some state
  alive : state.status.isTerminal = false
  fresh : ¬ tracker.IsDuplicate report
  terminal : report.status.isTerminal = true
  quantity : state.filledQuantity ≤ report.cumulativeFilledQuantity
  timestamp : state.lastExchangeTimestamp ≤ report.exchangeTimestamp

/-- The order has the report's status afterwards, and an update says so. -/
def TakesStatus (tracker : LiveExecutionTracker) (report : ExecutionReport) : Prop :=
  (∃ record, (tracker.applyReport report).1.getOrder report.orderId = some record ∧ record.status = report.status) ∧
    ∃ u ∈ (tracker.applyReport report).2.updates, u.orderId = report.orderId ∧ u.status = report.status

/-- The statuses that the table does not list after `pending_cancel`. -/
def missedTransition (current incoming : OrderStatus) : Bool :=
  current = .pendingCancel && (incoming = .rejected || incoming = .expired)

private theorem shouldApplyStatus_terminal {current incoming : OrderStatus} (hcurrent : current.isTerminal = false)
    (hincoming : incoming.isTerminal = true) :
    shouldApplyStatus current incoming = !missedTransition current incoming := by
  revert hcurrent hincoming
  cases current <;> cases incoming <;> decide

/-- What a report that counts makes of the status: the order takes it, or nothing is said. -/
private theorem advance_status (tracker : LiveExecutionTracker) (state : LocalOrderState) (report : ExecutionReport) :
    if shouldApplyStatus state.status report.status = true ∨ state.filledQuantity < report.cumulativeFilledQuantity then
      (∃ state', (tracker.advance state report).1.orders[report.orderId]? = some state' ∧
        state'.status = report.status) ∧
      ∃ u ∈ (tracker.advance state report).2.updates, u.orderId = report.orderId ∧ u.status = report.status
    else
      (tracker.advance state report).2.updates = [] := by
  have hfilled : max report.cumulativeFilledQuantity state.filledQuantity - state.filledQuantity > 0 ↔
      state.filledQuantity < report.cumulativeFilledQuantity := by
    rw [gt_iff_lt, sub_pos, lt_max_iff]
    exact or_iff_left (lt_irrefl _)
  have hstatus : ∀ p : Prop, ∀ [Decidable p], (if p then
      { state with filledQuantity := max report.cumulativeFilledQuantity state.filledQuantity } else state).status =
      state.status := by
    intro p _
    split <;> rfl
  unfold advance
  simp only [hfilled, hstatus, decide_eq_true_eq, Bool.or_eq_true]
  split
  · refine ⟨⟨_, KeyedMap.getElem?_insert .. |>.trans (if_pos rfl), rfl⟩, _, List.mem_singleton_self _, rfl, rfl⟩
  · rfl

private theorem takesStatus_iff {tracker : LiveExecutionTracker} {state : LocalOrderState} {report : ExecutionReport}
    (h : tracker.EndsOrder state report) :
    tracker.TakesStatus report ↔ ¬(state.status = .pendingCancel ∧
      (report.status = .rejected ∨ report.status = .expired) ∧
      report.cumulativeFilledQuantity = state.filledQuantity) := by
  have happly : tracker.applyReport report = (tracker.remember report).advance state report := by
    rw [applyReport_of_not_duplicate h.fresh, h.known]
    dsimp only
    rw [not_stale_of_ahead h.quantity h.timestamp h.alive]
    rfl
  have hspec := advance_status (tracker.remember report) state report
  rw [shouldApplyStatus_terminal h.alive h.terminal] at hspec
  have hmissed : missedTransition state.status report.status = true ↔
      state.status = .pendingCancel ∧ (report.status = .rejected ∨ report.status = .expired) := by
    simp only [missedTransition, Bool.and_eq_true, Bool.or_eq_true, decide_eq_true_eq]
  have hquantity : ¬ state.filledQuantity < report.cumulativeFilledQuantity ↔
      report.cumulativeFilledQuantity = state.filledQuantity := by
    rw [not_lt, eq_comm]
    exact ⟨fun hle => le_antisymm h.quantity hle, fun heq => heq.ge⟩
  rw [TakesStatus, happly]
  by_cases htakes : (!missedTransition state.status report.status) = true ∨
      state.filledQuantity < report.cumulativeFilledQuantity
  · rw [if_pos htakes] at hspec
    obtain ⟨⟨state', hstate', hstatus⟩, hupdate⟩ := hspec
    refine iff_of_true ⟨⟨recordOf state', by rw [getOrder, hstate', Option.map_some], hstatus⟩, hupdate⟩ ?_
    rintro ⟨hpending, hincoming, heq⟩
    rcases htakes with htable | hlt
    · rw [hmissed.2 ⟨hpending, hincoming⟩] at htable
      cases htable
    · exact hquantity.2 heq hlt
  · rw [if_neg htakes] at hspec
    rw [not_or, Bool.not_eq_true', Bool.not_eq_false] at htakes
    obtain ⟨hpending, hincoming⟩ := hmissed.1 htakes.1
    refine iff_of_false ?_ (not_not.2 ⟨hpending, hincoming, hquantity.1 htakes.2⟩)
    rintro ⟨-, u, hu, -⟩
    rw [hspec] at hu
    cases hu

/-- In every reachable tracker, for every order that is not terminal and every new report for it with a terminal
status, a cumulative quantity of at least the order's and a timestamp of at least its last one: the order takes the
report's status, and an update says so, exactly if the report does not reject or expire a `pending_cancel` order
without a fill. -/
theorem final_word_iff (calls : List TrackerCall) (state : LocalOrderState) (report : ExecutionReport)
    (h : (machine.run {} calls).EndsOrder state report) :
    (machine.run {} calls).TakesStatus report ↔ ¬(state.status = .pendingCancel ∧
      (report.status = .rejected ∨ report.status = .expired) ∧
      report.cumulativeFilledQuantity = state.filledQuantity) :=
  takesStatus_iff h

/-- An order whose cancel is pending at the exchange. -/
def examplePendingCancel : LiveExecutionTracker :=
  machine.run {} [.registerOrder {} "o" "c",
    .applyReport { reportId := "r1", orderId := "o", status := .pendingCancel, exchangeTimestamp := 1000 }]

def examplePendingState : LocalOrderState :=
  { orderId := "o", clientOrderId := "c", status := .pendingCancel, lastExchangeTimestamp := 1000 }

private theorem examplePendingCancel_ends {status : OrderStatus} (h : status.isTerminal = true) :
    examplePendingCancel.EndsOrder examplePendingState
      { reportId := "r2", orderId := "o", status := status, exchangeTimestamp := 2000 } where
  known := by
    show examplePendingCancel.orders["o"]? = some examplePendingState
    decide +kernel
  alive := rfl
  fresh := by
    show ¬("r2" ≠ "" ∧ "r2" ∈ examplePendingCancel.processedReportIds)
    decide +kernel
  terminal := h
  quantity := le_rfl
  timestamp := by
    show (1000 : Int) ≤ 2000
    decide

theorem final_word_iff_exampleCanceled :
    examplePendingCancel.TakesStatus
      { reportId := "r2", orderId := "o", status := .canceled, exchangeTimestamp := 2000 } :=
  (final_word_iff _ _ _ (examplePendingCancel_ends rfl)).2 fun h => by
    rcases h.2.1 with hstatus | hstatus <;> cases hstatus

/-- The order expires at the exchange before its cancel is done, and stays `pending_cancel`. -/
theorem expired_after_pending_cancel_dropped :
    let expired : ExecutionReport :=
      { reportId := "r2", orderId := "o", status := .expired, exchangeTimestamp := 2000 }
    (∃ state, examplePendingCancel.EndsOrder state expired) ∧ ¬ examplePendingCancel.TakesStatus expired := by
  intro expired
  refine ⟨⟨_, examplePendingCancel_ends rfl⟩, ?_⟩
  rintro ⟨-, u, hu, -⟩
  have hnone : (examplePendingCancel.applyReport expired).2.updates = [] := by decide +kernel
  rw [hnone] at hu
  cases hu

end LiveExecutionTracker

end Wall
