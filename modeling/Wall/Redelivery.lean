import Wall.TerminalOrders

/-!
# Reports delivered before their order is known

`apply_report` remembers a report's id before it looks the order up, so a report that arrives too early is dropped as
stale and its redelivery as a duplicate.  What an order's filled quantity reaches is decided by the deliveries after
the order became known whose id no delivery had before (`Reached`).
-/

namespace Wall

open KeyedMap

/-- The filled quantity that a call makes an order known with, if it does. -/
def TrackerCall.makesKnown (id : String) : TrackerCall → Option ℚ
  | .registerOrder _ orderId _ => if orderId = id then some 0 else none
  | .restoreOrder order => if order.orderId = id then some order.filledQuantity else none
  | .applyReport _ => none

namespace LiveExecutionTracker

/-- The report has no id, or none of the reports has its id. -/
def Unseen (reports : List ExecutionReport) (report : ExecutionReport) : Prop :=
  report.reportId = "" ∨ ∀ r ∈ reports, r.reportId ≠ report.reportId

/-- Among the calls `post` that follow `pre`, a report for the order with at least the quantity is delivered under no
id or under an id that is new. -/
def Reached (id : String) (pre post : List TrackerCall) (quantity : ℚ) : Prop :=
  ∃ mid report rest, post = mid ++ .applyReport report :: rest ∧ report.orderId = id ∧
    quantity ≤ report.cumulativeFilledQuantity ∧ Unseen (reportsOf (pre ++ mid)) report

private theorem reached_concat {id : String} {pre post : List TrackerCall} {call : TrackerCall} {quantity : ℚ} :
    Reached id pre (post ++ [call]) quantity ↔ Reached id pre post quantity ∨
      ∃ report, call = .applyReport report ∧ report.orderId = id ∧ quantity ≤ report.cumulativeFilledQuantity ∧
        Unseen (reportsOf (pre ++ post)) report := by
  constructor
  · rintro ⟨mid, report, rest, heq, hid, hq, hunseen⟩
    -- the delivery is the last call, or one of those before it
    rcases List.eq_nil_or_concat rest with rfl | ⟨rest, last, rfl⟩
    · obtain ⟨rfl, hcall⟩ := List.append_inj' heq rfl
      exact .inr ⟨report, List.singleton_inj.1 hcall, hid, hq, hunseen⟩
    · rw [List.concat_eq_append, ← List.cons_append, ← List.append_assoc] at heq
      obtain ⟨rfl, -⟩ := List.append_inj' heq rfl
      exact .inl ⟨mid, report, rest, rfl, hid, hq, hunseen⟩
  · rintro (⟨mid, report, rest, rfl, hid, hq, hunseen⟩ | ⟨report, rfl, hid, hq, hunseen⟩)
    · exact ⟨mid, report, rest ++ [call], by simp, hid, hq, hunseen⟩
    · exact ⟨post, report, [], rfl, hid, hq, hunseen⟩

theorem Remembers.isDuplicate_iff {tracker : LiveExecutionTracker} {reports : List ExecutionReport}
    (h : tracker.Remembers reports) (report : ExecutionReport) :
    tracker.IsDuplicate report ↔ ¬ Unseen reports report := by
  rw [IsDuplicate, h, Unseen]
  push Not
  constructor
  · rintro ⟨hne, -, hseen⟩
    exact ⟨hne, hseen⟩
  · rintro ⟨hne, hseen⟩
    exact ⟨hne, hne, hseen⟩

theorem run_remembers (calls : List TrackerCall) : (machine.run {} calls).Remembers (reportsOf calls) := by
  have hok : machine.Admissible (fun _ _ => True) {} calls := Machine.admissible_of_forall (fun _ _ _ => trivial) _
  refine Machine.invariant_history (P := fun calls tracker _ => tracker.Remembers (reportsOf calls)) ?_ hok
    fun x => by simp [reportsOf]
  intro calls tracker results call _ h
  rw [reportsOf_append]
  exact h.step call

/-- What holds of an order that became known with a filled quantity after `pre`, when `post` has been read since. -/
structure Tracked (id : String) (filledQuantity : ℚ) (pre post : List TrackerCall)
    (tracker : LiveExecutionTracker) : Prop where
  remembers : tracker.Remembers (reportsOf (pre ++ post))
  state : ∃ state, tracker.orders[id]? = some state ∧
    ∀ q, q ≤ state.filledQuantity ↔ q ≤ filledQuantity ∨ Reached id pre post q

theorem Tracked.step {id : String} {filledQuantity : ℚ} {pre post : List TrackerCall}
    {tracker : LiveExecutionTracker} (h : Tracked id filledQuantity pre post tracker) {call : TrackerCall}
    (hcall : call.makesKnown id = none) :
    Tracked id filledQuantity pre (post ++ [call]) (machine.step tracker call).1 := by
  obtain ⟨state, hstate, hreached⟩ := h.state
  have hremembers : (machine.step tracker call).1.Remembers (reportsOf (pre ++ (post ++ [call]))) := by
    rw [← List.append_assoc, reportsOf_append]
    exact h.remembers.step call
  -- a call that is no new delivery for the order leaves what is reached
  have hidle : (machine.step tracker call).1.orders[id]? = some state →
      (∀ report, call = .applyReport report → report.orderId = id → ¬ Unseen (reportsOf (pre ++ post)) report) →
      Tracked id filledQuantity pre (post ++ [call]) (machine.step tracker call).1 := by
    intro hstate' hseen
    refine ⟨hremembers, state, hstate', fun q => ?_⟩
    rw [hreached, reached_concat]
    refine or_congr_right ⟨.inl, fun hq => hq.elim (fun hq => hq) ?_⟩
    rintro ⟨report, heq, hid, -, hunseen⟩
    exact absurd hunseen (hseen report heq hid)
  cases call with
  | registerOrder request orderId clientOrderId =>
    refine hidle ?_ (by rintro _ ⟨⟩)
    rw [machine_registerOrder, if_neg, hstate]
    rintro rfl
    simp [TrackerCall.makesKnown] at hcall
  | restoreOrder order =>
    refine hidle ?_ (by rintro _ ⟨⟩)
    show (tracker.restoreOrder order).orders[id]? = some state
    rw [restoreOrder, getElem?_insert, if_neg, hstate]
    rintro rfl
    simp [TrackerCall.makesKnown] at hcall
  | applyReport report =>
    by_cases hd : tracker.IsDuplicate report
    · refine hidle ?_ fun report' heq _ => ?_
      · show (tracker.applyReport report).1.orders[id]? = some state
        rw [applyReport_of_duplicate hd, hstate]
      · cases heq
        exact (h.remembers.isDuplicate_iff report).1 hd
    · obtain ⟨state', hstate', hfilled, -⟩ := (applyReport_spec hd).known hstate
      have hunseen : Unseen (reportsOf (pre ++ post)) report := by
        by_contra hseen
        exact hd ((h.remembers.isDuplicate_iff report).2 hseen)
      refine ⟨hremembers, state', hstate', fun q => ?_⟩
      rw [hfilled, reached_concat]
      split
      · rename_i hid
        rw [le_max_iff, hreached, or_comm, or_assoc]
        simp [hid, hunseen]
      · rename_i hid
        rw [hreached]
        simp [hid]

theorem tracked_of_known {id : String} {filledQuantity : ℚ} {pre post : List TrackerCall} {call : TrackerCall}
    (hcall : call.makesKnown id = some filledQuantity) (hpost : ∀ c ∈ post, c.makesKnown id = none) :
    Tracked id filledQuantity pre post (machine.run {} (pre ++ call :: post)) := by
  have hstart : Tracked id filledQuantity pre [] (machine.step (machine.run {} pre) call).1 := by
    have hremembers := (run_remembers pre).step call
    cases call with
    | registerOrder request orderId clientOrderId =>
      simp only [TrackerCall.makesKnown, Option.ite_none_right_eq_some, Option.some.injEq] at hcall
      obtain ⟨rfl, rfl⟩ := hcall
      refine ⟨by simpa [reportsOf] using hremembers, _, (machine_registerOrder ..).trans (if_pos rfl), ?_⟩
      simp [Reached]
    | restoreOrder order =>
      simp only [TrackerCall.makesKnown, Option.ite_none_right_eq_some, Option.some.injEq] at hcall
      obtain ⟨rfl, rfl⟩ := hcall
      refine ⟨by simpa [reportsOf] using hremembers, _, (getElem?_insert _ _ _ _).trans (if_pos rfl), ?_⟩
      simp [Reached]
    | applyReport => cases hcall
  have hok : machine.Admissible (fun _ c => c.makesKnown id = none) (machine.step (machine.run {} pre) call).1 post :=
    Machine.admissible_of_forall (fun c hc _ => hpost c hc) _
  rw [Machine.run_append, Machine.run_cons]
  exact Machine.invariant_history (P := fun calls tracker _ => Tracked id filledQuantity pre calls tracker)
    (fun _ _ _ _ hcall h => h.step hcall) hok hstart

/-- A call makes an order known, and no later one does.  A report for the order that is delivered afterwards is
within the order's final filled quantity exactly if the order became known with that much, or a report for it with at
least that much is delivered afterwards that has no id or an id under which nothing was delivered before, also not
before the order was known. -/
theorem report_within_filled (pre post : List TrackerCall) (call : TrackerCall) (id : String) (filledQuantity : ℚ)
    (hcall : call.makesKnown id = some filledQuantity) (hpost : ∀ c ∈ post, c.makesKnown id = none) :
    ∀ report, .applyReport report ∈ post → report.orderId = id →
      ((∃ r, (machine.run {} (pre ++ call :: post)).getOrder id = some r ∧
          report.cumulativeFilledQuantity ≤ r.filledQuantity) ↔
        report.cumulativeFilledQuantity ≤ filledQuantity ∨
          Reached id pre post report.cumulativeFilledQuantity) := by
  intro report _ _
  obtain ⟨-, state, hstate, hreached⟩ := tracked_of_known hcall hpost
  rw [← hreached, getOrder, hstate, Option.map_some]
  constructor
  · rintro ⟨r, hr, hle⟩
    cases hr
    exact hle
  · exact fun hle => ⟨_, rfl, hle⟩

/-- A report that arrives before its order is registered and again afterwards. -/
def exampleReport : ExecutionReport :=
  { reportId := "r1", orderId := "o", status := .partiallyFilled, cumulativeFilledQuantity := 3 }

theorem report_within_filled_exampleRedelivery :
    let post : List TrackerCall := [.applyReport exampleReport, .applyReport exampleReport]
    (∃ r, (machine.run {} ([] ++ .registerOrder {} "o" "c" :: post)).getOrder "o" = some r ∧ 3 ≤ r.filledQuantity) := by
  intro post
  refine (report_within_filled [] post (.registerOrder {} "o" "c") "o" 0 rfl (by decide) exampleReport (by decide)
    rfl).2 (.inr ?_)
  exact ⟨[], exampleReport, [.applyReport exampleReport], rfl, rfl, le_refl _, .inr (by simp [reportsOf])⟩

/-- Delivered before the registration too, the report is lost. -/
theorem early_report_lost :
    let calls : List TrackerCall :=
      [.applyReport exampleReport] ++ .registerOrder {} "o" "c" :: [.applyReport exampleReport]
    ¬ ∃ r, (machine.run {} calls).getOrder "o" = some r ∧
      exampleReport.cumulativeFilledQuantity ≤ r.filledQuantity := by
  rintro calls ⟨r, hr, hle⟩
  have hfilled : ((machine.run {} calls).getOrder "o").map OrderRecord.filledQuantity = some 0 := by decide +kernel
  rw [hr, Option.map_some, Option.some.injEq] at hfilled
  rw [hfilled] at hle
  exact absurd hle (by decide)

end LiveExecutionTracker

end Wall
