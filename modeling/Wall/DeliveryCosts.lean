import Wall.Lib.RunningMaximum
import Wall.TerminalOrders

/-!
# What the delivery order does to costs

The tracker emits a fill for a report that raises the order's filled quantity, for the whole raise and at the report's
own price and fee.  So the reports that count are the records of the delivered cumulative quantities
(`cost_reconcile`), and a report that is overtaken hands its quantity to another one and loses its fee.  The totals
are the same for every delivery order exactly if all fills of the history have one price and only the last has a fee.
-/

namespace Wall

open KeyedMap RunningMaximum

namespace LiveExecutionTracker

/-- The reports of the fills of one order in the exchange's order, each with the price of its own fill. -/
structure FilledHistory (id : String) (history : List ExecutionReport) : Prop where
  names : ∀ r ∈ history, r.orderId = id
  has_id : ∀ r ∈ history, r.reportId ≠ ""
  distinct_ids : (history.map ExecutionReport.reportId).Nodup
  quantities : (history.map ExecutionReport.cumulativeFilledQuantity).Pairwise (· < ·)
  timestamp_pos : ∀ r ∈ history, 0 < r.exchangeTimestamp
  timestamps : (history.map ExecutionReport.exchangeTimestamp).Pairwise (· < ·)
  priced : ∀ r ∈ history, r.lastFillPrice.isSome = true

/-- The fills that the reports emitted, in order. -/
def emittedFills (results : List ReconciliationResult) : List FillEvent := results.flatMap ReconciliationResult.fills

def totalNotional (results : List ReconciliationResult) : ℚ :=
  ((emittedFills results).map fun f => f.price * f.quantity).sum

def totalFee (results : List ReconciliationResult) : ℚ := ((emittedFills results).map FillEvent.fee).sum

/-- The total notional and the total fee of the fills do not depend on the order in which the reports of the history
are delivered after the registration of the order. -/
def CostIndependent (registered : LiveExecutionTracker) (history : List ExecutionReport) : Prop :=
  ∀ delivered : List ExecutionReport, delivered.Perm history →
    totalNotional (registered.reconcile delivered).2 = totalNotional (registered.reconcile history).2 ∧
      totalFee (registered.reconcile delivered).2 = totalFee (registered.reconcile history).2

/-! ### One report -/

private theorem advance_fills (tracker : LiveExecutionTracker) (state : LocalOrderState) (report : ExecutionReport) :
    (tracker.advance state report).2.fills =
      if state.filledQuantity < report.cumulativeFilledQuantity then
        [tracker.deltaFill state report (report.cumulativeFilledQuantity - state.filledQuantity)]
      else [] := by
  by_cases hlt : state.filledQuantity < report.cumulativeFilledQuantity
  · rw [if_pos hlt]
    simp only [advance, max_eq_left hlt.le, gt_iff_lt, sub_pos, hlt, decide_true, Bool.or_true, ↓reduceIte]
  · rw [if_neg hlt]
    simp only [advance, max_eq_right (not_lt.1 hlt), gt_iff_lt, sub_self, lt_irrefl, decide_false, Bool.or_false,
      Bool.false_and, Bool.false_eq_true, ↓reduceIte]
    split <;> rfl

/-- The fills that a new report of a known order emits. -/
private theorem applyReport_fills {tracker : LiveExecutionTracker} {report : ExecutionReport} {state : LocalOrderState}
    (hstate : tracker.orders[report.orderId]? = some state) (hnew : ¬ tracker.IsDuplicate report) :
    (tracker.applyReport report).2.fills =
      if state.filledQuantity < report.cumulativeFilledQuantity then
        [(tracker.remember report).deltaFill state report (report.cumulativeFilledQuantity - state.filledQuantity)]
      else [] := by
  rw [applyReport_of_not_duplicate hnew, hstate]
  dsimp only
  by_cases hstale : shouldIgnoreAsStale state report = true
  · rw [if_pos hstale, if_neg (not_lt.2 (le_of_stale hstale))]
  · rw [if_neg hstale, advance_fills]

/-! ### A delivery -/

/-- The notional of the fill that raises the filled quantity from `filled`. -/
def notionalOf (filled : ℚ) (report : ExecutionReport) : ℚ :=
  (report.cumulativeFilledQuantity - filled) * report.lastFillPrice.getD 0

def feeOf (_filled : ℚ) (report : ExecutionReport) : ℚ := report.lastFillFee

/-- New reports of one order emit fills for the records among their cumulative quantities. -/
theorem cost_reconcile {id : String} (reports : List ExecutionReport) {tracker : LiveExecutionTracker}
    {state : LocalOrderState} (hstate : tracker.orders[id]? = some state) (hnames : ∀ r ∈ reports, r.orderId = id)
    (hids : ∀ r ∈ reports, r.reportId ≠ "") (hnodup : (reports.map ExecutionReport.reportId).Nodup)
    (hnew : ∀ r ∈ reports, r.reportId ∉ tracker.processedReportIds)
    (hpriced : ∀ r ∈ reports, r.lastFillPrice.isSome = true) :
    totalNotional (tracker.reconcile reports).2 =
      recordSum ExecutionReport.cumulativeFilledQuantity notionalOf state.filledQuantity reports ∧
    totalFee (tracker.reconcile reports).2 =
      recordSum ExecutionReport.cumulativeFilledQuantity feeOf state.filledQuantity reports := by
  induction reports generalizing tracker state with
  | nil => exact ⟨rfl, rfl⟩
  | cons report reports ih =>
    rw [List.map_cons, List.nodup_cons] at hnodup
    have hid := hnames report (List.mem_cons_self ..)
    have hfirst : ¬ tracker.IsDuplicate report := fun hd => hnew report (List.mem_cons_self ..) hd.2
    obtain ⟨state', hstate', hfilled, -⟩ := (applyReport_spec hfirst).known hstate
    rw [if_pos hid] at hfilled
    -- the reports have different ids, so the first one makes no other a duplicate
    have hunseen : ∀ r ∈ reports, r.reportId ∉ (tracker.applyReport report).1.processedReportIds := by
      intro r hr hmem
      rcases ((applyReport_spec hfirst).processed _).1 hmem with hmem | ⟨-, hsame⟩
      · exact hnew r (List.mem_cons_of_mem _ hr) hmem
      · exact hnodup.1 (hsame ▸ List.mem_map_of_mem hr)
    obtain ⟨hnotional, hfee⟩ := ih hstate' (fun r hr => hnames r (List.mem_cons_of_mem _ hr))
      (fun r hr => hids r (List.mem_cons_of_mem _ hr)) hnodup.2 hunseen
      (fun r hr => hpriced r (List.mem_cons_of_mem _ hr))
    have hfills := applyReport_fills (hid.symm ▸ hstate) hfirst
    have hresults : (tracker.reconcile (report :: reports)).2 =
        (tracker.applyReport report).2 :: ((tracker.applyReport report).1.reconcile reports).2 := rfl
    unfold totalNotional emittedFills at hnotional
    unfold totalFee emittedFills at hfee
    unfold totalNotional totalFee emittedFills
    rw [hresults, List.flatMap_cons, List.map_append, List.map_append, List.sum_append, List.sum_append, hnotional,
      hfee, hfills, hfilled]
    by_cases hlt : state.filledQuantity < report.cumulativeFilledQuantity
    · obtain ⟨price, hprice⟩ := Option.isSome_iff_exists.1 (hpriced report (List.mem_cons_self ..))
      rw [if_pos hlt, recordSum_cons_of_lt hlt, recordSum_cons_of_lt hlt, max_eq_left hlt.le]
      simp only [List.map_singleton, List.sum_singleton, deltaFill, notionalOf, feeOf, hprice, Option.getD_some]
      exact ⟨by ring, trivial⟩
    · rw [if_neg hlt, recordSum_cons_of_le (not_lt.1 hlt), recordSum_cons_of_le (not_lt.1 hlt),
        max_eq_right (not_lt.1 hlt)]
      exact ⟨zero_add _, zero_add _⟩

/-! ### All deliveries of a history -/

/-- Any two reports with fills have one price, and the earlier one has no fee. -/
def OnePriceLastFee (history : List ExecutionReport) : Prop :=
  ∀ r ∈ history, ∀ r' ∈ history, 0 < r.cumulativeFilledQuantity →
    r.cumulativeFilledQuantity < r'.cumulativeFilledQuantity →
    r.lastFillPrice = r'.lastFillPrice ∧ r.lastFillFee = 0

/-- Under the condition the records sum to the weight of the last report. -/
private theorem recordSum_perm {weight : ℚ → ExecutionReport → ℚ} {history : List ExecutionReport}
    (hquantities : (history.map ExecutionReport.cumulativeFilledQuantity).Pairwise (· < ·))
    (hskip : ∀ r ∈ history, ∀ r' ∈ history, 0 < r.cumulativeFilledQuantity →
      r.cumulativeFilledQuantity < r'.cumulativeFilledQuantity → ∀ t,
      weight t r + weight r.cumulativeFilledQuantity r' = weight t r')
    {delivered : List ExecutionReport} (hperm : delivered.Perm history) :
    recordSum ExecutionReport.cumulativeFilledQuantity weight 0 delivered =
      recordSum ExecutionReport.cumulativeFilledQuantity weight 0 history := by
  rcases List.eq_nil_or_concat history with rfl | ⟨before, last, rfl⟩
  · rw [hperm.eq_nil]
  · rw [List.concat_eq_append] at hquantities hskip hperm ⊢
    rw [List.map_append, List.pairwise_append] at hquantities
    have hmax : ∀ r ∈ before ++ [last], r = last ∨ r.cumulativeFilledQuantity < last.cumulativeFilledQuantity := by
      intro r hr
      rcases List.mem_append.1 hr with hr | hr
      · exact .inr (hquantities.2.2 _ (List.mem_map_of_mem hr) _ (List.mem_singleton_self _))
      · exact .inl (List.mem_singleton.1 hr)
    have hlast : last ∈ before ++ [last] := List.mem_append_right _ (List.mem_singleton_self _)
    by_cases hpos : 0 < last.cumulativeFilledQuantity
    · have hone : ∀ l : List ExecutionReport, l.Perm (before ++ [last]) →
          recordSum ExecutionReport.cumulativeFilledQuantity weight 0 l = weight 0 last := fun l hl =>
        recordSum_eq_weight (hl.mem_iff.2 hlast) hpos (fun r hr => hmax r (hl.mem_iff.1 hr))
          fun r hr t ht htr hrl => hskip r (hl.mem_iff.1 hr) last hlast (ht.trans_lt htr) hrl t
      rw [hone delivered hperm, hone _ (List.Perm.refl _)]
    · have hnone : ∀ r ∈ before ++ [last], r.cumulativeFilledQuantity ≤ 0 := fun r hr =>
        (hmax r hr).elim (fun h => h ▸ not_lt.1 hpos) fun h => h.le.trans (not_lt.1 hpos)
      rw [recordSum_of_le hnone, recordSum_of_le fun r hr => hnone r (hperm.mem_iff.1 hr)]

/-- The total notional and fee of the fills of a registered order are the same for every delivery order of its history
exactly if all reports with a positive cumulative quantity carry one price and all but the last of them no fee. -/
theorem costIndependent_iff (tracker : LiveExecutionTracker) (request : OrderRequest) (id clientOrderId : String)
    (history : List ExecutionReport) (h : FilledHistory id history)
    (hnew : ∀ r ∈ history, r.reportId ∉ tracker.processedReportIds) :
    (tracker.registerOrder request id clientOrderId).CostIndependent history ↔ OnePriceLastFee history := by
  have hregistered : (tracker.registerOrder request id clientOrderId).orders[id]? = some
      { request := request, orderId := id, clientOrderId := clientOrderId, status := .pendingSubmit } :=
    (KeyedMap.getElem?_insert _ _ _ _).trans (if_pos rfl)
  have hcost : ∀ delivered : List ExecutionReport, delivered.Perm history →
      totalNotional ((tracker.registerOrder request id clientOrderId).reconcile delivered).2 =
        recordSum ExecutionReport.cumulativeFilledQuantity notionalOf 0 delivered ∧
      totalFee ((tracker.registerOrder request id clientOrderId).reconcile delivered).2 =
        recordSum ExecutionReport.cumulativeFilledQuantity feeOf 0 delivered := fun delivered hperm =>
    cost_reconcile delivered hregistered (fun r hr => h.names r (hperm.mem_iff.1 hr))
      (fun r hr => h.has_id r (hperm.mem_iff.1 hr)) ((hperm.map _).nodup_iff.2 h.distinct_ids)
      (fun r hr => hnew r (hperm.mem_iff.1 hr)) fun r hr => h.priced r (hperm.mem_iff.1 hr)
  constructor
  · intro hindependent r hr r' hr' hpos hlt
    -- deliver the two reports first, in either order
    have hne : r' ≠ r := by
      rintro rfl
      exact lt_irrefl _ hlt
    have hrising : (r :: r' :: (history.erase r).erase r').Perm history :=
      ((List.perm_cons_erase ((List.mem_erase_of_ne hne).2 hr')).symm.cons r).trans (List.perm_cons_erase hr).symm
    have hfalling : (r' :: r :: (history.erase r).erase r').Perm history := (List.Perm.swap ..).trans hrising
    obtain ⟨hnotional₁, hfee₁⟩ := hindependent _ hrising
    obtain ⟨hnotional₂, hfee₂⟩ := hindependent _ hfalling
    have hnotional := hnotional₁.trans hnotional₂.symm
    have hfee := hfee₁.trans hfee₂.symm
    rw [(hcost _ hrising).1, (hcost _ hfalling).1, recordSum_swap hpos hlt] at hnotional
    rw [(hcost _ hrising).2, (hcost _ hfalling).2, recordSum_swap hpos hlt] at hfee
    obtain ⟨price, hprice⟩ := Option.isSome_iff_exists.1 (h.priced r hr)
    obtain ⟨price', hprice'⟩ := Option.isSome_iff_exists.1 (h.priced r' hr')
    unfold notionalOf at hnotional
    unfold feeOf at hfee
    rw [hprice, hprice', Option.getD_some, Option.getD_some] at hnotional
    have hsame : r.cumulativeFilledQuantity * (price - price') = 0 := by linarith
    rw [mul_eq_zero, or_iff_right hpos.ne', sub_eq_zero] at hsame
    exact ⟨by rw [hprice, hprice', hsame], by linarith⟩
  · intro hone delivered hperm
    rw [(hcost _ hperm).1, (hcost _ hperm).2, (hcost _ (List.Perm.refl _)).1, (hcost _ (List.Perm.refl _)).2]
    refine ⟨recordSum_perm h.quantities (fun r hr r' hr' hpos hlt t => ?_) hperm,
      recordSum_perm h.quantities (fun r hr r' hr' hpos hlt t => ?_) hperm⟩
    · rw [notionalOf, notionalOf, notionalOf, (hone r hr r' hr' hpos hlt).1]
      ring
    · rw [feeOf, feeOf, feeOf, (hone r hr r' hr' hpos hlt).2, zero_add]

/-- Two partial fills of one unit each, the first at 100 with a fee of 1, the second at 110 with a fee of 2. -/
def exampleHistory : List ExecutionReport :=
  [{ reportId := "r1"
     orderId := "o"
     status := .partiallyFilled
     cumulativeFilledQuantity := 1
     lastFillPrice := some 100
     lastFillFee := 1
     exchangeTimestamp := 1 },
   { reportId := "r2"
     orderId := "o"
     status := .filled
     cumulativeFilledQuantity := 2
     lastFillPrice := some 110
     lastFillFee := 2
     exchangeTimestamp := 2 }]

private theorem exampleHistory_filled : FilledHistory "o" exampleHistory := by
  refine ⟨?_, ?_, ?_, ?_, ?_, ?_, ?_⟩ <;> decide +kernel

theorem costIndependent_iff_exampleHistory :
    (({} : LiveExecutionTracker).registerOrder {} "o" "c").CostIndependent exampleHistory ↔
      OnePriceLastFee exampleHistory :=
  costIndependent_iff {} {} "o" "c" exampleHistory exampleHistory_filled (by decide +kernel)

/-- In reverse order the two units cost 220 and a fee of 2, in order 210 and a fee of 3. -/
theorem not_costIndependent_exampleHistory :
    FilledHistory "o" exampleHistory ∧
      ¬ (({} : LiveExecutionTracker).registerOrder {} "o" "c").CostIndependent exampleHistory := by
  refine ⟨exampleHistory_filled, fun h => ?_⟩
  have hsame := (h exampleHistory.reverse (List.reverse_perm _)).1
  revert hsame
  decide +kernel

end LiveExecutionTracker

end Wall
