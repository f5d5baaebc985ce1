import Wall.LiveExecutionTracker
import Wall.Lib.Largest

/-!
# Reconciling execution reports

A report that the tracker does not drop raises its order's filled quantity to the reported cumulative quantity if
that is larger, and emits a fill for the difference; a report that it drops as stale is not larger
(`applyReport_spec`).  So an order's filled quantity is the largest cumulative quantity among the reports that count
for it, and the fills add up to it.
-/

namespace Wall

open KeyedMap Largest

/-- The total quantity of the fills of an order. -/
def filledBy (orderId : String) (fills : List FillEvent) : ℚ :=
  (fills.map fun f => if f.orderId = orderId then f.quantity else 0).sum

@[simp] theorem filledBy_nil (orderId : String) : filledBy orderId [] = 0 := rfl

private theorem filledBy_append (orderId : String) (fills fills' : List FillEvent) :
    filledBy orderId (fills ++ fills') = filledBy orderId fills + filledBy orderId fills' := by
  simp [filledBy]

namespace LiveExecutionTracker

/-! ### One report -/

theorem le_of_stale {state : LocalOrderState} {report : ExecutionReport}
    (h : shouldIgnoreAsStale state report = true) : report.cumulativeFilledQuantity ≤ state.filledQuantity := by
  unfold shouldIgnoreAsStale at h
  split at h
  · rename_i hlt
    exact hlt.le
  · split at h
    · rename_i hold
      exact hold.2.2.2
    · split at h
      · rename_i hterminal
        exact hterminal.2.1
      · cases h

/-- A report that counts raises the filled quantity to the reported one, and the fill is the difference. -/
private theorem advance_spec (tracker : LiveExecutionTracker) (state : LocalOrderState) (report : ExecutionReport) :
    ∃ state', (tracker.advance state report).1.orders = tracker.orders.insert report.orderId state' ∧
      state'.filledQuantity = max report.cumulativeFilledQuantity state.filledQuantity ∧
      (tracker.advance state report).1.processedReportIds = tracker.processedReportIds ∧
      ∀ id, filledBy id (tracker.advance state report).2.fills =
        if report.orderId = id then state'.filledQuantity - state.filledQuantity else 0 := by
  have hle : state.filledQuantity ≤ max report.cumulativeFilledQuantity state.filledQuantity := le_max_right _ _
  by_cases h : max report.cumulativeFilledQuantity state.filledQuantity - state.filledQuantity > 0
  · simp only [advance, h, decide_true, Bool.or_true, ↓reduceIte]
    refine ⟨_, rfl, rfl, trivial, fun id => ?_⟩
    simp [filledBy, deltaFill]
  · have heq : state.filledQuantity = max report.cumulativeFilledQuantity state.filledQuantity := by linarith
    simp only [advance, h, decide_false, Bool.or_false, Bool.false_and, Bool.false_eq_true, ↓reduceIte]
    split
    · exact ⟨_, rfl, heq, rfl, fun id => by simp⟩
    · refine ⟨_, rfl, ?_, rfl, fun id => ?_⟩
      · split
        · exact heq
        · exact heq
      · split <;> split <;> simp

private theorem mem_remember (tracker : LiveExecutionTracker) (report : ExecutionReport) (x : String) :
    x ∈ (tracker.remember report).processedReportIds ↔
      x ∈ tracker.processedReportIds ∨ report.reportId ≠ "" ∧ x = report.reportId := by
  unfold remember
  split
  · rename_i h
    simp [h, or_comm]
  · rename_i h
    simp [h]

theorem remember_orders (tracker : LiveExecutionTracker) (report : ExecutionReport) :
    (tracker.remember report).orders = tracker.orders := by
  unfold remember
  split <;> rfl

/-- A report whose id was processed before. -/
def IsDuplicate (tracker : LiveExecutionTracker) (report : ExecutionReport) : Prop :=
  report.reportId ≠ "" ∧ report.reportId ∈ tracker.processedReportIds

instance (tracker : LiveExecutionTracker) (report : ExecutionReport) : Decidable (tracker.IsDuplicate report) :=
  inferInstanceAs (Decidable (_ ∧ _))

theorem applyReport_of_duplicate {tracker : LiveExecutionTracker} {report : ExecutionReport}
    (h : tracker.IsDuplicate report) : tracker.applyReport report = (tracker, { ignoredDuplicate := true }) := if_pos h

theorem applyReport_of_not_duplicate {tracker : LiveExecutionTracker} {report : ExecutionReport}
    (h : ¬ tracker.IsDuplicate report) :
    tracker.applyReport report =
      match tracker.orders[report.orderId]? with
      | none => (tracker.remember report, { ignoredStale := true })
      | some state =>
        if shouldIgnoreAsStale state report then (tracker.remember report, { ignoredStale := true })
        else (tracker.remember report).advance state report := by
  rw [← remember_orders tracker report]
  exact if_neg h

/-- What a report that is not a duplicate does: it is remembered, orders that are unknown stay so, and an order that
is known steps up to the reported quantity if the report names it, with fills for the step. -/
structure Counts (tracker : LiveExecutionTracker) (report : ExecutionReport) (tracker' : LiveExecutionTracker)
    (fills : List FillEvent) : Prop where
  processed : ∀ x, x ∈ tracker'.processedReportIds ↔
    x ∈ tracker.processedReportIds ∨ report.reportId ≠ "" ∧ x = report.reportId
  unknown : ∀ {id}, tracker.orders[id]? = none → tracker'.orders[id]? = none ∧ filledBy id fills = 0
  known : ∀ {id state}, tracker.orders[id]? = some state →
    ∃ state', tracker'.orders[id]? = some state' ∧
      state'.filledQuantity =
        (if report.orderId = id then max report.cumulativeFilledQuantity state.filledQuantity
          else state.filledQuantity) ∧
      filledBy id fills = state'.filledQuantity - state.filledQuantity

/-- A report of an unknown order or a stale one is remembered and does nothing else. -/
private theorem counts_of_ignored {tracker : LiveExecutionTracker} {report : ExecutionReport}
    (h : ∀ state, tracker.orders[report.orderId]? = some state →
      report.cumulativeFilledQuantity ≤ state.filledQuantity) :
    Counts tracker report (tracker.remember report) [] := by
  refine ⟨mem_remember tracker report, fun {id} hid => ?_, fun {id state} hid => ⟨state, ?_, ?_, ?_⟩⟩
  · rw [remember_orders]
    exact ⟨hid, rfl⟩
  · rw [remember_orders]
    exact hid
  · split
    · rename_i hid'
      subst hid'
      exact (max_eq_right (h state hid)).symm
    · rfl
  · rw [filledBy_nil, sub_self]

private theorem counts_of_advance {tracker : LiveExecutionTracker} {report : ExecutionReport} {state₀ : LocalOrderState}
    (h : tracker.orders[report.orderId]? = some state₀) :
    Counts tracker report ((tracker.remember report).advance state₀ report).1
      ((tracker.remember report).advance state₀ report).2.fills := by
  obtain ⟨state', horders, hfilled, hprocessed, hfills⟩ := advance_spec (tracker.remember report) state₀ report
  rw [remember_orders] at horders
  refine ⟨fun x => ?_, fun {id} hid => ?_, fun {id state} hid => ?_⟩
  · rw [hprocessed]
    exact mem_remember tracker report x
  · have hne : report.orderId ≠ id := by
      rintro rfl
      rw [h] at hid
      cases hid
    rw [horders, KeyedMap.getElem?_insert, if_neg hne, hfills, if_neg hne]
    exact ⟨hid, rfl⟩
  · rw [horders, KeyedMap.getElem?_insert, hfills]
    by_cases hid' : report.orderId = id
    · rw [← hid', h, Option.some.injEq] at hid
      subst hid
      simp only [hid', ↓reduceIte]
      exact ⟨state', rfl, hfilled, rfl⟩
    · simp only [hid', ↓reduceIte]
      exact ⟨state, hid, rfl, (sub_self _).symm⟩

theorem applyReport_spec {tracker : LiveExecutionTracker} {report : ExecutionReport}
    (h : ¬ tracker.IsDuplicate report) :
    Counts tracker report (tracker.applyReport report).1 (tracker.applyReport report).2.fills := by
  rw [applyReport_of_not_duplicate h]
  cases hr : tracker.orders[report.orderId]? with
  | none =>
    refine counts_of_ignored fun state hstate => ?_
    rw [hr] at hstate
    cases hstate
  | some state₀ =>
    dsimp only
    split
    · rename_i hstale
      refine counts_of_ignored fun state hstate => ?_
      rw [hr, Option.some.injEq] at hstate
      subst hstate
      exact le_of_stale hstale
    · exact counts_of_advance hr

/-! ### Runs -/

/-- The reports among the calls. -/
def reportsOf (calls : List TrackerCall) : List ExecutionReport :=
  calls.filterMap fun
    | .applyReport report => some report
    | _ => none

/-- The ids that the calls register. -/
def registeredIds (calls : List TrackerCall) : List String :=
  calls.filterMap fun
    | .registerOrder _ orderId _ => some orderId
    | _ => none

/-- The reports that count for an order registered between `pre` and `post`: those that name it and, if they have an
id, were not delivered before. -/
def lateReports (id : String) (pre post : List TrackerCall) : List ExecutionReport :=
  (reportsOf post).filter fun report =>
    report.orderId = id ∧ (report.reportId = "" ∨ report ∉ reportsOf pre)

/-- Calls that register each order once, restore none, and whose reports with one non-empty id are identical. -/
structure Deliveries (calls : List TrackerCall) : Prop where
  restores_none : ∀ order, .restoreOrder order ∉ calls
  registers_once : (registeredIds calls).Nodup
  identical : ∀ r ∈ reportsOf calls, ∀ r' ∈ reportsOf calls, r.reportId = r'.reportId → r.reportId ≠ "" → r = r'

theorem reportsOf_append (calls calls' : List TrackerCall) :
    reportsOf (calls ++ calls') = reportsOf calls ++ reportsOf calls' := List.filterMap_append

theorem registeredIds_append (calls calls' : List TrackerCall) :
    registeredIds (calls ++ calls') = registeredIds calls ++ registeredIds calls' := List.filterMap_append

private theorem lateReports_append (id : String) (pre post post' : List TrackerCall) :
    lateReports id pre (post ++ post') = lateReports id pre post ++ lateReports id pre post' := by
  rw [lateReports, reportsOf_append, List.filter_append, lateReports, lateReports]

/-- The processed ids are the non-empty ids of the reports delivered. -/
def Remembers (tracker : LiveExecutionTracker) (reports : List ExecutionReport) : Prop :=
  ∀ x, x ∈ tracker.processedReportIds ↔ x ≠ "" ∧ ∃ r ∈ reports, r.reportId = x

theorem Remembers.step {tracker : LiveExecutionTracker} {reports : List ExecutionReport}
    (h : tracker.Remembers reports) (call : TrackerCall) :
    (machine.step tracker call).1.Remembers (reports ++ reportsOf [call]) := by
  cases call with
  | registerOrder =>
    show tracker.Remembers (reports ++ [])
    rwa [List.append_nil]
  | restoreOrder =>
    show tracker.Remembers (reports ++ [])
    rwa [List.append_nil]
  | applyReport report =>
    intro x
    have hreports : reportsOf [.applyReport report] = [report] := rfl
    show x ∈ (tracker.applyReport report).1.processedReportIds ↔ _
    rw [hreports]
    by_cases hd : tracker.IsDuplicate report
    · rw [applyReport_of_duplicate hd, h x]
      constructor
      · rintro ⟨hx, r, hr, hid⟩
        exact ⟨hx, r, List.mem_append_left _ hr, hid⟩
      · rintro ⟨hx, r, hr, hid⟩
        rcases List.mem_append.1 hr with hr | hr
        · exact ⟨hx, r, hr, hid⟩
        · rw [List.mem_singleton] at hr
          rw [← hid, hr]
          exact (h _).1 hd.2
    · rw [(applyReport_spec hd).processed x, h x]
      constructor
      · rintro (⟨hx, r, hr, hid⟩ | ⟨hne, rfl⟩)
        · exact ⟨hx, r, List.mem_append_left _ hr, hid⟩
        · exact ⟨hne, report, List.mem_append_right _ (List.mem_singleton_self _), rfl⟩
      · rintro ⟨hx, r, hr, hid⟩
        rcases List.mem_append.1 hr with hr | hr
        · exact .inl ⟨hx, r, hr, hid⟩
        · rw [List.mem_singleton] at hr
          subst hr
          exact .inr ⟨hid ▸ hx, hid.symm⟩

/-- The fills of an order among the results. -/
def emitted (id : String) (results : List ReconciliationResult) : ℚ :=
  filledBy id (results.flatMap ReconciliationResult.fills)

theorem emitted_concat (id : String) (results : List ReconciliationResult) (result : ReconciliationResult) :
    emitted id (results ++ [result]) = emitted id results + filledBy id result.fills := by
  simp [emitted, filledBy_append]

theorem registeredIds_not_mem {id : String} {calls : List TrackerCall} (h : id ∉ registeredIds calls)
    {request : OrderRequest} {clientOrderId : String} : .registerOrder request id clientOrderId ∉ calls :=
  fun hmem => h (List.mem_filterMap.2 ⟨_, hmem, rfl⟩)

theorem machine_registerOrder (tracker : LiveExecutionTracker) (request : OrderRequest)
    (orderId clientOrderId id : String) :
    (machine.step tracker (.registerOrder request orderId clientOrderId)).1.orders[id]? =
      if orderId = id then
        some { request := request, orderId := orderId, clientOrderId := clientOrderId, status := .pendingSubmit }
      else tracker.orders[id]? := KeyedMap.getElem?_insert ..

/-- Before an order is registered it is unknown and has no fills. -/
private theorem run_before_registration {id : String} {pre : List TrackerCall}
    (hrestore : ∀ order, .restoreOrder order ∉ pre) (hid : id ∉ registeredIds pre) :
    (machine.run {} pre).Remembers (reportsOf pre) ∧ (machine.run {} pre).orders[id]? = none ∧
      emitted id (machine.outputs {} pre) = 0 := by
  have hok : machine.Admissible (fun _ c => c ∈ pre) {} pre := Machine.admissible_of_forall (fun _ hc _ => hc) _
  refine Machine.invariant_history (P := fun calls tracker results => tracker.Remembers (reportsOf calls) ∧
    tracker.orders[id]? = none ∧ emitted id results = 0) ?_ hok ⟨fun x => by simp [reportsOf], by simp, rfl⟩
  rintro calls tracker results call hcall ⟨hremember, hnone, hzero⟩
  rw [reportsOf_append, emitted_concat, hzero]
  refine ⟨hremember.step call, ?_⟩
  cases call with
  | registerOrder request orderId clientOrderId =>
    have hne : orderId ≠ id := by
      rintro rfl
      exact registeredIds_not_mem hid hcall
    exact ⟨by rw [machine_registerOrder, if_neg hne, hnone], add_zero 0⟩
  | restoreOrder order => exact absurd hcall (hrestore order)
  | applyReport report =>
    show (tracker.applyReport report).1.orders[id]? = none ∧ 0 + filledBy id (tracker.applyReport report).2.fills = 0
    by_cases hd : tracker.IsDuplicate report
    · rw [applyReport_of_duplicate hd]
      exact ⟨hnone, add_zero 0⟩
    · obtain ⟨hnone', hfills⟩ := (applyReport_spec hd).unknown hnone
      rw [hfills]
      exact ⟨hnone', add_zero 0⟩

/-- What holds of an order registered after `pre`, when `post` has been read since. -/
structure Counted (id : String) (pre post : List TrackerCall) (tracker : LiveExecutionTracker)
    (emittedFills : ℚ) : Prop where
  remembers : tracker.Remembers (reportsOf pre ++ reportsOf post)
  state : ∃ state, tracker.orders[id]? = some state ∧ emittedFills = state.filledQuantity ∧
    state.filledQuantity = largest 0 ((lateReports id pre post).map ExecutionReport.cumulativeFilledQuantity)

/-- A call that leaves the order as it is and delivers no report that counts for it. -/
private theorem Counted.idle {id : String} {pre post : List TrackerCall} {tracker tracker' : LiveExecutionTracker}
    {emittedFills : ℚ} (h : Counted id pre post tracker emittedFills) {call : TrackerCall}
    (hremembers : tracker'.Remembers (reportsOf pre ++ reportsOf (post ++ [call])))
    (horders : tracker'.orders[id]? = tracker.orders[id]?)
    (hlate : lateReports id pre [call] ⊆ lateReports id pre post) :
    Counted id pre (post ++ [call]) tracker' emittedFills := by
  obtain ⟨state, hstate, hemitted, hfilled⟩ := h.state
  refine ⟨hremembers, state, horders.trans hstate, hemitted, ?_⟩
  rw [hfilled, lateReports_append]
  refine largest_congr fun q => ?_
  rw [List.map_append, List.mem_append]
  constructor
  · exact .inl
  · rintro (hq | hq)
    · exact hq
    · exact List.map_subset _ hlate hq

/-- A duplicate is the report that was delivered before, so it counts only if it counted then. -/
private theorem lateReports_duplicate {id : String} {pre post : List TrackerCall} {report : ExecutionReport}
    (hmem : report ∈ reportsOf pre ++ reportsOf post) (hid : report.reportId ≠ "") :
    lateReports id pre [.applyReport report] ⊆ lateReports id pre post := by
  intro r hr
  obtain ⟨hr, hlate⟩ := List.mem_filter.1 hr
  obtain rfl : r = report := List.mem_singleton.1 hr
  refine List.mem_filter.2 ⟨?_, hlate⟩
  rcases List.mem_append.1 hmem with hpre | hpost
  · simp [hid, hpre] at hlate
  · exact hpost

private theorem lateReports_fresh {id : String} {pre : List TrackerCall} {report : ExecutionReport}
    (h : report.reportId = "" ∨ report ∉ reportsOf pre) :
    lateReports id pre [.applyReport report] = if report.orderId = id then [report] else [] := by
  split
  · rename_i hid
    refine List.filter_eq_self.2 fun r hr => ?_
    rw [List.mem_singleton.1 hr]
    exact decide_eq_true ⟨hid, h⟩
  · rename_i hid
    simp [lateReports, reportsOf, hid]

/-- A report with an unseen id, or with none, counts for the order that it names. -/
theorem Counted.fresh {id : String} {pre post : List TrackerCall} {tracker tracker' : LiveExecutionTracker}
    {emittedFills : ℚ} (h : Counted id pre post tracker emittedFills) {report : ExecutionReport}
    {fills : List FillEvent}
    (hremembers : tracker'.Remembers (reportsOf pre ++ reportsOf (post ++ [.applyReport report])))
    (hnew : ¬ tracker.IsDuplicate report)
    (hcounts : Counts tracker report tracker' fills) :
    Counted id pre (post ++ [.applyReport report]) tracker' (emittedFills + filledBy id fills) := by
  obtain ⟨state, hstate, hemitted, hfilled⟩ := h.state
  obtain ⟨state', hstate', hfilled', hfills⟩ := hcounts.known hstate
  have hlate : report.reportId = "" ∨ report ∉ reportsOf pre := by
    by_cases hne : report.reportId = ""
    · exact .inl hne
    · refine .inr fun hpre => hnew ⟨hne, (h.remembers _).2 ⟨hne, report, List.mem_append_left _ hpre, rfl⟩⟩
  refine ⟨hremembers, state', hstate', ?_, ?_⟩
  · rw [hemitted, hfills]
    ring
  · rw [hfilled', hfilled, lateReports_append, lateReports_fresh hlate, List.map_append]
    split
    · rw [List.map_singleton, largest_concat]
    · rw [List.map_nil, List.append_nil]

theorem Counted.step {id : String} {pre post : List TrackerCall} {tracker : LiveExecutionTracker} {emittedFills : ℚ}
    (h : Counted id pre post tracker emittedFills) {call : TrackerCall}
    (hregister : ∀ request clientOrderId, call ≠ .registerOrder request id clientOrderId)
    (hrestore : ∀ order, call ≠ .restoreOrder order)
    (hsame : ∀ r ∈ reportsOf [call], ∀ r' ∈ reportsOf pre ++ reportsOf post, r'.reportId = r.reportId →
      r.reportId ≠ "" → r' = r) :
    Counted id pre (post ++ [call]) (machine.step tracker call).1
      (emittedFills + filledBy id (machine.step tracker call).2.fills) := by
  have hremembers : (machine.step tracker call).1.Remembers (reportsOf pre ++ reportsOf (post ++ [call])) := by
    rw [reportsOf_append, ← List.append_assoc]
    exact h.remembers.step call
  cases call with
  | registerOrder request orderId clientOrderId =>
    have hne : orderId ≠ id := by
      rintro rfl
      exact hregister _ _ rfl
    have hfills : filledBy id (machine.step tracker (.registerOrder request orderId clientOrderId)).2.fills = 0 := rfl
    rw [hfills, add_zero]
    refine h.idle hremembers ?_ (List.nil_subset _)
    rw [machine_registerOrder, if_neg hne]
  | restoreOrder order => exact absurd rfl (hrestore order)
  | applyReport report =>
    by_cases hd : tracker.IsDuplicate report
    · obtain ⟨-, r, hr, hrid⟩ := (h.remembers _).1 hd.2
      obtain rfl := hsame report (List.mem_singleton_self _) r hr hrid hd.1
      have hstep : machine.step tracker (.applyReport r) = tracker.applyReport r := rfl
      rw [hstep] at hremembers ⊢
      have hfills : filledBy id (tracker.applyReport r).2.fills = 0 := by
        rw [applyReport_of_duplicate hd]
        rfl
      rw [hfills, add_zero]
      refine h.idle hremembers ?_ (lateReports_duplicate hr hd.1)
      rw [applyReport_of_duplicate hd]
    · exact h.fresh hremembers hd (applyReport_spec hd)

/-- The calls after a registration, on a run that delivers identical reports under one id. -/
private theorem run_after_registration {pre post : List TrackerCall} {request : OrderRequest}
    {id clientOrderId : String} (h : Deliveries (pre ++ .registerOrder request id clientOrderId :: post)) :
    Counted id pre post (machine.run {} (pre ++ .registerOrder request id clientOrderId :: post))
      (emitted id (machine.outputs {} (pre ++ .registerOrder request id clientOrderId :: post))) := by
  have honce := h.registers_once
  rw [registeredIds_append, List.nodup_append] at honce
  obtain ⟨-, hpost, hdisjoint⟩ := honce
  have hid : id ∉ registeredIds pre := fun hmem => hdisjoint _ hmem _ (List.mem_cons_self ..) rfl
  have hid' : id ∉ registeredIds post := (List.nodup_cons.1 hpost).1
  obtain ⟨hremembers, -, hzero⟩ :=
    run_before_registration (fun order hmem => h.restores_none order (List.mem_append_left _ hmem)) hid
  set start := (machine.step (machine.run {} pre) (.registerOrder request id clientOrderId)).1 with hstart
  have hrun : machine.run {} (pre ++ .registerOrder request id clientOrderId :: post) = machine.run start post := by
    rw [Machine.run_append, Machine.run_cons]
  have houtputs : emitted id (machine.outputs {} (pre ++ .registerOrder request id clientOrderId :: post)) =
      emitted id (machine.outputs start post) := by
    rw [Machine.outputs_append, Machine.outputs_cons, emitted, List.flatMap_append, filledBy_append, ← emitted, hzero,
      zero_add]
    rfl
  -- the induction starts at the registration, with no report counted yet
  have hbegin : Counted id pre [] start 0 := by
    refine ⟨?_, { request := request, orderId := id, clientOrderId := clientOrderId, status := .pendingSubmit }, ?_,
      rfl, rfl⟩
    · rw [show reportsOf [] = [] from rfl, List.append_nil]
      exact hremembers
    · rw [hstart, machine_registerOrder, if_pos rfl]
  have hok : machine.Admissible (fun _ c => c ∈ post) start post := Machine.admissible_of_forall (fun _ hc _ => hc) _
  rw [hrun, houtputs]
  refine (Machine.invariant_history (P := fun calls tracker results => calls ⊆ post ∧
    Counted id pre calls tracker (emitted id results)) ?_ hok ⟨List.nil_subset _, hbegin⟩).2
  rintro calls tracker results call hcall ⟨hsub, hcounted⟩
  refine ⟨List.append_subset.2 ⟨hsub, List.cons_subset.2 ⟨hcall, List.nil_subset _⟩⟩, ?_⟩
  rw [emitted_concat]
  have hmem : ∀ {c}, c ∈ post → c ∈ pre ++ .registerOrder request id clientOrderId :: post :=
    fun hc => List.mem_append_right _ (List.mem_cons_of_mem _ hc)
  -- no later call registers the id again or restores an order, and reports with one id are one report
  refine hcounted.step ?_ ?_ ?_
  · rintro request' clientOrderId' rfl
    exact registeredIds_not_mem hid' hcall
  · rintro order rfl
    exact h.restores_none order (hmem hcall)
  · intro r hr r' hr' hids hne
    have hreports : ∀ {calls' : List TrackerCall} {q}, calls' ⊆ pre ++ .registerOrder request id clientOrderId :: post →
        q ∈ reportsOf calls' → q ∈ reportsOf (pre ++ .registerOrder request id clientOrderId :: post) := by
      intro calls' q hsub' hq
      obtain ⟨c, hc, hcq⟩ := List.mem_filterMap.1 hq
      exact List.mem_filterMap.2 ⟨c, hsub' hc, hcq⟩
    refine h.identical r' ?_ r (hreports (List.cons_subset.2 ⟨hmem hcall, List.nil_subset _⟩) hr) hids (hids ▸ hne)
    rcases List.mem_append.1 hr' with hr' | hr'
    · exact hreports (List.subset_append_left _ _) hr'
    · exact hreports (fun c hc => hmem (hsub hc)) hr'

theorem filled_after_registration {pre post : List TrackerCall} {request : OrderRequest} {id clientOrderId : String}
    (h : Deliveries (pre ++ .registerOrder request id clientOrderId :: post)) :
    ((machine.run {} (pre ++ .registerOrder request id clientOrderId :: post)).getOrder id).map
        OrderRecord.filledQuantity =
      some (largest 0 ((lateReports id pre post).map ExecutionReport.cumulativeFilledQuantity)) ∧
    emitted id (machine.outputs {} (pre ++ .registerOrder request id clientOrderId :: post)) =
      largest 0 ((lateReports id pre post).map ExecutionReport.cumulativeFilledQuantity) := by
  obtain ⟨-, state, hstate, hemitted, hfilled⟩ := run_after_registration h
  refine ⟨?_, hemitted.trans hfilled⟩
  rw [getOrder, hstate]
  exact congrArg some hfilled

/-- Of an order registered once, in any run of deliveries, the filled quantity is the largest cumulative quantity of
the reports that count for it, or zero, and the fills emitted for it add up to exactly that.  So two runs with the
same reports counting, whatever their order and repetitions, agree on both. -/
theorem filled_is_largest_report (pre post : List TrackerCall) (request : OrderRequest) (id clientOrderId : String)
    (h : Deliveries (pre ++ .registerOrder request id clientOrderId :: post)) :
    let calls := pre ++ .registerOrder request id clientOrderId :: post
    let filled := largest 0 ((lateReports id pre post).map ExecutionReport.cumulativeFilledQuantity)
    ((machine.run {} calls).getOrder id).map OrderRecord.filledQuantity = some filled ∧
    emitted id (machine.outputs {} calls) = filled ∧
    ∀ pre' post' request' clientOrderId', Deliveries (pre' ++ .registerOrder request' id clientOrderId' :: post') →
      (∀ r, r ∈ lateReports id pre' post' ↔ r ∈ lateReports id pre post) →
      let calls' := pre' ++ .registerOrder request' id clientOrderId' :: post'
      ((machine.run {} calls').getOrder id).map OrderRecord.filledQuantity =
          ((machine.run {} calls).getOrder id).map OrderRecord.filledQuantity ∧
        emitted id (machine.outputs {} calls') = emitted id (machine.outputs {} calls) := by
  intro calls filled
  obtain ⟨hrecord, hemitted⟩ := filled_after_registration h
  refine ⟨hrecord, hemitted, fun pre' post' request' clientOrderId' h' hsame => ?_⟩
  intro calls'
  obtain ⟨hrecord', hemitted'⟩ := filled_after_registration h'
  have hlargest : largest 0 ((lateReports id pre' post').map ExecutionReport.cumulativeFilledQuantity) = filled := by
    refine largest_congr fun x => ?_
    simp only [List.mem_map, hsame]
  rw [hlargest] at hrecord' hemitted'
  exact ⟨hrecord'.trans hrecord.symm, hemitted'.trans hemitted.symm⟩

/-- An early report, two reports out of order and a redelivery: the early one never counts. -/
theorem filled_is_largest_report_exampleRun :
    let early : ExecutionReport := { reportId := "r0", orderId := "o", cumulativeFilledQuantity := 5 }
    let part : ExecutionReport := { reportId := "r1", orderId := "o", cumulativeFilledQuantity := 1 }
    let full : ExecutionReport := { reportId := "r2", orderId := "o", cumulativeFilledQuantity := 3 }
    let post : List TrackerCall := [.applyReport full, .applyReport part, .applyReport early, .applyReport full]
    let calls : List TrackerCall := [.applyReport early] ++ .registerOrder {} "o" "c" :: post
    Deliveries calls ∧
      emitted "o" (machine.outputs {} calls) =
        largest 0 ((lateReports "o" [.applyReport early] post).map ExecutionReport.cumulativeFilledQuantity) := by
  intro early part full post calls
  have h : Deliveries calls := by
    refine ⟨fun order hmem => ?_, by decide, by decide +kernel⟩
    simp [calls, post] at hmem
  exact ⟨h, (filled_is_largest_report _ post {} "o" "c" h).2.1⟩

end LiveExecutionTracker

end Wall
