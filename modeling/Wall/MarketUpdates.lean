import Wall.RepositoryMirror
import Wall.StoredFills

/-!
# What the result of a market event says

The fills of a market event and its updates are collected apart: a fill for each execution, and one update for each
order that was touched.  The fills of an order add up to what its record gained, up to the tolerance that a fill
which completes the order leaves out (`Executes.accounts`), and the update says what the record says after the event.
Fill numbers are never given twice (`outputs_numbered`).
-/

namespace Wall

open KeyedMap

/-- The total of the executions of one order. -/
def executedOf (id : String) (es : List Execution) : ℚ :=
  executedQuantity (es.filter fun e => decide (e.resting.orderId = id))

private theorem executedOf_cons (id : String) (e : Execution) (es : List Execution) :
    executedOf id (e :: es) = (if e.resting.orderId = id then e.quantity else 0) + executedOf id es := by
  by_cases hid : e.resting.orderId = id
  · simp [executedOf, hid]
  · simp [executedOf, hid]

private theorem executedOf_of_forall_ne {id : String} {es : List Execution} (h : ∀ e ∈ es, e.resting.orderId ≠ id) :
    executedOf id es = 0 := by
  have hnone : es.filter (fun e => decide (e.resting.orderId = id)) = [] :=
    List.filter_eq_nil_iff.2 fun e he => by simpa using h e he
  rw [executedOf, hnone, executedQuantity_nil]

/-- The record gained what was executed, and at most the tolerance more if it is filled. -/
structure OrderRecord.Gains (r r' : OrderRecord) (executed : ℚ) : Prop where
  le : executed ≤ r'.filledQuantity - r.filledQuantity
  le_add : r'.filledQuantity - r.filledQuantity ≤ executed + kQuantityTolerance
  eq_of_not_filled : r'.status ≠ .filled → r'.filledQuantity - r.filledQuantity = executed

theorem OrderRecord.Gains.refl (r : OrderRecord) : r.Gains r 0 := by
  have htol := kQuantityTolerance_pos
  exact ⟨by linarith, by linarith, fun _ => sub_self _⟩

/-- A chain gains each record what it executes of the order. -/
theorem Executes.gains {except : Option String} {book book' : OrderBook} {orders orders' : StringMap OrderRecord}
    {es : List Execution} (h : Executes book orders es book' orders') (hs : Synced except book orders)
    (hok : RecordsOk orders) : ∀ (id : String) (r : OrderRecord), orders[id]? = some r →
      ∃ r', orders'[id]? = some r' ∧ r.Gains r' (executedOf id es) := by
  refine h.tail_induction (P := fun orders es orders' => ∀ (id : String) (r : OrderRecord), orders[id]? = some r →
    ∃ r', orders'[id]? = some r' ∧ r.Gains r' (executedOf id es)) hs hok rfl (fun _ id r hr => ⟨r, hr, .refl r⟩) ?_
  intro orders r₀ e es book book' orders' hr₀ hrec _ _ hpos hle hs₁ hok₁ htail ih id r hr
  have hremaining := hrec.remaining_eq
  have hrecord : fillRecord r₀ e.quantity = _ := fillRecord_eq (by linarith)
  rw [executedOf_cons]
  by_cases hid : e.resting.orderId = id
  · subst hid
    rw [hr₀, Option.some.injEq] at hr
    subst hr
    rw [if_pos rfl]
    have hhead : (orders.insert e.resting.orderId (fillRecord r₀ e.quantity))[e.resting.orderId]? =
        some (fillRecord r₀ e.quantity) := by rw [KeyedMap.getElem?_insert, if_pos rfl]
    by_cases hcompletes : r₀.quantity - r₀.filledQuantity - e.quantity ≤ kQuantityTolerance
    · -- the order is filled, so nothing more of it is executed
      rw [if_pos hcompletes] at hrecord
      have hlast : ∀ e' ∈ es, e'.resting.orderId ≠ e.resting.orderId := by
        intro e' he' hsame
        obtain ⟨r, hr, hopen, -⟩ := htail.record_of_executed hs₁ hok₁ e' he'
        rw [hsame, hhead, Option.some.injEq, hrecord] at hr
        rw [← hr] at hopen
        cases hopen
      refine ⟨fillRecord r₀ e.quantity, ?_, ?_⟩
      · rw [htail.getElem?_of_not_executed hs₁ hok₁ _ hlast, hhead]
      · rw [executedOf_of_forall_ne hlast, add_zero, hrecord]
        exact ⟨by dsimp only; linarith, by dsimp only; linarith, fun hst => absurd rfl hst⟩
    · rw [if_neg hcompletes] at hrecord
      obtain ⟨r', hr', hgains⟩ := ih _ _ hhead
      rw [hrecord] at hgains
      have hle' := hgains.le
      have hadd := hgains.le_add
      dsimp only at hle' hadd
      refine ⟨r', hr', by linarith, by linarith, fun hst => ?_⟩
      have heq := hgains.eq_of_not_filled hst
      dsimp only at heq
      linarith
  · rw [if_neg hid, zero_add]
    exact ih id r (by rw [KeyedMap.getElem?_insert, if_neg hid]; exact hr)

/-! ### The fills and the updates -/

/-- The total of the fills of one order. -/
def filledOf (id : String) (fills : List FillEvent) : ℚ :=
  ((fills.filter fun fill => decide (fill.orderId = id)).map FillEvent.quantity).sum

theorem filledOf_cons (id : String) (fill : FillEvent) (fills : List FillEvent) :
    filledOf id (fill :: fills) = (if fill.orderId = id then fill.quantity else 0) + filledOf id fills := by
  by_cases hid : fill.orderId = id
  · simp [filledOf, hid]
  · simp [filledOf, hid]

theorem MarketRun.filledOf_eq {event : MarketEvent} {book : OrderBook} {orders : StringMap OrderRecord}
    {loop : FillLoop} {stops : List LoopStop} {es : List Execution} (h : MarketRun event book orders loop stops es)
    (id : String) : filledOf id loop.fills = executedOf id es := by
  have hof := h.fills_of
  clear h
  generalize loop.fills = fills at hof ⊢
  induction hof with
  | nil => rfl
  | @cons e fill es fills hfill _ ih =>
    obtain ⟨level, n, rfl⟩ := hfill
    rw [filledOf_cons, executedOf_cons, ih]
    rfl

private theorem MarketRun.exists_fill_iff {event : MarketEvent} {book : OrderBook} {orders : StringMap OrderRecord}
    {loop : FillLoop} {stops : List LoopStop} {es : List Execution} (h : MarketRun event book orders loop stops es)
    (id : String) : (∃ fill ∈ loop.fills, fill.orderId = id) ↔ ∃ e ∈ es, e.resting.orderId = id := by
  have hids : (es.map fun e => e.resting.orderId) = loop.fills.map FillEvent.orderId := by
    refine forall₂_map_eq h.fills_of ?_
    rintro e fill ⟨level, n, rfl⟩
    rfl
  rw [← List.mem_map, ← hids, List.mem_map]

/-- The updates of one of distinct orders. -/
private theorem filter_updates {updates : String → List OrderUpdate} {ids : List String} (hnodup : ids.Nodup)
    (hupdates : ∀ id ∈ ids, ∀ u ∈ updates id, u.orderId = id) {id : String} (hid : id ∈ ids) :
    (ids.flatMap updates).filter (fun u => decide (u.orderId = id)) = updates id := by
  obtain ⟨before, after, rfl⟩ := List.append_of_mem hid
  rw [List.nodup_middle, List.nodup_cons] at hnodup
  have hother : ∀ l : List String, (∀ i ∈ l, i ∈ before ++ after) →
      (l.flatMap updates).filter (fun u => decide (u.orderId = id)) = [] := by
    intro l hl
    refine List.filter_eq_nil_iff.2 fun u hu hname => ?_
    obtain ⟨i, hi, hu⟩ := List.mem_flatMap.1 hu
    have hiu := hupdates i (List.mem_append.2 ((List.mem_append.1 (hl i hi)).imp_right (List.mem_cons_of_mem id))) u hu
    exact hnodup.1 (hiu.symm.trans (of_decide_eq_true hname) ▸ hl i hi)
  have hown : (updates id).filter (fun u => decide (u.orderId = id)) = updates id :=
    List.filter_eq_self.2 fun u hu => decide_eq_true (hupdates id hid u hu)
  rw [List.flatMap_append, List.flatMap_cons, List.filter_append, List.filter_append, hown,
    hother before fun i hi => List.mem_append_left _ hi, hother after fun i hi => List.mem_append_right _ hi,
    List.nil_append, List.append_nil]

private theorem RecordsOk.updateOf {orders : StringMap OrderRecord} (h : RecordsOk orders) {id : String} :
    ∀ u ∈ MatchingEngine.appendOrderUpdate orders id, u.orderId = id := by
  intro u hu
  unfold MatchingEngine.appendOrderUpdate at hu
  split at hu
  · cases hu
  · rename_i r hr
    rw [List.mem_singleton.1 hu]
    exact (h id r hr).orderId_eq

namespace MatchingEngine

/-- What a market event returns about an order that it filled: one update, which says what the record says, and fills
that add up to what the record gained. -/
def Reports (engine : MatchingEngine) (next : MatchingEngine × ExecutionResult) (id : String) : Prop :=
  ∃ r r', engine.getOrder id = some r ∧ next.1.getOrder id = some r' ∧
    next.2.updates.filter (fun u => decide (u.orderId = id)) =
      [makeUpdate id r'.clientOrderId r'.status r'.filledQuantity none] ∧
    r.Gains r' (filledOf id next.2.fills)

theorem Sync.reports {engine : MatchingEngine} (h : engine.Sync) (event : MarketEvent) {id : String}
    (hid : ∃ fill ∈ (engine.processMarketEvent event).2.fills, fill.orderId = id) :
    engine.Reports (engine.processMarketEvent event) id := by
  rcases processMarketEvent_spec h.booksOk event with heq | ⟨book, es, hbook, hrun, heq⟩
  · rw [heq] at hid
    obtain ⟨fill, hfill, -⟩ := hid
    exact absurd hfill List.not_mem_nil
  · have hs := h.synced _ book hbook
    obtain ⟨-, hok⟩ := hrun.executes.synced hs h.records
    rw [heq] at hid ⊢
    obtain ⟨e, he, rfl⟩ := (hrun.exists_fill_iff id).1 hid
    obtain ⟨r, hr, -⟩ := hrun.executes.record_of_executed hs h.records e he
    obtain ⟨r', hr', hgains⟩ := hrun.executes.gains hs h.records _ r hr
    refine ⟨r, r', hr, hr', ?_, by rw [hrun.filledOf_eq]; exact hgains⟩
    -- each touched id is there once after the sort
    have htouched : e.resting.orderId ∈ ((es.map fun e => e.resting.orderId).insertionSort (· ≤ ·)).dedup := by
      rw [List.mem_dedup, List.mem_insertionSort]
      exact List.mem_map_of_mem he
    have hupdate : appendOrderUpdate (engine.marketLoops event book).1.orders e.resting.orderId =
        [makeUpdate e.resting.orderId r'.clientOrderId r'.status r'.filledQuantity none] := by
      simp only [appendOrderUpdate, hr', (hok _ r' hr').orderId_eq]
    exact (filter_updates (List.nodup_dedup _) (fun _ _ => hok.updateOf) htouched).trans hupdate

/-- An order without a fill has no update, and its record does not change. -/
private theorem Sync.unfilled {engine : MatchingEngine} (h : engine.Sync) (event : MarketEvent) {id : String}
    (hid : ∀ fill ∈ (engine.processMarketEvent event).2.fills, fill.orderId ≠ id) :
    (∀ u ∈ (engine.processMarketEvent event).2.updates, u.orderId ≠ id) ∧
      (engine.processMarketEvent event).1.getOrder id = engine.getOrder id := by
  have hnone : ∀ u ∈ (engine.processMarketEvent event).2.updates, u.orderId ≠ id := by
    rcases processMarketEvent_spec h.booksOk event with heq | ⟨book, es, hbook, hrun, heq⟩
    · rw [heq]
      exact fun u hu => absurd hu List.not_mem_nil
    · obtain ⟨-, hok⟩ := hrun.executes.synced (h.synced _ book hbook) h.records
      rw [heq] at hid ⊢
      intro u hu hu'
      obtain ⟨i, hi, hu⟩ := List.mem_flatMap.1 hu
      rw [List.mem_dedup, List.mem_insertionSort] at hi
      have hname : i = id := (hok.updateOf u hu).symm.trans hu'
      obtain ⟨fill, hfill, hid'⟩ := (hrun.exists_fill_iff id).2 (List.mem_map.1 (hname ▸ hi))
      exact hid fill hfill hid'
  exact ⟨hnone, (market_updates h event).2 id hnone⟩

/-! ### The numbers of the fills -/

private theorem step_numbered (engine : MatchingEngine) (op : EngineOp) : Numbered engine.nextFillId
    (machine.step engine op).1.nextFillId (machine.step engine op).2.fills := by
  cases op with
  | submit request => exact engine.submit_numbered request
  | processMarketEvent event => exact engine.market_numbered event
  | cancel orderId clientOrderId =>
    show Numbered engine.nextFillId (engine.cancel orderId clientOrderId).1.nextFillId
      (engine.cancel orderId clientOrderId).2.fills
    unfold cancel
    dsimp only
    split
    · exact .nil _
    · split
      · exact .nil _
      · split <;> exact .nil _
  | restoreOpenOrder orderId clientOrderId request filledQuantity =>
    show Numbered engine.nextFillId
      (engine.restoreOpenOrder orderId clientOrderId request filledQuantity).nextFillId []
    unfold restoreOpenOrder
    split
    · exact .nil _
    · split
      · exact .nil _
      · split <;> exact .nil _

/-- The fills of a run are numbered one by one. -/
theorem outputs_numbered (engine : MatchingEngine) (ops : List EngineOp) : Numbered engine.nextFillId
    (machine.run engine ops).nextFillId ((machine.outputs engine ops).flatMap ExecutionResult.fills) := by
  induction ops generalizing engine with
  | nil => exact .nil _
  | cons op ops ih => exact (engine.step_numbered op).append (ih _)

/-- In every state that calls with fresh restores reach, the result of `process_market_event` accounts for what it did
to the records: each order with a fill has one update, with the state of its record, and its fills add up to what the
record gained (up to the tolerance if it is filled); the other orders have no update and keep their records; and no
fill id was ever given before. -/
theorem market_result_accounts (ops : List EngineOp) (event : MarketEvent) (h : RestoresFresh {} ops) :
    let engine := machine.run {} ops
    let next := engine.processMarketEvent event
    (∀ id, (∃ fill ∈ next.2.fills, fill.orderId = id) → engine.Reports next id) ∧
    (∀ id, (∀ fill ∈ next.2.fills, fill.orderId ≠ id) →
      (∀ u ∈ next.2.updates, u.orderId ≠ id) ∧ next.1.getOrder id = engine.getOrder id) ∧
    (((machine.outputs {} ops).flatMap ExecutionResult.fills ++ next.2.fills).map FillEvent.fillId).Nodup := by
  intro engine next
  have hsync := h.sync
  have hnumbered := (outputs_numbered {} ops).append (engine.market_numbered event)
  exact ⟨fun id hid => hsync.reports event hid, fun id hid => hsync.unfilled event hid, hnumbered.nodup⟩

/-- Two resting buys and a level that fills one of them and half of the other. -/
def exampleBids : List EngineOp := [.submit (exampleRequest .buy 1 101), .submit (exampleRequest .buy 2 100)]

def exampleAskLevel : MarketEvent where
  instrument := (exampleRequest .buy 1 101).instrument
  askLevels := [{ price := 100, quantity := 2 }]

theorem market_result_accounts_exampleBids : RestoresFresh {} exampleBids ∧
    (machine.run {} exampleBids).Reports ((machine.run {} exampleBids).processMarketEvent exampleAskLevel)
      "match-order-2" := by
  have hfresh : RestoresFresh {} exampleBids := restoresFresh_of_isRestore (by decide)
  exact ⟨hfresh, (market_result_accounts exampleBids exampleAskLevel hfresh).1 "match-order-2" (by decide +kernel)⟩

end MatchingEngine

end Wall
