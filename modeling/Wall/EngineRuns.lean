import Wall.EngineInvariant
import Wall.Lib.Decimal

/-!
# Runs of the matching engine

A run may restore orders as long as no restored id is tracked at that moment or issued by a later `submit`
(`RestoresFresh`).  Along such a run every new order takes an untracked id, so every call keeps the invariant
(`Sync.step`), and in every state reached the books and the records agree (`reachable_engine_consistent`).
-/

namespace Wall

open KeyedMap

/-- The id under which a call tracks a new order. -/
def EngineOp.newId (engine : MatchingEngine) : EngineOp → Option String
  | .submit _ => some engine.issuedOrderId
  | .restoreOpenOrder orderId _ _ _ => some orderId
  | _ => none

def EngineOp.isRestore : EngineOp → Bool
  | .restoreOpenOrder _ _ _ _ => true
  | _ => false

/-- The call does not reuse the id of a tracked order. -/
def EngineOp.Fresh (engine : MatchingEngine) (op : EngineOp) : Prop :=
  ∀ id, op.newId engine = some id → engine.orders[id]? = none

namespace MatchingEngine

/-! ### One call -/

theorem Submitted.sameOutside {engine : MatchingEngine} {request : OrderRequest} {es : List Execution}
    {fills : List FillEvent} (h : engine.Submitted request es fills)
    (hnew : engine.orders[engine.issuedOrderId]? = none) (hb : BooksOk engine.books) :
    SameOutside request.instrument.instrumentId engine.orders (engine.accepted request).orders := by
  have htrack : SameOutside request.instrument.instrumentId engine.orders
      (engine.track request .acknowledged).orders := by
    rw [track_orders]
    exact SameOutside.insert_new rfl hnew
  have hchain := h.run.executes.sameOutside h.before.1 h.before.2
  have hinst : (engine.submitStart request).book.instrument.instrumentId = request.instrument.instrumentId :=
    (bookFor_ok hb request.instrument).2
  rw [hinst] at hchain
  rw [accepted_orders]
  refine htrack.trans (hchain.trans (SameOutside.insert (finalRecord_same engine request).2.1 fun r hr => ?_))
  rw [h.tracked] at hr
  cases hr
  rfl

theorem finalRecord_evolves {engine : MatchingEngine} {request : OrderRequest} (hq : 0 < request.quantity)
    (hle : (engine.submitLoop request).1.quantity ≤ request.quantity) :
    OrderRecord.Evolves { engine.newRecord request with status := .acknowledged } (engine.finalRecord request) := by
  refine ⟨?_, ?_, (nomatch ·)⟩
  · rw [finalRecord]
    dsimp only
    split <;> rfl
  · rw [finalRecord]
    dsimp only
    split
    · exact hq.le
    · exact sub_nonneg.2 hle

theorem Submitted.quantity_le {engine : MatchingEngine} {request : OrderRequest} {es : List Execution}
    {fills : List FillEvent} (h : engine.Submitted request es fills) :
    (engine.submitLoop request).1.quantity ≤ request.quantity := by
  rw [h.run.quantity_eq]
  exact sub_le_self _ h.run.executes.executedQuantity_nonneg

theorem Submitted.ordersEvolve {engine : MatchingEngine} {request : OrderRequest} {es : List Execution}
    {fills : List FillEvent} (h : engine.Submitted request es fills) (hacc : request.Acceptable)
    (hnew : engine.orders[engine.issuedOrderId]? = none) :
    OrdersEvolve engine.orders (engine.accepted request).orders := by
  have htrack : OrdersEvolve engine.orders (engine.track request .acknowledged).orders := by
    rw [track_orders]
    exact OrdersEvolve.insert_new hnew _
  have hchain := h.run.executes.ordersEvolve h.before.1 h.before.2
  rw [accepted_orders]
  exact (htrack.trans hchain).trans
    (OrdersEvolve.insert_old h.tracked (finalRecord_evolves hacc.quantity h.quantity_le))

theorem Sync.submit {engine : MatchingEngine} (h : engine.Sync) (request : OrderRequest)
    (hnew : engine.orders[engine.issuedOrderId]? = none) : (engine.submit request).1.Sync := by
  rcases engine.submit_cases request with ⟨reason, heq, -⟩ | ⟨-, hacc⟩
  · rw [heq]
    have hok : RecordOk engine.issuedOrderId { engine.newRecord request with status := .rejected } :=
      ⟨rfl, Or.inr (Or.inr (Or.inr rfl)), (nomatch ·), fun _ => rfl, fun hne => absurd rfl hne⟩
    refine ⟨h.records.insert hok, h.instrument, fun i book hb => ?_, fun id r hr hopen => ?_⟩
    · refine (h.synced i book hb).close (fun _ h => nomatch h) (fun o ho hid => ?_) rfl
      obtain ⟨r, hr, -⟩ := (h.synced i book hb).tracked o ho
      rw [hid, hnew] at hr
      cases hr
    · rw [rejectNew, MatchingEngine.track, KeyedMap.getElem?_insert] at hr
      split at hr
      · cases hr
        cases hopen
      · exact h.booked id r hr hopen
  · obtain ⟨es, fills, hs⟩ := h.submit_spec hnew hacc
    rw [hs.eq]
    exact h.update rfl hs.instrument hs.synced hs.records (hs.sameOutside hnew h.booksOk)

theorem Sync.cancel {engine : MatchingEngine} (h : engine.Sync) (orderId clientOrderId : String) :
    (engine.cancel orderId clientOrderId).1.Sync := by
  rcases h.cancel_spec orderId clientOrderId with ⟨-, _, _, _, heq⟩ | ⟨r, book, book', o, hr, hopen, hbook, rfl,
    hrec, hwf, hinst, hrest, heq⟩
  · rw [heq]
    exact h
  · have hi := h.instrument _ book hbook
    have hs := h.synced _ book hbook
    have hnd := hs.wf.nodup
    rw [hrest, Multiset.map_cons, Multiset.nodup_cons] at hnd
    have hne : ∀ x ∈ book'.resting, x.orderId ≠ o.orderId :=
      fun x hx hid => hnd.1 (hid ▸ Multiset.mem_map_of_mem _ hx)
    -- between taking the order out and closing its record, the record is the excepted one
    have hs' : Synced (some o.orderId) book' engine.orders := by
      refine ⟨hwf, fun x hx => hs.tracked x (by rw [hrest]; exact Multiset.mem_cons_of_mem hx), ?_⟩
      intro id r' hr' hinst' hopen' hexc
      obtain ⟨x, hx, hxid⟩ := hs.rests id r' hr' (by rw [hinst', hinst]) hopen' (nofun)
      rw [hrest, Multiset.mem_cons] at hx
      rcases hx with rfl | hx
      · exact absurd (congrArg some hxid) hexc
      · exact ⟨x, hx, hxid⟩
    have hok := h.records _ r hr
    rw [heq]
    refine h.update rfl (by rw [hinst, hi]) (hs'.close (by rintro _ ⟨⟩; rfl) hne rfl) (h.records.insert ?_)
      (SameOutside.insert rfl fun r' hr' => ?_)
    · exact ⟨hok.orderId_eq, Or.inr (Or.inr (Or.inl rfl)), (nomatch ·), (nomatch ·),
        fun _ => hok.bounds_of_isOpen hopen⟩
    · rw [hr, Option.some.injEq] at hr'
      rw [hr']

theorem Sync.processMarketEvent {engine : MatchingEngine} (h : engine.Sync) (event : MarketEvent) :
    (engine.processMarketEvent event).1.Sync := by
  rcases processMarketEvent_spec h.booksOk event with heq | ⟨book, es, hbook, hrun, heq⟩
  · rw [heq]
    exact h
  · have hi := h.instrument _ book hbook
    have hs := h.synced _ book hbook
    have hsame := hrun.executes.sameOutside hs h.records
    rw [hi] at hsame
    obtain ⟨hs', hok'⟩ := hrun.executes.synced hs h.records
    rw [heq]
    exact h.update rfl (by rw [(hrun.executes.wf hs.wf).2, hi]) hs' hok' hsame

theorem restoredRecord_isOpen (orderId clientOrderId : String) (request : OrderRequest) (filledQuantity : ℚ) :
    (restoredRecord orderId clientOrderId request filledQuantity).status.isOpen = true := by
  unfold restoredRecord
  dsimp only
  split <;> rfl

theorem Sync.restoreOpenOrder {engine : MatchingEngine} (h : engine.Sync) {orderId : String}
    (hnew : engine.orders[orderId]? = none) (clientOrderId : String) (request : OrderRequest) (filledQuantity : ℚ) :
    (engine.restoreOpenOrder orderId clientOrderId request filledQuantity).Sync := by
  have hi := (bookFor_ok h.booksOk request.instrument).2
  have hs := h.bookFor request.instrument
  rcases restoreOpenOrder_spec h.booksOk hnew clientOrderId request filledQuantity with heq | heq |
    ⟨book', h0, hlt, hwf, hinst, hne, hrest, heq⟩
  · rw [heq]
    exact h
  · rw [heq]
    exact h.update rfl hi hs h.records (.refl _ _)
  · have htol := kQuantityTolerance_pos
    have hopen := restoredRecord_isOpen orderId clientOrderId request filledQuantity
    have hs' : Synced (some orderId) (engine.bookFor request.instrument) engine.orders :=
      ⟨hs.wf, hs.tracked, fun id r hr hi' ho' _ => hs.rests id r hr hi' ho' (nofun)⟩
    have hle : filledQuantity ≤ request.quantity := by linarith
    have hok : RecordOk orderId (restoredRecord orderId clientOrderId request filledQuantity) :=
      .of_isOpen rfl hopen h0 hle
    rw [heq]
    refine h.update rfl (by rw [hinst, hi]) ?_ (h.records.insert hok) (SameOutside.insert_new rfl hnew)
    exact hs'.rest (o := OrderBook.restingOrderOf _ request orderId clientOrderId filledQuantity) hne hwf hinst hrest
      ⟨rfl, rfl, rfl, hopen, rfl⟩

/-- A call that reuses no id keeps the books and the records in step. -/
theorem Sync.step {engine : MatchingEngine} (h : engine.Sync) {op : EngineOp} (hf : op.Fresh engine) :
    (machine.step engine op).1.Sync := by
  cases op with
  | submit request => exact h.submit request (hf _ rfl)
  | cancel orderId clientOrderId => exact h.cancel orderId clientOrderId
  | processMarketEvent event => exact h.processMarketEvent event
  | restoreOpenOrder orderId clientOrderId request filledQuantity =>
    exact h.restoreOpenOrder (hf _ rfl) clientOrderId request filledQuantity

/-- A call leaves every tracked record tracked, in a later state. -/
theorem Sync.ordersEvolve_step {engine : MatchingEngine} (h : engine.Sync) {op : EngineOp} (hf : op.Fresh engine) :
    OrdersEvolve engine.orders (machine.step engine op).1.orders := by
  cases op with
  | submit request =>
    have hnew := hf _ rfl
    show OrdersEvolve engine.orders (engine.submit request).1.orders
    rcases engine.submit_cases request with ⟨reason, heq, -⟩ | ⟨-, hacc⟩
    · rw [heq]
      exact OrdersEvolve.insert_new hnew _
    · -- the makers' records advance, and the new order's record is written over an id that was free
      obtain ⟨es, fills, hs⟩ := h.submit_spec hnew hacc
      rw [hs.eq]
      exact hs.ordersEvolve hacc hnew
  | cancel orderId clientOrderId =>
    show OrdersEvolve engine.orders (engine.cancel orderId clientOrderId).1.orders
    rcases h.cancel_spec orderId clientOrderId with ⟨-, _, _, _, heq⟩ | ⟨r, _, _, _, hr, hopen, -, -, -, -, -, -, heq⟩
    · rw [heq]
      exact .refl _
    · rw [heq]
      refine OrdersEvolve.insert_old hr ⟨rfl, le_refl _, fun ht => ?_⟩
      rw [OrderStatus.isOpen_not_isTerminal hopen] at ht
      cases ht
  | processMarketEvent event =>
    show OrdersEvolve engine.orders (engine.processMarketEvent event).1.orders
    rcases processMarketEvent_spec h.booksOk event with heq | ⟨book, es, hbook, hrun, heq⟩
    · rw [heq]
      exact .refl _
    · rw [heq]
      exact hrun.executes.ordersEvolve (h.synced _ book hbook) h.records
  | restoreOpenOrder orderId clientOrderId request filledQuantity =>
    have hnew := hf _ rfl
    show OrdersEvolve engine.orders (engine.restoreOpenOrder orderId clientOrderId request filledQuantity).orders
    rcases restoreOpenOrder_spec h.booksOk hnew clientOrderId request filledQuantity with heq | heq |
      ⟨_, -, -, -, -, -, -, heq⟩
    · rw [heq]
      exact .refl _
    · rw [heq]
      exact .refl _
    · rw [heq]
      exact OrdersEvolve.insert_new hnew _

/-- Only the id that a call names becomes tracked. -/
theorem Sync.untracked_step {engine : MatchingEngine} (h : engine.Sync) {op : EngineOp} (hf : op.Fresh engine)
    {id : String} (hid : engine.orders[id]? = none) (hne : op.newId engine ≠ some id) :
    (machine.step engine op).1.orders[id]? = none := by
  cases op with
  | submit request =>
    have hnew := hf _ rfl
    have hne' : engine.issuedOrderId ≠ id := fun he => hne (congrArg some he)
    show (engine.submit request).1.orders[id]? = none
    rcases engine.submit_cases request with ⟨reason, heq, -⟩ | ⟨-, hacc⟩
    · rw [heq, rejectNew, MatchingEngine.track, KeyedMap.getElem?_insert, if_neg hne', hid]
    · obtain ⟨es, fills, hs⟩ := h.submit_spec hnew hacc
      rw [hs.eq, accepted, KeyedMap.getElem?_insert, if_neg hne']
      refine hs.run.executes.getElem?_eq_none hs.before.1 hs.before.2 ?_
      rw [submitStart, MatchingEngine.track, KeyedMap.getElem?_insert, if_neg hne', hid]
  | cancel orderId clientOrderId =>
    show (engine.cancel orderId clientOrderId).1.orders[id]? = none
    rcases h.cancel_spec orderId clientOrderId with ⟨-, _, _, _, heq⟩ | ⟨r, _, _, _, hr, -, -, -, -, -, -, -, heq⟩
    · rw [heq, hid]
    · rw [heq, KeyedMap.getElem?_insert, if_neg, hid]
      rintro rfl
      rw [hid] at hr
      cases hr
  | processMarketEvent event =>
    show (engine.processMarketEvent event).1.orders[id]? = none
    rcases processMarketEvent_spec h.booksOk event with heq | ⟨book, es, hbook, hrun, heq⟩
    · rw [heq, hid]
    · rw [heq]
      exact hrun.executes.getElem?_eq_none (h.synced _ book hbook) h.records hid
  | restoreOpenOrder orderId clientOrderId request filledQuantity =>
    have hnew := hf _ rfl
    have hne' : orderId ≠ id := fun he => hne (congrArg some he)
    show (engine.restoreOpenOrder orderId clientOrderId request filledQuantity).orders[id]? = none
    rcases restoreOpenOrder_spec h.booksOk hnew clientOrderId request filledQuantity with heq | heq |
      ⟨_, -, -, -, -, -, -, heq⟩
    · rw [heq, hid]
    · rw [heq, hid]
    · rw [heq, KeyedMap.getElem?_insert, if_neg hne', hid]

/-- The fills of `submit` are of the new order. -/
theorem Sync.submit_fills {engine : MatchingEngine} (h : engine.Sync) {request : OrderRequest}
    (hnew : engine.orders[engine.issuedOrderId]? = none) :
    ∀ fill ∈ (engine.submit request).2.fills, fill.orderId = engine.issuedOrderId := by
  rcases engine.submit_cases request with ⟨reason, heq, -⟩ | ⟨-, hacc⟩
  · rw [heq]
    exact fun fill hfill => absurd hfill List.not_mem_nil
  · obtain ⟨es, fills, hs⟩ := h.submit_spec hnew hacc
    rw [hs.eq, hs.fills_eq]
    intro fill hfill
    obtain ⟨e, -, n, rfl⟩ := forall₂_exists_left hs.run.fills_of hfill
    rfl

/-- A call emits fills of the new order and of open orders only. -/
theorem Sync.fills_step {engine : MatchingEngine} (h : engine.Sync) {op : EngineOp} (hf : op.Fresh engine) :
    ∀ fill ∈ (machine.step engine op).2.fills, op.newId engine = some fill.orderId ∨
      ∃ r, engine.orders[fill.orderId]? = some r ∧ r.status.isOpen = true := by
  cases op with
  | submit request =>
    exact fun fill hfill => .inl (congrArg some (h.submit_fills (hf _ rfl) fill hfill).symm)
  | cancel orderId clientOrderId =>
    show ∀ fill ∈ (engine.cancel orderId clientOrderId).2.fills, _
    rcases h.cancel_spec orderId clientOrderId with ⟨-, _, _, _, heq⟩ | ⟨r, _, _, _, hr, -, -, -, -, -, -, -, heq⟩
    · rw [heq]
      simp
    · rw [heq]
      simp
  | processMarketEvent event =>
    show ∀ fill ∈ (engine.processMarketEvent event).2.fills, _
    rcases processMarketEvent_spec h.booksOk event with heq | ⟨book, es, hbook, hrun, heq⟩
    · rw [heq]
      simp
    · rw [heq]
      intro fill hfill
      -- a fill names the order it executed, which was resting and so open when the event arrived
      obtain ⟨e, he, level, n, rfl⟩ := forall₂_exists_left hrun.fills_of hfill
      obtain ⟨r, hr, hopen, -⟩ := hrun.executes.record_of_executed (h.synced _ book hbook) h.records e he
      exact .inr ⟨r, hr, hopen⟩
  | restoreOpenOrder orderId clientOrderId request filledQuantity =>
    intro fill hfill
    exact absurd hfill List.not_mem_nil

/-! ### Runs that restore fresh ids -/

/-- The ids that the `submit` calls of a run issue. -/
def issuedOrderIds : MatchingEngine → List EngineOp → List String
  | _, [] => []
  | engine, op :: ops =>
    let ids := issuedOrderIds (machine.step engine op).1 ops
    match op with
    | .submit _ => engine.issuedOrderId :: ids
    | _ => ids

/-- No restored id is tracked when it is restored, or issued by a later `submit` of the run. -/
def RestoresFresh : MatchingEngine → List EngineOp → Prop
  | _, [] => True
  | engine, op :: ops =>
    (match op with
      | .restoreOpenOrder orderId _ _ _ =>
        engine.orders[orderId]? = none ∧ orderId ∉ issuedOrderIds (machine.step engine op).1 ops
      | _ => True) ∧
    RestoresFresh (machine.step engine op).1 ops

theorem matchOrderId_injective {m n : Nat} (h : matchOrderId m = matchOrderId n) : m = n :=
  Decimal.repr_injective ((String.append_right_inj "match-order-").1 h)

theorem submit_nextOrderId (engine : MatchingEngine) (request : OrderRequest) :
    (engine.submit request).1.nextOrderId = engine.nextOrderId + 1 := by
  rcases engine.submit_cases request with ⟨reason, heq, -⟩ | ⟨heq, -⟩
  · rw [heq]
    rfl
  · rw [heq]
    exact (engine.matchAndRest_frame request).nextOrderId_eq

theorem nextOrderId_le_step (engine : MatchingEngine) (op : EngineOp) :
    engine.nextOrderId ≤ (machine.step engine op).1.nextOrderId := by
  cases op with
  | submit request =>
    show _ ≤ (engine.submit request).1.nextOrderId
    rw [submit_nextOrderId]
    exact Nat.le_succ _
  | cancel orderId clientOrderId =>
    show _ ≤ (engine.cancel orderId clientOrderId).1.nextOrderId
    unfold cancel
    dsimp only
    split
    · exact le_refl _
    · split
      · exact le_refl _
      · split <;> exact le_refl _
  | processMarketEvent event =>
    show _ ≤ (engine.processMarketEvent event).1.nextOrderId
    unfold processMarketEvent
    dsimp only
    split <;> exact le_refl _
  | restoreOpenOrder orderId clientOrderId request filledQuantity =>
    show _ ≤ (engine.restoreOpenOrder orderId clientOrderId request filledQuantity).nextOrderId
    unfold restoreOpenOrder
    split
    · exact le_refl _
    · split
      · exact le_refl _
      · split <;> exact le_refl _

private theorem le_of_mem_issuedOrderIds {engine : MatchingEngine} {ops : List EngineOp} {id : String}
    (h : id ∈ issuedOrderIds engine ops) : ∃ n, engine.nextOrderId ≤ n ∧ id = matchOrderId n := by
  induction ops generalizing engine with
  | nil => cases h
  | cons op ops ih =>
    have tail : id ∈ issuedOrderIds (machine.step engine op).1 ops →
        ∃ n, engine.nextOrderId ≤ n ∧ id = matchOrderId n := by
      intro h
      obtain ⟨n, hn, hid⟩ := ih h
      exact ⟨n, (nextOrderId_le_step engine op).trans hn, hid⟩
    cases op with
    | submit request =>
      rcases List.mem_cons.1 h with rfl | h
      · exact ⟨_, le_refl _, rfl⟩
      · exact tail h
    | cancel => exact tail h
    | processMarketEvent => exact tail h
    | restoreOpenOrder => exact tail h

/-- Along a run that restores fresh ids no call reuses an id, and the invariant holds at every call. -/
theorem RestoresFresh.admissible {engine : MatchingEngine} {ops : List EngineOp} (h : RestoresFresh engine ops)
    (hs : engine.Sync) (hids : ∀ id ∈ issuedOrderIds engine ops, engine.orders[id]? = none) :
    machine.Admissible (fun engine op => engine.Sync ∧ op.Fresh engine) engine ops := by
  induction ops generalizing engine with
  | nil => trivial
  | cons op ops ih =>
    have hfresh : op.Fresh engine := by
      intro id hid
      cases op with
      | submit request =>
        cases hid
        exact hids _ (List.mem_cons_self ..)
      | restoreOpenOrder =>
        cases hid
        exact h.1.1
      | cancel => cases hid
      | processMarketEvent => cases hid
    refine ⟨⟨hs, hfresh⟩, ih h.2 (hs.step hfresh) fun id hid => hs.untracked_step hfresh ?_ ?_⟩
    · refine hids id ?_
      cases op with
      | submit request => exact List.mem_cons_of_mem _ hid
      | cancel => exact hid
      | processMarketEvent => exact hid
      | restoreOpenOrder => exact hid
    · intro hnew
      cases op with
      | submit request =>
        cases hnew
        -- later submits issue larger numbers, and numbers give distinct ids
        obtain ⟨n, hn, he⟩ := le_of_mem_issuedOrderIds hid
        have hlt : engine.nextOrderId + 1 ≤ n := (submit_nextOrderId engine request) ▸ hn
        rw [← matchOrderId_injective he] at hlt
        exact absurd hlt (Nat.not_succ_le_self _)
      | restoreOpenOrder =>
        cases hnew
        exact h.1.2 hid
      | cancel => cases hnew
      | processMarketEvent => cases hnew

theorem restoresFresh_of_isRestore {engine : MatchingEngine} {ops : List EngineOp}
    (h : ∀ op ∈ ops, op.isRestore = false) : RestoresFresh engine ops := by
  induction ops generalizing engine with
  | nil => trivial
  | cons op ops ih =>
    refine ⟨?_, ih fun op' hop => h op' (List.mem_cons_of_mem _ hop)⟩
    have hop := h op (List.mem_cons_self ..)
    cases op with
    | restoreOpenOrder => cases hop
    | submit => trivial
    | cancel => trivial
    | processMarketEvent => trivial

/-- From the empty engine. -/
theorem RestoresFresh.admissible_empty {ops : List EngineOp} (h : RestoresFresh {} ops) :
    machine.Admissible (fun engine op => engine.Sync ∧ op.Fresh engine) {} ops :=
  h.admissible empty_sync (fun _ _ => rfl)

/-- Every state that a run with fresh restores reaches has the invariant. -/
theorem RestoresFresh.sync {ops : List EngineOp} (h : RestoresFresh {} ops) : (machine.run {} ops).Sync :=
  Machine.invariant (fun _ _ hok hs => hs.step hok.2) h.admissible_empty empty_sync

/-! ### The books and the records of a reachable engine -/

namespace Sync

variable {engine : MatchingEngine}

private theorem rests_iff (h : engine.Sync) {id : String} {r : OrderRecord} (hr : engine.getOrder id = some r) :
    (∃ book, engine.findBook r.instrumentId = some book ∧ ∃ o ∈ book.resting, o.orderId = id) ↔
      r.status = .acknowledged ∨ r.status = .partiallyFilled := by
  have hopen : r.status.isOpen = true ↔ r.status = .acknowledged ∨ r.status = .partiallyFilled := by
    simp [OrderStatus.isOpen]
  rw [← hopen]
  constructor
  · rintro ⟨book, hbook, o, ho, rfl⟩
    obtain ⟨r', hr', hrec⟩ := (h.synced _ book hbook).tracked o ho
    cases hr.symm.trans hr'
    exact hrec.isOpen
  · intro hr'
    obtain ⟨book, hbook, o, ho, hid, -⟩ := h.exists_resting hr hr'
    exact ⟨book, hbook, o, ho, hid⟩

/-- A resting order has a record, of the instrument of the book it rests in. -/
private theorem record_of_resting (h : engine.Sync) {i : String} {book : OrderBook}
    (hbook : engine.findBook i = some book) {o : RestingOrder} (ho : o ∈ book.resting) :
    ∃ r, engine.getOrder o.orderId = some r ∧ Records o r ∧ r.instrumentId = i := by
  obtain ⟨r, hr, hrec⟩ := (h.synced i book hbook).tracked o ho
  obtain ⟨p, q, -, -, hok⟩ := (h.synced i book hbook).wf.exists_orderOk ho
  exact ⟨r, hr, hrec, hrec.instrument_eq.trans (hok.instrument_eq.trans (h.instrument i book hbook))⟩

private theorem cancel_succeeds_iff (h : engine.Sync) (orderId clientOrderId : String) :
    (∃ u ∈ (engine.cancel orderId clientOrderId).2.updates, u.status = .canceled) ↔
      ∃ r, engine.getOrder orderId = some r ∧ r.status.isTerminal = false := by
  rcases h.cancel_spec orderId clientOrderId with ⟨ht, _, _, _, heq⟩ | ⟨r, _, _, _, hr, hopen, -, -, -, -, -, -, heq⟩
  · rw [heq]
    constructor
    · rintro ⟨u, hu, hst⟩
      rw [List.mem_singleton.1 hu] at hst
      cases hst
    · rintro ⟨r, hr, hr'⟩
      rw [ht r hr] at hr'
      cases hr'
  · rw [heq]
    refine ⟨fun _ => ⟨r, hr, OrderStatus.isOpen_not_isTerminal hopen⟩, fun _ => ?_⟩
    exact ⟨_, List.mem_cons_of_mem _ (List.mem_singleton_self _), rfl⟩

/-- An accepted order never ends in the branch for a residual that the book refuses. -/
private theorem submit_rests (h : engine.Sync) {request : OrderRequest} (hf : (EngineOp.submit request).Fresh engine) :
    ∀ u ∈ (engine.submit request).2.updates, u.reason ≠ some "failed to rest residual order quantity" := by
  rcases engine.submit_cases request with ⟨reason, heq, hreason, -⟩ | ⟨-, hacc⟩
  · rw [heq]
    intro u hu
    rw [rejectNew, List.mem_singleton] at hu
    rw [hu]
    exact fun he => hreason (Option.some.inj he)
  · obtain ⟨es, fills, hs⟩ := h.submit_spec (hf _ rfl) hacc
    rw [hs.eq]
    intro u hu
    rw [(mem_acceptedResult_updates engine request hu).2]
    exact (Option.some_ne_none _).symm

end Sync

/-- In every state that calls with fresh restores reach, exactly the acknowledged and partially filled orders rest,
each in its instrument's book and with what its record says remains; every resting order is tracked; the records'
quantities are in bounds.  So no call can find a fill refused or a residual that does not rest, and `cancel`
succeeds on exactly the tracked orders that are not terminal. -/
theorem reachable_engine_consistent (ops : List EngineOp) (h : RestoresFresh {} ops) :
    let engine := machine.run {} ops
    (∀ id r, engine.getOrder id = some r →
      ((∃ book, engine.findBook r.instrumentId = some book ∧ ∃ o ∈ book.resting, o.orderId = id) ↔
        r.status = .acknowledged ∨ r.status = .partiallyFilled)) ∧
    (∀ id r, engine.getOrder id = some r → ∀ i book, engine.findBook i = some book → i ≠ r.instrumentId →
      ∀ o ∈ book.resting, o.orderId ≠ id) ∧
    (∀ id r, engine.getOrder id = some r → ∀ i book, engine.findBook i = some book →
      ∀ o ∈ book.resting, o.orderId = id →
        o.remainingQuantity = r.quantity - r.filledQuantity ∧ kQuantityTolerance < o.remainingQuantity ∧
        o.request.side = r.side ∧ o.request.price = r.price) ∧
    (∀ i book, engine.findBook i = some book → ∀ o ∈ book.resting, ∃ r, engine.getOrder o.orderId = some r) ∧
    (∀ id r, engine.getOrder id = some r → (r.status = .filled → r.filledQuantity = r.quantity) ∧
      (r.status ≠ .rejected → 0 ≤ r.filledQuantity ∧ r.filledQuantity ≤ r.quantity)) ∧
    (∀ pre request post, ops = pre ++ .submit request :: post →
      ∀ u ∈ ((machine.run {} pre).submit request).2.updates,
        u.reason ≠ some "failed to rest residual order quantity") ∧
    (∀ request, (engine.submitLoop request).2 ≠ .fillFailed) ∧
    (∀ event book, engine.findBook event.instrument.instrumentId = some book →
      .fillFailed ∉ (engine.marketLoops event book).2) ∧
    ∀ orderId clientOrderId, (∃ u ∈ (engine.cancel orderId clientOrderId).2.updates, u.status = .canceled) ↔
      ∃ r, engine.getOrder orderId = some r ∧ r.status.isTerminal = false := by
  intro engine
  have hs : engine.Sync := h.sync
  refine ⟨fun id r hr => hs.rests_iff hr, ?_, ?_, ?_, fun id r hr => ⟨(hs.records id r hr).filled,
    (hs.records id r hr).bounds⟩, ?_, fun request => ?_, fun event book hbook => ?_, hs.cancel_succeeds_iff⟩
  · rintro _ r hr i book hbook hne o ho rfl
    obtain ⟨r', hr', -, hi⟩ := hs.record_of_resting hbook ho
    cases hr.symm.trans hr'
    exact hne hi.symm
  · rintro _ r hr i book hbook o ho rfl
    obtain ⟨r', hr', hrec, -⟩ := hs.record_of_resting hbook ho
    cases hr.symm.trans hr'
    exact ⟨hrec.remaining_eq, (hs.synced i book hbook).wf.tolerance_lt ho, hrec.side_eq.symm, hrec.price_eq.symm⟩
  · intro i book hbook o ho
    obtain ⟨r, hr, -⟩ := hs.record_of_resting hbook ho
    exact ⟨r, hr⟩
  · rintro pre request post rfl
    obtain ⟨-, ⟨hpre, hf⟩, -⟩ := machine.admissible_append.1 h.admissible_empty
    exact hpre.submit_rests hf
  · obtain ⟨es, fills, hrun⟩ := submitLoop_spec hs.booksOk request
    exact hrun.not_failed
  · obtain ⟨es, hrun⟩ := engine.marketLoops_spec event (hs.booksOk _ book hbook).1
    exact hrun.not_failed

/-- A limit order for the runs on fixed inputs. -/
def exampleRequest (side : OrderSide) (quantity price : ℚ) : OrderRequest where
  instrument := { instrumentId := "btc-usdt", baseAsset := "BTC", quoteAsset := "USDT" }
  side := side
  quantity := quantity
  price := some price

/-- A restored sell order that a larger buy order takes. -/
def exampleRun : List EngineOp :=
  [.restoreOpenOrder "old-1" "client-1" (exampleRequest .sell 2 100) 1, .submit (exampleRequest .buy 3 101)]

theorem reachable_engine_consistent_exampleRun : RestoresFresh {} exampleRun ∧
    ∃ book, (machine.run {} exampleRun).findBook "btc-usdt" = some book ∧
      ∃ o ∈ book.resting, o.orderId = "match-order-1" := by
  have hfresh : RestoresFresh {} exampleRun := ⟨⟨rfl, by decide +kernel⟩, trivial, trivial⟩
  have hr : (machine.run {} exampleRun).getOrder "match-order-1" = some
      { orderId := "match-order-1", clientOrderId := "match-client-1", instrumentId := "btc-usdt", side := .buy
        status := .partiallyFilled, quantity := 3, price := some 101, filledQuantity := 1 } := by
    decide +kernel
  exact ⟨hfresh, ((reachable_engine_consistent exampleRun hfresh).1 _ _ hr).2 (Or.inr rfl)⟩

end MatchingEngine

end Wall
