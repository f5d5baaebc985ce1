import Wall.Restarts
import Wall.RepositoryMirror

/-!
# Issued order ids across restarts

`MatchingEngine::submit` numbers its orders from a counter, and the counter starts at one in every process.  The order
repository outlives the process, so the numbers of a second process that submits are stored already: the id names
another order, whose record `persist_new_order` leaves as it is.

The ids that are stored after a run of calls are those stored before and those the run issues (`Tracks.run`), which
gives exactly when all issued ids are new (`issued_ids_new_iff`).
-/

namespace Wall

open KeyedMap

/-! ### The terms of an order -/

/-- The strategy, instrument, side, type, quantity and price of a record. -/
def OrderRecord.terms (r : OrderRecord) : String × String × OrderSide × OrderType × ℚ × Option ℚ :=
  (r.strategyId, r.instrumentId, r.side, r.orderType, r.quantity, r.price)

/-- The terms that a request asks for. -/
def OrderRequest.terms (request : OrderRequest) : String × String × OrderSide × OrderType × ℚ × Option ℚ :=
  (request.strategyId, request.instrument.instrumentId, request.side, request.type, request.quantity, request.price)

namespace InMemoryOrderRepository

/-- The terms that are stored under an id. -/
def termsOf (repository : InMemoryOrderRepository) (id : String) :
    Option (String × String × OrderSide × OrderType × ℚ × Option ℚ) :=
  (repository.getOrder id).map OrderRecord.terms

private theorem getOrder_eq_none_iff {repository : InMemoryOrderRepository} {id : String} :
    repository.getOrder id = none ↔ repository.termsOf id = none :=
  Option.map_eq_none_iff.symm

/-- An update of a stored order leaves all terms as they are. -/
private theorem termsOf_saveOrderUpdate {repository : InMemoryOrderRepository} {update : OrderUpdate}
    (h : repository.termsOf update.orderId ≠ none) (id : String) :
    (repository.saveOrderUpdate update).termsOf id = repository.termsOf id := by
  unfold termsOf getOrder saveOrderUpdate
  dsimp only
  split
  · rename_i order horder
    rw [KeyedMap.getElem?_insert]
    split
    · rename_i hid
      rw [← hid, horder]
      rfl
    · rfl
  · rename_i hnone
    exact absurd (getOrder_eq_none_iff.1 hnone) h

private theorem termsOf_updates {updates : List OrderUpdate} {repository : InMemoryOrderRepository}
    (h : ∀ u ∈ updates, repository.termsOf u.orderId ≠ none) (id : String) :
    (updates.foldl saveOrderUpdate repository).termsOf id = repository.termsOf id := by
  induction updates generalizing repository with
  | nil => rfl
  | cons u updates ih =>
    have hsame := termsOf_saveOrderUpdate (h u (List.mem_cons_self ..))
    rw [List.foldl_cons, ih, hsame]
    intro v hv
    rw [hsame]
    exact h v (List.mem_cons_of_mem _ hv)

theorem Keyed.updates {repository : InMemoryOrderRepository} (h : repository.Keyed) (updates : List OrderUpdate) :
    (updates.foldl InMemoryOrderRepository.saveOrderUpdate repository).Keyed := by
  induction updates generalizing repository with
  | nil => exact h
  | cons u updates ih => exact ih (h.saveOrderUpdate u)

/-- A new order is stored with its request's terms, unless its id is taken. -/
private theorem termsOf_persistNewOrder (repository : InMemoryOrderRepository) (request : OrderRequest)
    {result : ExecutionResult} (hne : result.orderId ≠ "") (id : String) :
    (SimulationRuntime.persistNewOrder repository request result).termsOf id =
      if result.orderId = id ∧ repository.termsOf id = none then some request.terms else repository.termsOf id := by
  unfold SimulationRuntime.persistNewOrder
  rw [if_neg hne]
  split
  · rename_i order horder
    rw [if_neg]
    rintro ⟨rfl, hnone⟩
    rw [getOrder_eq_none_iff.2 hnone] at horder
    cases horder
  · rename_i hnone
    unfold termsOf getOrder saveOrder
    rw [KeyedMap.getElem?_insert]
    by_cases hid : result.orderId = id
    · have hnone' : repository.termsOf id = none := hid ▸ getOrder_eq_none_iff.1 hnone
      rw [if_pos hid, if_pos ⟨hid, hnone'⟩]
      rfl
    · rw [if_neg hid, if_neg fun h => hid h.1]

theorem Keyed.persistNewOrder {repository : InMemoryOrderRepository} (h : repository.Keyed) (request : OrderRequest)
    (result : ExecutionResult) : (SimulationRuntime.persistNewOrder repository request result).Keyed := by
  unfold SimulationRuntime.persistNewOrder
  split
  · exact h
  · split
    · exact h
    · exact h.saveOrder _ _ _

end InMemoryOrderRepository

/-! ### The ids of the tracked records -/

/-- The id in the record that is tracked under `id`. -/
def trackedId (orders : StringMap OrderRecord) (id : String) : Option String := (orders[id]?).map OrderRecord.orderId

private theorem trackedId_insert (orders : StringMap OrderRecord) (id : String) (r : OrderRecord) (id' : String) :
    trackedId (orders.insert id r) id' = if id = id' then some r.orderId else trackedId orders id' := by
  unfold trackedId
  rw [KeyedMap.getElem?_insert]
  split <;> rfl

/-- A change of a tracked record that keeps its id. -/
private theorem trackedId_modifyD {orders : StringMap OrderRecord} {id : String} {f : OrderRecord → OrderRecord}
    (hf : ∀ r, (f r).orderId = r.orderId) (h : trackedId orders id = some id) (id' : String) :
    trackedId (modifyD orders id f) id' = trackedId orders id' := by
  obtain ⟨r, hr, hid⟩ := Option.map_eq_some_iff.1 h
  rw [modifyD_of_some hr, trackedId_insert]
  split
  · rename_i hid'
    rw [hf, hid, ← hid', h]
  · rfl

private theorem Executes.trackedId {book book' : OrderBook} {orders orders' : StringMap OrderRecord}
    {es : List Execution}
    (h : Executes book orders es book' orders') (id : String) : trackedId orders' id = trackedId orders id := by
  induction h with
  | nil => rfl
  | @cons book book₁ book₂ orders orders₂ es resting executed _ _ _ _ _ ih =>
    rw [ih]
    unfold applyFillToOrder
    split
    · rfl
    · rename_i order horder
      split
      · rfl
      · rw [trackedId_insert]
        split
        · rename_i hid
          rw [← hid, Wall.trackedId, horder]
          rfl
        · rfl

namespace MatchingEngine

/-- All that a call says is said of the id that the engine issues, and this id is the only one that is tracked anew. -/
structure IssuesId (engine : MatchingEngine) (next : MatchingEngine × ExecutionResult) : Prop where
  orderId : next.2.orderId = engine.issuedOrderId
  updates : ∀ u ∈ next.2.updates, u.orderId = engine.issuedOrderId
  tracked : ∀ id, trackedId next.1.orders id =
    if engine.issuedOrderId = id then some engine.issuedOrderId else trackedId engine.orders id

theorem submit_issuesId {engine : MatchingEngine} (hb : BooksOk engine.books) (request : OrderRequest) :
    engine.IssuesId (engine.submit request) := by
  rcases engine.submit_cases request with ⟨reason, heq, -⟩ | ⟨heq, -⟩
  · rw [heq]
    refine ⟨rfl, fun u hu => ?_, fun id => trackedId_insert _ _ _ _⟩
    rw [List.mem_singleton.1 hu]
    rfl
  · obtain ⟨es, fills, hrun⟩ := submitLoop_spec hb request
    have hloop : ∀ id, trackedId (engine.submitLoop request).1.orders id =
        if engine.issuedOrderId = id then some engine.issuedOrderId else trackedId engine.orders id := by
      intro id
      rw [hrun.executes.trackedId]
      exact trackedId_insert _ _ _ _
    -- after the loop the new record is written once or twice more, and keeps its id
    have honce : ∀ id {f : OrderRecord → OrderRecord}, (∀ r, (f r).orderId = r.orderId) →
        trackedId (modifyD (engine.submitLoop request).1.orders engine.issuedOrderId f) id =
          if engine.issuedOrderId = id then some engine.issuedOrderId else trackedId engine.orders id :=
      fun id f hf => (trackedId_modifyD hf ((hloop _).trans (if_pos rfl)) id).trans (hloop id)
    have htwice : ∀ id {f g : OrderRecord → OrderRecord}, (∀ r, (f r).orderId = r.orderId) →
        (∀ r, (g r).orderId = r.orderId) →
        trackedId (modifyD (modifyD (engine.submitLoop request).1.orders engine.issuedOrderId f)
          engine.issuedOrderId g) id =
          if engine.issuedOrderId = id then some engine.issuedOrderId else trackedId engine.orders id :=
      fun id f g hf hg => (trackedId_modifyD hg ((honce _ hf).trans (if_pos rfl)) id).trans (honce id hf)
    have hsettle : ∀ book, engine.IssuesId (engine.settle request (engine.submitLoop request).1 book) := by
      intro book
      unfold settle
      dsimp only
      split
      · refine ⟨rfl, fun u hu => ?_, fun id => htwice id (fun _ => rfl) (fun _ => rfl)⟩
        rcases List.mem_pair.1 hu with rfl | rfl <;> rfl
      · split
        · refine ⟨rfl, fun u hu => ?_, fun id => htwice id (fun _ => rfl) (fun _ => rfl)⟩
          rcases List.mem_pair.1 hu with rfl | rfl <;> rfl
        · refine ⟨rfl, fun u hu => ?_, fun id => honce id fun _ => rfl⟩
          rw [List.mem_singleton.1 hu]
          rfl
    rw [heq]
    unfold matchAndRest
    dsimp only
    split
    · split
      · refine ⟨rfl, fun u hu => ?_, fun id => honce id fun _ => rfl⟩
        rcases List.mem_pair.1 hu with rfl | rfl <;> rfl
      · exact hsettle _
    · exact hsettle _

/-- The updates of a market event are of tracked orders, and the event tracks no new one. -/
private theorem market_ids {engine : MatchingEngine} (hb : BooksOk engine.books)
    (htracked : ∀ id id', trackedId engine.orders id = some id' → id' = id) (event : MarketEvent) :
    (∀ u ∈ (engine.processMarketEvent event).2.updates, trackedId engine.orders u.orderId ≠ none) ∧
    ∀ id, trackedId (engine.processMarketEvent event).1.orders id = trackedId engine.orders id := by
  rcases processMarketEvent_spec hb event with heq | ⟨book, es, -, hrun, heq⟩
  · rw [heq]
    exact ⟨fun u hu => absurd hu List.not_mem_nil, fun _ => rfl⟩
  · rw [heq]
    refine ⟨fun u hu => ?_, hrun.executes.trackedId⟩
    obtain ⟨id, -, hu⟩ := List.mem_flatMap.1 hu
    unfold appendOrderUpdate at hu
    split at hu
    · cases hu
    · rename_i r hr
      have hid : trackedId engine.orders id = some r.orderId := by
        rw [← hrun.executes.trackedId, trackedId, hr]
        rfl
      rw [List.mem_singleton.1 hu, makeUpdate, htracked id _ hid, hid]
      exact Option.some_ne_none _

end MatchingEngine

/-! ### One call -/

/-- The request of a call, if it submits one. -/
def TradingOp.request? : TradingOp → Option OrderRequest
  | .market _ => none
  | .submit request => some request

namespace TradingCore

/-- The id that a call issues is neither stored in the repository nor tracked by the engine. -/
def IssuesNew (core : TradingCore) : TradingOp → Prop
  | .market _ => True
  | .submit request =>
    (core.orderRepository.bind fun repository => repository.getOrder (core.engine.submit request).2.orderId) = none ∧
      core.engine.getOrder (core.engine.submit request).2.orderId = none

instance (core : TradingCore) : DecidablePred core.IssuesNew
  | .market _ => instDecidableTrue
  | .submit _ => inferInstanceAs (Decidable (_ ∧ _))

/-- The ids that the calls issue, each with the request that it is issued for. -/
def issued : TradingCore → List TradingOp → List (String × OrderRequest)
  | _, [] => []
  | core, op :: ops =>
    (op.request?.toList.map fun request => ((core.engine.submit request).2.orderId, request)) ++
      issued (core.step op) ops

/-- The repository of the core, and that every tracked order is stored in it under the same id. -/
structure Tracks (core : TradingCore) (repository : InMemoryOrderRepository) : Prop where
  repository_eq : core.orderRepository = some repository
  booksOk : BooksOk core.engine.books
  keyed : repository.Keyed
  tracked : ∀ id id', trackedId core.engine.orders id = some id' → id' = id ∧ repository.termsOf id ≠ none

namespace Tracks

variable {core : TradingCore} {repository : InMemoryOrderRepository} (h : core.Tracks repository)
include h

/-- A market event leaves the stored terms as they are. -/
theorem market (event : MarketEvent) : ∃ repository', (core.step (.market event)).Tracks repository' ∧
    (∀ id, repository'.termsOf id = repository.termsOf id) ∧
    (core.step (.market event)).engine.nextOrderId = core.engine.nextOrderId := by
  obtain ⟨hupdates, htracked⟩ := MatchingEngine.market_ids h.booksOk (fun id id' hid => (h.tracked id id' hid).1) event
  have hengine : (core.step (.market event)).engine = (core.engine.processMarketEvent event).1 := step_engine _ _
  have hterms : ∀ id, ((core.engine.processMarketEvent event).2.updates.foldl
      InMemoryOrderRepository.saveOrderUpdate repository).termsOf id = repository.termsOf id := by
    refine InMemoryOrderRepository.termsOf_updates fun u hu => ?_
    obtain ⟨id', hid'⟩ := Option.ne_none_iff_exists'.1 (hupdates u hu)
    exact (h.tracked _ _ hid').2
  refine ⟨_, ⟨by rw [step, onMarket_repository, h.repository_eq]; rfl, ?_, h.keyed.updates _, fun id id' hid => ?_⟩,
    hterms, ?_⟩
  · rw [hengine]
    exact MatchingEngine.booksOk_step h.booksOk (.processMarketEvent event)
  · rw [hengine, htracked] at hid
    rw [hterms]
    exact h.tracked id id' hid
  · rw [hengine]
    rcases MatchingEngine.processMarketEvent_spec h.booksOk event with heq | ⟨book, es, -, -, heq⟩ <;> rw [heq]

/-- A submitted request is stored under the issued id, unless the id is taken; the other terms stay. -/
theorem submit (request : OrderRequest) : ∃ repository', (core.step (.submit request)).Tracks repository' ∧
    (∀ id, repository'.termsOf id = if core.engine.issuedOrderId = id ∧ repository.termsOf id = none then
      some request.terms else repository.termsOf id) ∧
    (core.step (.submit request)).engine.nextOrderId = core.engine.nextOrderId + 1 := by
  obtain ⟨horderId, hupdates, htracked⟩ := MatchingEngine.submit_issuesId h.booksOk request
  have hengine : (core.step (.submit request)).engine = (core.engine.submit request).1 := step_engine _ _
  have hpersisted := InMemoryOrderRepository.termsOf_persistNewOrder repository request
    (horderId.symm ▸ matchOrderId_ne_empty _ : (core.engine.submit request).2.orderId ≠ "")
  rw [horderId] at hpersisted
  -- the order is stored before its updates, so none of them makes a record of its own
  have hstored : (SimulationRuntime.persistNewOrder repository request (core.engine.submit request).2).termsOf
      core.engine.issuedOrderId ≠ none := by
    rw [hpersisted]
    split
    · exact Option.some_ne_none _
    · rename_i hno
      exact fun hnone => hno ⟨rfl, hnone⟩
  have hterms : ∀ id, ((core.engine.submit request).2.updates.foldl InMemoryOrderRepository.saveOrderUpdate
      (SimulationRuntime.persistNewOrder repository request (core.engine.submit request).2)).termsOf id =
        if core.engine.issuedOrderId = id ∧ repository.termsOf id = none then some request.terms
        else repository.termsOf id := by
    intro id
    rw [InMemoryOrderRepository.termsOf_updates fun u hu => by rw [hupdates u hu]; exact hstored, hpersisted]
  refine ⟨_, ⟨by rw [step, onSubmit_repository, h.repository_eq]; rfl, ?_,
    (h.keyed.persistNewOrder _ _).updates _, fun id id' hid => ?_⟩, hterms, ?_⟩
  · rw [hengine]
    exact MatchingEngine.booksOk_step h.booksOk (.submit request)
  · rw [hengine, htracked] at hid
    rw [hterms]
    split at hid
    · rename_i hissued
      cases hid
      refine ⟨hissued, ?_⟩
      split
      · exact Option.some_ne_none _
      · rename_i hno
        exact fun hnone => hno ⟨hissued, hnone⟩
    · rename_i hissued
      rw [if_neg fun hi => hissued hi.1]
      exact h.tracked id id' hid
  · rw [hengine]
    exact MatchingEngine.submit_nextOrderId _ _

/-- A tracked id is stored, so an id is new when it is not stored. -/
private theorem issuesNew_iff (request : OrderRequest) :
    core.IssuesNew (.submit request) ↔ repository.termsOf core.engine.issuedOrderId = none := by
  have horderId := (MatchingEngine.submit_issuesId h.booksOk request).orderId
  rw [IssuesNew, horderId, h.repository_eq, Option.bind_some, InMemoryOrderRepository.getOrder_eq_none_iff]
  refine and_iff_left_of_imp fun hnone => ?_
  cases htracked : core.engine.getOrder core.engine.issuedOrderId with
  | none => rfl
  | some r =>
    have hid : trackedId core.engine.orders core.engine.issuedOrderId = some r.orderId :=
      congrArg (Option.map OrderRecord.orderId) htracked
    exact absurd hnone (h.tracked _ _ hid).2

end Tracks

/-! ### A run of calls -/

/-- What a run of calls does to the stored orders: it keeps their terms, and it stores the ids that it issues. -/
structure Grows (core : TradingCore) (ops : List TradingOp) (repository repository' : InMemoryOrderRepository) :
    Prop where
  tracks : (machine.run core ops).Tracks repository'
  kept : ∀ id, repository.termsOf id ≠ none → repository'.termsOf id = repository.termsOf id
  stored : ∀ id, repository'.termsOf id = none ↔ repository.termsOf id = none ∧
    ∀ k < (ops.filterMap TradingOp.request?).length, id ≠ matchOrderId (core.engine.nextOrderId + k)
  admissible : machine.Admissible IssuesNew core ops ↔
    ∀ k < (ops.filterMap TradingOp.request?).length,
      repository.termsOf (matchOrderId (core.engine.nextOrderId + k)) = none
  issued : machine.Admissible IssuesNew core ops →
    ∀ entry ∈ core.issued ops, repository'.termsOf entry.1 = some entry.2.terms

theorem Grows.market {core : TradingCore} {event : MarketEvent} {ops : List TradingOp}
    {repository repository₁ repository' : InMemoryOrderRepository}
    (hterms : ∀ id, repository₁.termsOf id = repository.termsOf id)
    (hnext : (core.step (.market event)).engine.nextOrderId = core.engine.nextOrderId)
    (h : (core.step (.market event)).Grows ops repository₁ repository') :
    core.Grows (.market event :: ops) repository repository' := by
  obtain ⟨htracks, hkept, hstored, hadm, hissued⟩ := h
  simp only [hterms, hnext] at hkept hstored hadm
  exact ⟨htracks, hkept, hstored, (and_iff_right trivial).trans hadm, fun hok => hissued hok.2⟩

/-- A submit before a run: its id is the first of those that are issued. -/
theorem Grows.submit {core : TradingCore} {request : OrderRequest} {ops : List TradingOp}
    {repository repository₁ repository' : InMemoryOrderRepository} (ht : core.Tracks repository)
    (hterms : ∀ id, repository₁.termsOf id = if core.engine.issuedOrderId = id ∧ repository.termsOf id = none then
      some request.terms else repository.termsOf id)
    (hnext : (core.step (.submit request)).engine.nextOrderId = core.engine.nextOrderId + 1)
    (h : (core.step (.submit request)).Grows ops repository₁ repository') :
    core.Grows (.submit request :: ops) repository repository' := by
  obtain ⟨htracks, hkept, hstored, hadm, hissued⟩ := h
  have hold : ∀ id, repository.termsOf id ≠ none → repository₁.termsOf id = repository.termsOf id := by
    intro id hid
    rw [hterms, if_neg fun hi => hid hi.2]
  have hnew : ∀ id, repository₁.termsOf id = none ↔
      repository.termsOf id = none ∧ id ≠ core.engine.issuedOrderId := by
    intro id
    rw [hterms]
    by_cases hi : core.engine.issuedOrderId = id ∧ repository.termsOf id = none
    · rw [if_pos hi]
      exact iff_of_false (Option.some_ne_none _) fun hne => hne.2 hi.1.symm
    · rw [if_neg hi]
      exact (and_iff_left_of_imp fun hnone hid => hi ⟨hid.symm, hnone⟩).symm
  have hcount : ((TradingOp.submit request :: ops).filterMap TradingOp.request?).length =
      (ops.filterMap TradingOp.request?).length + 1 := rfl
  have hnumber : ∀ k, core.engine.nextOrderId + 1 + k = core.engine.nextOrderId + (k + 1) :=
    fun k => by rw [add_assoc, add_comm 1 k]
  refine ⟨htracks, fun id hid => ?_, fun id => ?_, ?_, ?_⟩
  · rw [hkept id (hold id hid ▸ hid), hold id hid]
  · rw [hstored, hnew, hcount, Nat.forall_lt_succ_left, and_assoc, hnext]
    simp only [hnumber, add_zero]
    rfl
  · rw [Machine.Admissible, ht.issuesNew_iff, hcount, Nat.forall_lt_succ_left, add_zero]
    refine and_congr_right fun _ => hadm.trans ?_
    rw [hnext]
    refine forall₂_congr fun k _ => ?_
    -- the later ids differ from the first one, which the repository now holds
    rw [hnumber, hnew]
    refine and_iff_left fun hid => ?_
    exact absurd (MatchingEngine.matchOrderId_injective hid) (by omega)
  · rintro ⟨hok, hrest⟩ entry hentry
    rcases List.mem_append.1 hentry with hentry | hentry
    · obtain rfl := List.mem_singleton.1 hentry
      have hfirst : repository₁.termsOf core.engine.issuedOrderId = some request.terms := by
        rw [hterms, if_pos ⟨rfl, (ht.issuesNew_iff request).1 hok⟩]
      dsimp only
      rw [(MatchingEngine.submit_issuesId ht.booksOk request).orderId,
        hkept _ (hfirst ▸ Option.some_ne_none _), hfirst]
    · exact hissued hrest entry hentry

theorem Tracks.run {core : TradingCore} {repository : InMemoryOrderRepository} (h : core.Tracks repository)
    (ops : List TradingOp) : ∃ repository', core.Grows ops repository repository' := by
  induction ops generalizing core repository with
  | nil => exact ⟨repository, h, fun _ _ => rfl, by simp, by simp [Machine.Admissible], by simp [issued]⟩
  | cons op ops ih =>
    cases op with
    | market event =>
      obtain ⟨repository₁, h₁, hterms, hnext⟩ := h.market event
      obtain ⟨repository', hgrows⟩ := ih h₁
      exact ⟨repository', hgrows.market hterms hnext⟩
    | submit request =>
      obtain ⟨repository₁, h₁, hterms, hnext⟩ := h.submit request
      obtain ⟨repository', hgrows⟩ := ih h₁
      exact ⟨repository', hgrows.submit h hterms hnext⟩

end TradingCore

/-! ### Sessions on one repository -/

namespace Session

variable {σ : Type*}

/-- The requests that the session submits to the engine, in order. -/
def requests (session : Session σ) : List OrderRequest := session.calls.filterMap TradingOp.request?

/-- The ids that the session issues, each with the request that it is issued for. -/
def issued (session : Session σ) : List (String × OrderRequest) :=
  TradingCore.issued session.start.core session.calls

/-- Every id that the session issues is new when it is issued. -/
def IdsNew (session : Session σ) : Prop :=
  TradingCore.machine.Admissible TradingCore.IssuesNew session.start.core session.calls

/-- The order repository that the session leaves behind. -/
def leaves (session : Session σ) : InMemoryOrderRepository := session.finish.orderRepository.getD {}

/-- Each session works on the repository that the one before it left, the first one on `repository`. -/
def ShareOrders : InMemoryOrderRepository → List (Session σ) → Prop
  | _, [] => True
  | repository, session :: sessions =>
    (session.config.orderRepository = some repository ∧ session.service.orderRepository = repository) ∧
      ShareOrders session.leaves sessions

/-- The repository after the sessions. -/
def ordersAfter (repository : InMemoryOrderRepository) (sessions : List (Session σ)) : InMemoryOrderRepository :=
  sessions.foldl (fun _ session => session.leaves) repository

/-- Every issued id stays stored with the terms of the request that it was issued for. -/
def TermsKept (repository : InMemoryOrderRepository) (sessions : List (Session σ)) : Prop :=
  ∀ session ∈ sessions, ∀ entry ∈ session.issued,
    ∃ r, (ordersAfter repository sessions).getOrder entry.1 = some r ∧ r.terms = entry.2.terms

/-- At most one session submits, and none of the ids that it then counts through is stored at the beginning. -/
def SubmitsOnce (repository : InMemoryOrderRepository) (sessions : List (Session σ)) : Prop :=
  (sessions.Pairwise fun session session' => session.requests = [] ∨ session'.requests = []) ∧
    ∀ session ∈ sessions, ∀ k < session.requests.length, repository.getOrder (matchOrderId (k + 1)) = none

/-- After the recovery every tracked order is one that was restored, so it is stored. -/
private theorem start_tracks {session : Session σ} {repository : InMemoryOrderRepository} (hkeyed : repository.Keyed)
    (hconfig : session.config.orderRepository = some repository)
    (hservice : session.service.orderRepository = repository) : session.start.core.Tracks repository := by
  refine ⟨session.start_orderRepository.trans hconfig, session.start_booksOk, hkeyed, fun id id' hid => ?_⟩
  obtain ⟨r, hr, rfl⟩ := Option.map_eq_some_iff.1 hid
  rw [show session.start.core.engine = _ from session.start_executionEngine] at hr
  rcases MatchingEngine.restoreRecords_orders hr with hr | ⟨order, horder, rfl, horderId⟩
  · simp at hr
  · have hstored := session.iteration.openOrders_perm.mem_iff.1 horder
    rw [hservice] at hstored
    refine ⟨horderId, fun hnone => ?_⟩
    rw [← InMemoryOrderRepository.getOrder_eq_none_iff, (hkeyed.mem_allOpenOrders.1 hstored).1] at hnone
    cases hnone

private theorem leaves_grows {session : Session σ} {repository : InMemoryOrderRepository} (hkeyed : repository.Keyed)
    (hconfig : session.config.orderRepository = some repository)
    (hservice : session.service.orderRepository = repository) :
    session.start.core.Grows session.calls repository session.leaves := by
  obtain ⟨repository', hgrows⟩ := (start_tracks hkeyed hconfig hservice).run session.calls
  have hleaves : session.leaves = repository' := by
    have h := hgrows.tracks.repository_eq
    rw [← finish_core] at h
    rw [leaves, show session.finish.orderRepository = some repository' from h, Option.getD_some]
  rw [hleaves]
  exact hgrows

/-- What the sessions do to the stored orders. -/
private theorem termsOf_ordersAfter {repository : InMemoryOrderRepository} (hkeyed : repository.Keyed)
    {sessions : List (Session σ)} (hshare : ShareOrders repository sessions) {id : String}
    (hid : repository.termsOf id ≠ none) : (ordersAfter repository sessions).termsOf id = repository.termsOf id := by
  induction sessions generalizing repository with
  | nil => rfl
  | cons session sessions ih =>
    have hgrows := leaves_grows hkeyed hshare.1.1 hshare.1.2
    have hkept := hgrows.kept id hid
    exact (ih hgrows.tracks.keyed hshare.2 (hkept ▸ hid)).trans hkept

/-- Two sessions count through disjoint ids when one of them issues none. -/
private theorem disjoint_numbers {m n : Nat} :
    (∀ k < m, ∀ j < n, matchOrderId (k + 1) ≠ matchOrderId (j + 1)) ↔ n = 0 ∨ m = 0 := by
  constructor
  · intro h
    by_contra hno
    push Not at hno
    exact h 0 (Nat.pos_of_ne_zero hno.2) 0 (Nat.pos_of_ne_zero hno.1) rfl
  · rintro (rfl | rfl) k hk j hj
    · cases hj
    · cases hk

private theorem submitsOnce_cons {repository : InMemoryOrderRepository} {session : Session σ}
    {sessions : List (Session σ)} (hgrows : session.start.core.Grows session.calls repository session.leaves) :
    SubmitsOnce repository (session :: sessions) ↔ session.IdsNew ∧ SubmitsOnce session.leaves sessions := by
  have hfirst : session.start.core.engine.nextOrderId = 1 := session.start_counters.1
  have hnew : session.IdsNew ↔ ∀ k < session.requests.length, repository.getOrder (matchOrderId (k + 1)) = none := by
    refine hgrows.admissible.trans (forall₂_congr fun k _ => ?_)
    rw [hfirst, add_comm, InMemoryOrderRepository.getOrder_eq_none_iff]
  have hstored : ∀ k, session.leaves.getOrder (matchOrderId (k + 1)) = none ↔
      repository.getOrder (matchOrderId (k + 1)) = none ∧
        ∀ j < session.requests.length, matchOrderId (k + 1) ≠ matchOrderId (j + 1) := by
    intro k
    simp only [InMemoryOrderRepository.getOrder_eq_none_iff, hgrows.stored, hfirst, add_comm 1]
    rfl
  have hdisjoint : ∀ session' : Session σ, (∀ k < session'.requests.length, ∀ j < session.requests.length,
      matchOrderId (k + 1) ≠ matchOrderId (j + 1)) ↔ session.requests = [] ∨ session'.requests = [] := by
    intro session'
    rw [disjoint_numbers, List.length_eq_zero_iff, List.length_eq_zero_iff]
  unfold SubmitsOnce
  rw [hnew, List.pairwise_cons, List.forall_mem_cons]
  constructor
  · rintro ⟨⟨hpair, hpairs⟩, hown, hothers⟩
    refine ⟨hown, hpairs, fun session' hmem k hk => (hstored k).2 ⟨hothers session' hmem k hk, ?_⟩⟩
    exact (hdisjoint session').2 (hpair session' hmem) k hk
  · rintro ⟨hown, hpairs, hothers⟩
    refine ⟨⟨fun session' hmem => (hdisjoint session').1 fun k hk => ?_, hpairs⟩, hown, fun session' hmem k hk => ?_⟩
    · exact ((hstored k).1 (hothers session' hmem k hk)).2
    · exact ((hstored k).1 (hothers session' hmem k hk)).1

private theorem idsNew_iff {repository : InMemoryOrderRepository} (hkeyed : repository.Keyed)
    {sessions : List (Session σ)} (hshare : ShareOrders repository sessions) :
    (∀ session ∈ sessions, session.IdsNew) ↔ SubmitsOnce repository sessions := by
  induction sessions generalizing repository with
  | nil => simp [SubmitsOnce]
  | cons session sessions ih =>
    have hgrows := leaves_grows hkeyed hshare.1.1 hshare.1.2
    rw [List.forall_mem_cons, submitsOnce_cons hgrows, ih hgrows.tracks.keyed hshare.2]

/-- New ids keep their terms. -/
private theorem termsKept_of_idsNew {repository : InMemoryOrderRepository} (hkeyed : repository.Keyed)
    {sessions : List (Session σ)} (hshare : ShareOrders repository sessions)
    (hnew : ∀ session ∈ sessions, session.IdsNew) : TermsKept repository sessions := by
  induction sessions generalizing repository with
  | nil => exact fun session hmem => absurd hmem List.not_mem_nil
  | cons session sessions ih =>
    have hgrows := leaves_grows hkeyed hshare.1.1 hshare.1.2
    rw [List.forall_mem_cons] at hnew
    rw [TermsKept, List.forall_mem_cons]
    refine ⟨fun entry hentry => ?_, ih hgrows.tracks.keyed hshare.2 hnew.2⟩
    have hstored := hgrows.issued hnew.1 entry hentry
    have hafter := termsOf_ordersAfter hgrows.tracks.keyed hshare.2 (hstored ▸ Option.some_ne_none _)
    exact Option.map_eq_some_iff.1 (hafter.trans hstored)

end Session

end Wall
