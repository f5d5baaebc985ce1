import Wall.RecoveryService
import Wall.CoreRuns
import Wall.Uncrossed

/-!
# Processes that start again

A `Session` is one life of a process: a fresh runtime, `recover` and `restoreRuntime`, and the events that are handled
until it ends.  Of the runtime the recovery changes the positions, the balances, the market state and the engine; the
engine starts from nothing, so its counters start at one, and the open orders are restored into it one by one, in the
order that the repository returned them in (`start_executionEngine`).  What is durable, the repositories, is handed
from one session to the next.
-/

namespace Wall

open KeyedMap

/-! ### The records of a repository -/

namespace InMemoryOrderRepository

/-- Every record is stored under its own id. -/
def Keyed (repository : InMemoryOrderRepository) : Prop :=
  ∀ id r, repository.getOrder id = some r → r.orderId = id

instance (repository : InMemoryOrderRepository) : Decidable repository.Keyed :=
  decidable_of_iff (∀ entry ∈ repository.orders.toList, entry.2.orderId = entry.1)
    ⟨fun h id r hr => h (id, r) (Std.ExtTreeMap.mem_toList_iff_getElem?_eq_some.2 hr),
      fun h entry hentry => h entry.1 entry.2 (Std.ExtTreeMap.mem_toList_iff_getElem?_eq_some.1 hentry)⟩

namespace Keyed

theorem empty : ({} : InMemoryOrderRepository).Keyed := fun _ _ h => nomatch h

variable {repository : InMemoryOrderRepository} (h : repository.Keyed)
include h

theorem insert {id : String} {r : OrderRecord} (hr : r.orderId = id) :
    InMemoryOrderRepository.Keyed ⟨repository.orders.insert id r⟩ :=
  KeyedMap.forall_insert h hr

theorem saveOrder (request : OrderRequest) (orderId clientOrderId : String) :
    (repository.saveOrder request orderId clientOrderId).Keyed :=
  h.insert rfl

theorem saveOrderUpdate (update : OrderUpdate) : (repository.saveOrderUpdate update).Keyed := by
  unfold InMemoryOrderRepository.saveOrderUpdate
  split
  · rename_i order horder
    exact h.insert (h _ order horder)
  · exact h.insert rfl

theorem mem_allOpenOrders {r : OrderRecord} :
    r ∈ repository.allOpenOrders ↔ repository.getOrder r.orderId = some r ∧ selectsStatus r.status = true := by
  rw [allOpenOrders, List.mem_filter]
  refine and_congr_left fun _ => ?_
  constructor
  · intro hr
    obtain ⟨⟨id, r'⟩, hmem, rfl⟩ := List.mem_map.1 hr
    have hstored := Std.ExtTreeMap.mem_toList_iff_getElem?_eq_some.1 hmem
    rw [h id r' hstored]
    exact hstored
  · intro hr
    exact List.mem_map.2 ⟨(r.orderId, r), Std.ExtTreeMap.mem_toList_iff_getElem?_eq_some.2 hr, rfl⟩

/-- No two open records have one id. -/
theorem nodup_allOpenOrders : (repository.allOpenOrders.map OrderRecord.orderId).Nodup := by
  refine List.Nodup.sublist (List.filter_sublist.map _) ?_
  have hnodup := KeyedMap.nodup_map_key OrderRecord.orderId id h
  rwa [List.map_id] at hnodup

end Keyed

end InMemoryOrderRepository

/-! ### What restoring does to the engine -/

/-- The request that `SimulationRuntime::restore_open_order` makes of a record. -/
def OrderRecord.restoredRequest (order : OrderRecord) : OrderRequest where
  requestId := order.orderId
  strategyId := order.strategyId
  instrument := { instrumentId := order.instrumentId }
  side := order.side
  type := order.orderType
  quantity := order.quantity
  price := order.price

/-- What the runtime's `restoreOpenOrder` does to its engine. -/
def MatchingEngine.restoreRecord (engine : MatchingEngine) (order : OrderRecord) : MatchingEngine :=
  engine.restoreOpenOrder order.orderId order.clientOrderId order.restoredRequest order.filledQuantity

theorem foldl_frame {α β γ : Type*} {f : α → β → α} {g : α → γ} (h : ∀ a b, g (f a b) = g a) (l : List β) (a : α) :
    g (l.foldl f a) = g a := by
  induction l generalizing a with
  | nil => rfl
  | cons b l ih => rw [List.foldl_cons, ih, h]

namespace RecoveryService

variable {σ : Type*} (service : RecoveryService) (snapshot : RecoverySnapshot) (runtime : SimulationRuntime σ)

/-- A part of the runtime that only the restored orders change. -/
theorem restoreRuntime_image {γ : Type*} {g : SimulationRuntime σ → γ} {f : γ → OrderRecord → γ}
    (horder : ∀ runtime order, g (SimulationRuntime.restoreOpenOrder runtime order) = f (g runtime) order)
    (hposition : ∀ runtime position, g (SimulationRuntime.restorePosition runtime position) = g runtime)
    (hbalance : ∀ runtime balance, g (SimulationRuntime.restoreBalance runtime balance) = g runtime)
    (hmark : ∀ runtime snapshot, g (SimulationRuntime.restoreMarketSnapshot runtime snapshot) = g runtime) :
    g (service.restoreRuntime snapshot runtime) = snapshot.openOrders.foldl f (g runtime) := by
  unfold restoreRuntime
  dsimp only
  refine (foldl_frame (fun runtime position => ?_) _ _).trans ?_
  · split
    · exact hmark _ _
    · rfl
  · rw [← List.foldl_hom g fun runtime order => (horder runtime order).symm, foldl_frame hbalance,
      foldl_frame hposition]

/-- The open orders of the snapshot are restored one by one. -/
theorem restoreRuntime_executionEngine : (service.restoreRuntime snapshot runtime).executionEngine =
    snapshot.openOrders.foldl MatchingEngine.restoreRecord runtime.executionEngine := by
  refine restoreRuntime_image service snapshot runtime (g := SimulationRuntime.executionEngine) (fun _ _ => rfl)
    (fun _ _ => rfl) (fun _ _ => rfl) fun runtime snapshot => ?_
  unfold SimulationRuntime.restoreMarketSnapshot
  dsimp only
  split <;> rfl

/-- The repositories stay as they are. -/
private theorem restoreRuntime_repositories :
    (service.restoreRuntime snapshot runtime).orderRepository = runtime.orderRepository ∧
      (service.restoreRuntime snapshot runtime).fillRepository = runtime.fillRepository := by
  have h := restoreRuntime_image service snapshot runtime
    (g := fun runtime => (runtime.orderRepository, runtime.fillRepository)) (f := fun repositories _ => repositories)
    (fun _ _ => rfl) (fun _ _ => rfl) (fun _ _ => rfl) fun runtime snapshot => by
      unfold SimulationRuntime.restoreMarketSnapshot
      dsimp only
      split <;> rfl
  exact Prod.mk.inj (h.trans (foldl_frame (g := id) (fun _ _ => rfl) _ _))

end RecoveryService

namespace MatchingEngine

theorem restoreRecord_booksOk {engine : MatchingEngine} (hb : BooksOk engine.books) (order : OrderRecord) :
    BooksOk (engine.restoreRecord order).books :=
  booksOk_step hb (.restoreOpenOrder order.orderId order.clientOrderId order.restoredRequest order.filledQuantity)

private theorem restoreRecord_nextOrderId (engine : MatchingEngine) (order : OrderRecord) :
    (engine.restoreRecord order).nextOrderId = engine.nextOrderId := by
  unfold restoreRecord restoreOpenOrder
  split
  · rfl
  · split
    · rfl
    · split <;> rfl

private theorem restoreRecord_nextFillId (engine : MatchingEngine) (order : OrderRecord) :
    (engine.restoreRecord order).nextFillId = engine.nextFillId := by
  unfold restoreRecord restoreOpenOrder
  split
  · rfl
  · split
    · rfl
    · split <;> rfl

/-- A tracked record was tracked before, or it is the restored one. -/
private theorem restoreRecord_orders {engine : MatchingEngine} {order : OrderRecord} {id : String} {r : OrderRecord}
    (hr : (engine.restoreRecord order).orders[id]? = some r) :
    engine.orders[id]? = some r ∨ id = order.orderId ∧ r.orderId = order.orderId := by
  unfold restoreRecord restoreOpenOrder at hr
  split at hr
  · exact .inl hr
  · split at hr
    · exact .inl hr
    · split at hr
      · rw [KeyedMap.getElem?_insert] at hr
        split at hr
        · rename_i hid
          cases hr
          exact .inr ⟨hid.symm, rfl⟩
        · exact .inl hr
      · rw [KeyedMap.getElem?_erase] at hr
        split at hr
        · cases hr
        · exact .inl hr

theorem restoreRecords_orders {orders : List OrderRecord} {engine : MatchingEngine} {id : String} {r : OrderRecord}
    (hr : (orders.foldl restoreRecord engine).orders[id]? = some r) :
    engine.orders[id]? = some r ∨ ∃ order ∈ orders, id = order.orderId ∧ r.orderId = order.orderId := by
  induction orders generalizing engine with
  | nil => exact .inl hr
  | cons order orders ih =>
    rcases ih hr with h | ⟨order', horder', h⟩
    · rcases restoreRecord_orders h with h | h
      · exact .inl h
      · exact .inr ⟨order, List.mem_cons_self .., h⟩
    · exact .inr ⟨order', List.mem_cons_of_mem _ horder', h⟩

private theorem restoreRecords_booksOk {engine : MatchingEngine} (hb : BooksOk engine.books)
    (orders : List OrderRecord) : BooksOk (orders.foldl restoreRecord engine).books := by
  induction orders generalizing engine with
  | nil => exact hb
  | cons order orders ih => exact ih (restoreRecord_booksOk hb order)

end MatchingEngine

/-! ### The calls of a run of events -/

namespace SimulationRuntime

variable {σ : Type*}

/-- The calls of a run of events that reach the matching engine. -/
def callsOf : SimulationRuntime σ → List RuntimeInput → List TradingOp
  | _, [] => []
  | runtime, input :: inputs => runtime.tradingOps input ++ callsOf (runtime.onEvent input) inputs

/-- A run of events does to the core what the core does with the calls of the run. -/
theorem run_core (runtime : SimulationRuntime σ) (inputs : List RuntimeInput) :
    (machine.run runtime inputs).core = TradingCore.machine.run runtime.core (runtime.callsOf inputs) := by
  induction inputs generalizing runtime with
  | nil => rfl
  | cons input inputs ih =>
    rw [callsOf, Machine.run_append, ← (onEvent_core runtime input).1]
    exact ih _

end SimulationRuntime

/-! ### Sessions -/

/-- One life of a process: its configuration, what its recovery reads, and the events that it handles then. -/
structure Session (σ : Type*) where
  riskConfig : RiskConfig
  config : SimulationRuntimeConfig σ
  service : RecoveryService
  iteration : service.Iteration
  exchangeSnapshots : List MarketSnapshot
  inputs : List RuntimeInput

namespace Session

variable {σ : Type*} (session : Session σ)

/-- The runtime after the recovery. -/
def start : SimulationRuntime σ :=
  let (snapshot, service) := session.service.recover session.iteration session.exchangeSnapshots
  service.restoreRuntime snapshot (SimulationRuntime.fresh session.riskConfig session.config)

/-- The runtime at the end. -/
def finish : SimulationRuntime σ := SimulationRuntime.machine.run session.start session.inputs

/-- The calls of the session that reach the matching engine. -/
def calls : List TradingOp := session.start.callsOf session.inputs

theorem finish_core : session.finish.core = TradingCore.machine.run session.start.core session.calls :=
  SimulationRuntime.run_core _ _

theorem start_executionEngine : session.start.executionEngine =
    session.iteration.openOrders.foldl MatchingEngine.restoreRecord {} :=
  RecoveryService.restoreRuntime_executionEngine _ _ _

theorem start_orderRepository : session.start.orderRepository = session.config.orderRepository :=
  (RecoveryService.restoreRuntime_repositories _ _ _).1

theorem start_fillRepository : session.start.fillRepository = session.config.fillRepository :=
  (RecoveryService.restoreRuntime_repositories _ _ _).2

/-- The counters of the engine start again at one. -/
theorem start_counters : session.start.executionEngine.nextOrderId = 1 ∧
    session.start.executionEngine.nextFillId = 1 := by
  rw [start_executionEngine, foldl_frame (g := MatchingEngine.nextOrderId) MatchingEngine.restoreRecord_nextOrderId,
    foldl_frame (g := MatchingEngine.nextFillId) MatchingEngine.restoreRecord_nextFillId]
  exact ⟨rfl, rfl⟩

theorem start_booksOk : BooksOk session.start.executionEngine.books := by
  rw [start_executionEngine]
  exact MatchingEngine.restoreRecords_booksOk empty_booksOk _

/-- A session on one order repository whose strategy emits the requests at its one event. -/
def exampleSession (repository : InMemoryOrderRepository) (requests : List OrderRequest) : Session Unit where
  riskConfig := { maxOrderQuantity := 10, maxOrderNotional := 1000, maxPositionQuantity := 10, staleAfterMs := 1000 }
  config :=
    { strategyCoordinator := StrategyCoordinator.addStrategy {} (SimulationRuntime.exampleStrategy requests) ()
      orderRepository := some repository }
  service := { orderRepository := repository }
  iteration := RecoveryService.byKey _
  exchangeSnapshots := []
  inputs := [SimulationRuntime.exampleInput []]

end Session

end Wall
