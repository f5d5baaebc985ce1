import Wall.RuntimeFrames

/-!
# The persisted market view

`apply` of the market state store merges an event into what it knows of the instrument, and ignores an event that is
out of order.  `persist_market_snapshot` writes the event alone.  The two agree after every event exactly if every
market event is in order and says again, or for the first time, what the store knows (`market_view_mirrored_iff`).
-/

namespace Wall

/-- The snapshot says what the state says. -/
structure MarketSnapshot.Agrees (snapshot : MarketSnapshot) (state : MarketState) : Prop where
  bestBid : snapshot.bestBid = state.bestBid
  bestAsk : snapshot.bestAsk = state.bestAsk
  lastTradePrice : snapshot.lastTradePrice = state.lastTradePrice
  lastTradeQuantity : snapshot.lastTradeQuantity = state.lastTradeQuantity
  lastProcessTimestamp : snapshot.lastProcessTimestamp = state.lastProcessTimestamp

/-- The event is not older than the state.  It carries a quote for each side that the state has one for, and it is a
trade, or the state has no other trade price and quantity than those of the event. -/
structure MarketState.Renewed (state : MarketState) (event : MarketEvent) : Prop where
  inOrder : ¬(state.lastProcessTimestamp > 0 ∧ event.processTimestamp < state.lastProcessTimestamp)
  bid : event.bidLevels ≠ [] ∨ event.bidPrice.isSome ∨ state.bestBid = none
  ask : event.askLevels ≠ [] ∨ event.askPrice.isSome ∨ state.bestAsk = none
  trade : (event.quantity > 0 ∧ event.price > 0) ∨
    (state.lastTradePrice = (if event.price > 0 then some event.price else none) ∧
      state.lastTradeQuantity = if event.quantity > 0 then some event.quantity else none)

namespace SimulationRuntime

variable {σ : Type*}

/-- The instrument of a market event. -/
def instrumentOf : EngineEvent → Option String
  | .market event => some event.instrument.instrumentId
  | _ => none

/-- The instruments that have received an event. -/
def received (inputs : List RuntimeInput) : List String := inputs.filterMap fun input => instrumentOf input.event

/-- The cache has a snapshot of the instrument, the store a state, and they agree. -/
def ViewMirrored (runtime : SimulationRuntime σ) (instrumentId : String) : Prop :=
  ∃ cache ∈ runtime.marketStateCache, ∃ snapshot ∈ cache.getSnapshot instrumentId,
    ∃ state ∈ runtime.marketStateStore.get instrumentId, snapshot.Agrees state

/-- A market event renews what the store knows of its instrument. -/
def RenewsView (runtime : SimulationRuntime σ) (input : RuntimeInput) : Prop :=
  ∀ event, input.event = .market event →
    ((runtime.marketStateStore.get event.instrument.instrumentId).getD {}).Renewed event

end SimulationRuntime

namespace MarketStateStore

open KeyedMap

/-- What `apply` does to the state of the event's instrument. -/
def merge (state : MarketState) (event : MarketEvent) : MarketState :=
  if state.lastProcessTimestamp > 0 ∧ event.processTimestamp < state.lastProcessTimestamp then state
  else
    { (state.updateQuotes event).updateTrade event with
      lastExchangeTimestamp := event.exchangeTimestamp
      lastReceiveTimestamp := event.receiveTimestamp
      lastProcessTimestamp := event.processTimestamp }

theorem get_apply (store : MarketStateStore) (event : MarketEvent) (i : String) : (store.apply event).get i =
    if event.instrument.instrumentId = i then some (merge ((store.get event.instrument.instrumentId).getD {}) event)
    else store.get i :=
  getElem?_modifyD _ _ _ _

/-- An event that is older than the state leaves the store as it is. -/
theorem apply_of_stale {store : MarketStateStore} {event : MarketEvent} {state : MarketState}
    (hstate : store.get event.instrument.instrumentId = some state) (hpos : state.lastProcessTimestamp > 0)
    (hstale : event.processTimestamp < state.lastProcessTimestamp) : store.apply event = store := by
  have hmerge : merge state event = state := if_pos ⟨hpos, hstale⟩
  have hget : ∀ i, (store.apply event).get i = store.get i := by
    intro i
    rw [get_apply]
    split
    · rename_i hi
      rw [← hi, hstate, Option.getD_some, hmerge]
    · rfl
  exact congrArg MarketStateStore.mk (Std.ExtTreeMap.ext_getElem? hget)

/-- A quote of the event alone is the merged one exactly if the event has one or none is known. -/
private theorem quote_eq_iff (levels : List BookLevel) (quote known : Option ℚ) :
    (match levels with
      | level :: _ => some level.price
      | [] => quote) =
        (match levels with
          | level :: _ => some level.price
          | [] => if quote.isSome then quote else known) ↔ levels ≠ [] ∨ quote.isSome ∨ known = none := by
  cases levels with
  | cons level levels => simp
  | nil => cases quote <;> simp [eq_comm]

/-- The snapshot of an event agrees with the merged state exactly if the event renews the state. -/
private theorem agrees_merge_iff (state : MarketState) (event : MarketEvent) :
    (SimulationRuntime.marketSnapshot event).Agrees (merge state event) ↔ state.Renewed event := by
  have hbid := quote_eq_iff event.bidLevels event.bidPrice state.bestBid
  have hask := quote_eq_iff event.askLevels event.askPrice state.bestAsk
  unfold merge
  by_cases horder : state.lastProcessTimestamp > 0 ∧ event.processTimestamp < state.lastProcessTimestamp
  · -- the store keeps its newer timestamp
    rw [if_pos horder]
    refine iff_of_false (fun h => ?_) fun h => h.inOrder horder
    exact horder.2.ne h.lastProcessTimestamp
  · rw [if_neg horder]
    by_cases htrade : event.quantity > 0 ∧ event.price > 0
    · constructor
      · intro h
        rw [MarketState.updateTrade, if_pos htrade] at h
        exact ⟨horder, hbid.1 h.bestBid, hask.1 h.bestAsk, .inl htrade⟩
      · intro h
        rw [MarketState.updateTrade, if_pos htrade]
        exact ⟨hbid.2 h.bid, hask.2 h.ask, if_pos htrade.2, if_pos htrade.1, rfl⟩
    · constructor
      · intro h
        rw [MarketState.updateTrade, if_neg htrade] at h
        exact ⟨horder, hbid.1 h.bestBid, hask.1 h.bestAsk, .inr ⟨h.lastTradePrice.symm, h.lastTradeQuantity.symm⟩⟩
      · intro h
        obtain ⟨hprice, hquantity⟩ := h.trade.resolve_left htrade
        rw [MarketState.updateTrade, if_neg htrade]
        exact ⟨hbid.2 h.bid, hask.2 h.ask, hprice.symm, hquantity.symm, rfl⟩

end MarketStateStore

namespace SimulationRuntime

variable {σ : Type*}

/-- An event of another kind or instrument leaves the view of an instrument as it is. -/
private theorem viewMirrored_onEvent_of_ne {runtime : SimulationRuntime σ} {input : RuntimeInput} {i : String}
    (hne : instrumentOf input.event ≠ some i) : (runtime.onEvent input).ViewMirrored i ↔ runtime.ViewMirrored i := by
  obtain ⟨-, -, hstore⟩ := onEvent_frame runtime input
  rw [ViewMirrored, ViewMirrored, hstore, onEvent_cache]
  cases hevent : input.event with
  | market event =>
    rw [hevent, instrumentOf, ne_eq, Option.some.injEq] at hne
    rw [nextStore, nextCache, MarketStateStore.get_apply, if_neg hne]
    cases runtime.marketStateCache with
    | none => simp
    | some cache =>
      have hcache : (cache.upsertSnapshot (marketSnapshot event)).getSnapshot i = cache.getSnapshot i := by
        rw [InMemoryMarketStateCache.getSnapshot, InMemoryMarketStateCache.upsertSnapshot, KeyedMap.getElem?_insert,
          marketSnapshot, if_neg hne]
        rfl
      simp [hcache]
  | timer => rfl
  | transaction => rfl

/-- After a market event the view of its instrument agrees exactly if the event renews what the store knew. -/
private theorem viewMirrored_onEvent {runtime : SimulationRuntime σ} (hcache : runtime.marketStateCache.isSome)
    {input : RuntimeInput} {event : MarketEvent} (hevent : input.event = .market event) :
    (runtime.onEvent input).ViewMirrored event.instrument.instrumentId ↔ runtime.RenewsView input := by
  obtain ⟨-, -, hstore⟩ := onEvent_frame runtime input
  obtain ⟨cache, hcache⟩ := Option.isSome_iff_exists.1 hcache
  have hsnapshot : (cache.upsertSnapshot (marketSnapshot event)).getSnapshot event.instrument.instrumentId =
      some (marketSnapshot event) := by
    rw [InMemoryMarketStateCache.getSnapshot, InMemoryMarketStateCache.upsertSnapshot, KeyedMap.getElem?_insert,
      marketSnapshot, if_pos rfl]
  rw [ViewMirrored, hstore, onEvent_cache, hevent, nextStore, nextCache, hcache, MarketStateStore.get_apply, if_pos rfl]
  simp only [Option.map_some, Option.mem_def, Option.some.injEq, exists_eq_left', hsnapshot,
    MarketStateStore.agrees_merge_iff, RenewsView, hevent, EngineEvent.market.injEq, forall_eq']

private theorem received_append (before : List RuntimeInput) (input : RuntimeInput) :
    received (before ++ [input]) = received before ++ (instrumentOf input.event).toList := by
  rw [received, List.filterMap_append]
  cases h : instrumentOf input.event <;> simp [received, h]

/-- Where the views agree, they agree after one more event exactly if it renews what the store knows. -/
private theorem viewsMirrored_step (before : List RuntimeInput) (runtime : SimulationRuntime σ) (input : RuntimeInput)
    (hcache : runtime.marketStateCache.isSome) (h : ∀ i ∈ received before, runtime.ViewMirrored i) :
    (∀ i ∈ received (before ++ [input]), (runtime.onEvent input).ViewMirrored i) ↔ runtime.RenewsView input := by
  rw [received_append, List.forall_mem_append]
  have hother : instrumentOf input.event = none →
      ∀ i ∈ received before, (runtime.onEvent input).ViewMirrored i := fun hnone i hi =>
    (viewMirrored_onEvent_of_ne (by simp [hnone])).2 (h i hi)
  cases hevent : input.event with
  | market event =>
    rw [← viewMirrored_onEvent hcache hevent]
    simp only [instrumentOf, Option.toList_some, List.forall_mem_singleton, and_iff_right_iff_imp]
    intro hview i hi
    by_cases heq : event.instrument.instrumentId = i
    · rwa [← heq]
    · refine (viewMirrored_onEvent_of_ne ?_).2 (h i hi)
      rw [hevent, instrumentOf, ne_eq, Option.some.injEq]
      exact heq
  | timer event =>
    refine iff_of_true ⟨hother (by rw [hevent]; rfl), by simp [instrumentOf]⟩ ?_
    intro event hmarket
    rw [hevent] at hmarket
    cases hmarket
  | transaction command =>
    refine iff_of_true ⟨hother (by rw [hevent]; rfl), by simp [instrumentOf]⟩ ?_
    intro event hmarket
    rw [hevent] at hmarket
    cases hmarket

private theorem cache_isSome_step (runtime : SimulationRuntime σ) (input : RuntimeInput)
    (hcache : runtime.marketStateCache.isSome) : (runtime.onEvent input).marketStateCache.isSome := by
  rw [onEvent_cache]
  cases input.event <;> simpa [nextCache] using hcache

/-- In a run with a market cache, the cached view of every instrument that has received an event equals the live one
after every event, exactly if every market event renews what the store knows of its instrument. -/
theorem market_view_mirrored_iff {runtime : SimulationRuntime σ} (hcache : runtime.marketStateCache.isSome)
    (inputs : List RuntimeInput) :
    (∀ before, before <+: inputs → ∀ i ∈ received before, (machine.run runtime before).ViewMirrored i) ↔
      machine.Admissible RenewsView runtime inputs := by
  have hnone : ∀ i ∈ received [], runtime.ViewMirrored i := by simp [received]
  exact Machine.forall_prefix_iff (M := machine)
    (P := fun before runtime => ∀ i ∈ received before, runtime.ViewMirrored i)
    cache_isSome_step viewsMirrored_step hcache hnone inputs

/-- A fresh runtime without strategies, with an empty market cache. -/
def cachedRuntime : SimulationRuntime Unit := fresh {} { strategyCoordinator := {}, marketStateCache := some {} }

/-- A market event of `btc-usdt`, read at its time. -/
def marketInput (time : Int) (bidPrice askPrice : Option ℚ) (price quantity : ℚ) : RuntimeInput where
  event := .market
    { instrument := { instrumentId := "btc-usdt" }, price := price, quantity := quantity, bidPrice := bidPrice
      askPrice := askPrice, processTimestamp := time }
  strategyClock _ := time
  now _ := time
  paused _ := false

theorem market_view_mirrored_iff_marketInput :
    let inputs := [marketInput 1000 none none 100 1, marketInput 2000 (some 99) (some 101) 100 2]
    (machine.run cachedRuntime inputs).ViewMirrored "btc-usdt" := by
  intro inputs
  have hcache : cachedRuntime.marketStateCache.isSome := rfl
  refine (market_view_mirrored_iff hcache inputs).2 ⟨?_, ?_, trivial⟩ inputs (List.prefix_refl _) "btc-usdt" (by decide)
  · rintro event ⟨⟩
    exact ⟨by decide +kernel, .inr (.inr (by decide +kernel)), .inr (.inr (by decide +kernel)),
      .inl (by decide +kernel)⟩
  · rintro event ⟨⟩
    exact ⟨by decide +kernel, .inr (.inl rfl), .inr (.inl rfl), .inl (by decide +kernel)⟩

/-- A quote, then a trade without one: the store keeps the quote, the cached snapshot has none. -/
theorem trade_erases_cached_quote :
    let runtime :=
      machine.run cachedRuntime [marketInput 1000 (some 99) (some 101) 0 0, marketInput 2000 none none 100 1]
    (runtime.marketStateStore.get "btc-usdt").map MarketState.bestBid = some (some 99) ∧
      (runtime.marketStateCache.bind fun cache => cache.getSnapshot "btc-usdt").map MarketSnapshot.bestBid = some none ∧
      ¬runtime.ViewMirrored "btc-usdt" := by
  intro runtime
  have hbid : (runtime.marketStateStore.get "btc-usdt").map MarketState.bestBid = some (some 99) := by decide +kernel
  have hcached : (runtime.marketStateCache.bind fun cache => cache.getSnapshot "btc-usdt").map
      MarketSnapshot.bestBid = some none := by decide +kernel
  refine ⟨hbid, hcached, ?_⟩
  rintro ⟨cache, hcache, snapshot, hsnapshot, state, hstate, hagrees⟩
  rw [Option.mem_def] at hcache hsnapshot hstate
  simp only [hcache, hsnapshot, hstate, Option.bind_some, Option.map_some, Option.some.injEq] at hbid hcached
  rw [hagrees.bestBid, hbid] at hcached
  cases hcached

end SimulationRuntime

end Wall
