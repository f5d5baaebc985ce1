import Wall.MarketView
import Wall.Lib.Interleaving
import Wall.Lib.TimedLog

/-!
# The market state as a view of the event history

`apply` merges an event field by field and drops it if it is out of order.  For events with positive timestamps the
state of an instrument is a view of its events: the events that are not older than any before them count, and each
field comes from the last of these that says anything about it (`Describes`).
-/

namespace Wall

open Interleaving TimedLog Largest

namespace MarketEvent

/-- The best bid that an event carries: the price of its first bid level, or its bare quote. -/
def bestBid (event : MarketEvent) : Option ℚ :=
  match event.bidLevels with
  | level :: _ => some level.price
  | [] => event.bidPrice

def bestAsk (event : MarketEvent) : Option ℚ :=
  match event.askLevels with
  | level :: _ => some level.price
  | [] => event.askPrice

/-- The bid levels that an event carries, if there are any. -/
def bids (event : MarketEvent) : Option (List BookLevel) :=
  if event.bidLevels = [] then none else some event.bidLevels

def asks (event : MarketEvent) : Option (List BookLevel) :=
  if event.askLevels = [] then none else some event.askLevels

/-- The price and the quantity of a trade, if both are positive. -/
def trade (event : MarketEvent) : Option (ℚ × ℚ) :=
  if event.quantity > 0 ∧ event.price > 0 then some (event.price, event.quantity) else none

def instrumentId (event : MarketEvent) : String := event.instrument.instrumentId

end MarketEvent

/-- The events of an instrument. -/
def eventsOf (i : String) (events : List MarketEvent) : List MarketEvent := ofKey MarketEvent.instrumentId i events

/-- The events of an instrument that are not older than any event of it before them. -/
def acceptedEvents (i : String) (events : List MarketEvent) : List MarketEvent :=
  inOrder MarketEvent.processTimestamp (eventsOf i events)

/-- The state is what the accepted events say last, field by field. -/
structure MarketState.ShowsLatest (state : MarketState) (accepted : List MarketEvent) : Prop where
  bestBid : state.bestBid = latest MarketEvent.bestBid accepted
  bestAsk : state.bestAsk = latest MarketEvent.bestAsk accepted
  bidLevels : state.bidLevels = (latest MarketEvent.bids accepted).getD []
  askLevels : state.askLevels = (latest MarketEvent.asks accepted).getD []
  lastTradePrice : state.lastTradePrice = (latest MarketEvent.trade accepted).map Prod.fst
  lastTradeQuantity : state.lastTradeQuantity = (latest MarketEvent.trade accepted).map Prod.snd

namespace MarketStateStore

/-- An event that is in order, merged into a state. -/
theorem merge_of_inOrder {state : MarketState} {event : MarketEvent}
    (h : ¬(state.lastProcessTimestamp > 0 ∧ event.processTimestamp < state.lastProcessTimestamp)) :
    merge state event =
      { (state.updateQuotes event).updateTrade event with
        lastExchangeTimestamp := event.exchangeTimestamp
        lastReceiveTimestamp := event.receiveTimestamp
        lastProcessTimestamp := event.processTimestamp } := if_neg h

private theorem quote_eq_or (levels : List BookLevel) (quote known : Option ℚ) :
    (match levels with
      | level :: _ => some level.price
      | [] => if quote.isSome then quote else known) =
    (match levels with
      | level :: _ => some level.price
      | [] => quote).or known := by
  cases levels with
  | cons level levels => rfl
  | nil => cases quote <;> rfl

private theorem levels_eq_or (levels : List BookLevel) (known : Option (List BookLevel)) :
    (if levels = [] then known.getD [] else levels) =
      ((if levels = [] then none else some levels).or known).getD [] := by
  by_cases h : levels = []
  · rw [if_pos h, if_pos h, Option.none_or]
  · rw [if_neg h, if_neg h, Option.some_or, Option.getD_some]

/-- An event that is in order becomes the latest. -/
private theorem showsLatest_merge {state : MarketState} {accepted : List MarketEvent} (h : state.ShowsLatest accepted)
    {event : MarketEvent}
    (hinOrder : ¬(state.lastProcessTimestamp > 0 ∧ event.processTimestamp < state.lastProcessTimestamp)) :
    (merge state event).ShowsLatest (accepted ++ [event]) := by
  rw [merge_of_inOrder hinOrder]
  have hquotes : ∀ state' : MarketState, (state'.updateTrade event).bestBid = state'.bestBid ∧
      (state'.updateTrade event).bestAsk = state'.bestAsk ∧ (state'.updateTrade event).bidLevels = state'.bidLevels ∧
      (state'.updateTrade event).askLevels = state'.askLevels := by
    intro state'
    unfold MarketState.updateTrade
    split <;> exact ⟨rfl, rfl, rfl, rfl⟩
  obtain ⟨hbid, hask, hbids, hasks⟩ := hquotes (state.updateQuotes event)
  constructor
  · rw [latest_concat, ← h.bestBid]
    exact hbid.trans (quote_eq_or event.bidLevels event.bidPrice state.bestBid)
  · rw [latest_concat, ← h.bestAsk]
    exact hask.trans (quote_eq_or event.askLevels event.askPrice state.bestAsk)
  · rw [latest_concat]
    refine hbids.trans (Eq.trans ?_ (levels_eq_or event.bidLevels _))
    rw [← h.bidLevels]
    rfl
  · rw [latest_concat]
    refine hasks.trans (Eq.trans ?_ (levels_eq_or event.askLevels _))
    rw [← h.askLevels]
    rfl
  · rw [latest_concat, MarketEvent.trade, MarketState.updateTrade]
    by_cases htrade : event.quantity > 0 ∧ event.price > 0
    · rw [if_pos htrade, if_pos htrade]
      rfl
    · rw [if_neg htrade, if_neg htrade, Option.none_or, ← h.lastTradePrice]
      rfl
  · rw [latest_concat, MarketEvent.trade, MarketState.updateTrade]
    by_cases htrade : event.quantity > 0 ∧ event.price > 0
    · rw [if_pos htrade, if_pos htrade]
      rfl
    · rw [if_neg htrade, if_neg htrade, Option.none_or, ← h.lastTradeQuantity]
      rfl

/-- The state of one instrument after its events. -/
private theorem foldl_merge_spec {events : List MarketEvent} (hpos : ∀ event ∈ events, 0 < event.processTimestamp) :
    (events.foldl merge {}).lastProcessTimestamp = largest 0 (events.map MarketEvent.processTimestamp) ∧
      (events.foldl merge {}).ShowsLatest (inOrder MarketEvent.processTimestamp events) := by
  induction events using List.reverseRecOn with
  | nil => exact ⟨rfl, rfl, rfl, rfl, rfl, rfl, rfl⟩
  | append_singleton events event ih =>
    obtain ⟨htime, hshows⟩ := ih fun e he => hpos e (List.mem_append_left _ he)
    have hevent : 0 < event.processTimestamp := hpos event (List.mem_append_right _ (List.mem_singleton_self _))
    rw [List.foldl_append, List.foldl_cons, List.foldl_nil, List.map_append, List.map_singleton, largest_concat,
      inOrder_concat _ hevent.le]
    rw [← htime]
    by_cases hold : (events.foldl merge {}).lastProcessTimestamp ≤ event.processTimestamp
    · have hinOrder : ¬((events.foldl merge {}).lastProcessTimestamp > 0 ∧
          event.processTimestamp < (events.foldl merge {}).lastProcessTimestamp) := fun h => not_lt.2 hold h.2
      rw [if_pos hold, max_eq_left hold]
      refine ⟨?_, showsLatest_merge hshows hinOrder⟩
      rw [merge_of_inOrder hinOrder]
    · have hlt := not_le.1 hold
      have hdropped : merge (events.foldl merge {}) event = events.foldl merge {} := if_pos ⟨hevent.trans hlt, hlt⟩
      rw [if_neg hold, max_eq_right hlt.le, List.append_nil, hdropped]
      exact ⟨rfl, hshows⟩

/-- An instrument has a state once it has an event: the merge of its own events. -/
theorem get_foldl_apply (events : List MarketEvent) (i : String) :
    (events.foldl apply {}).get i =
      if eventsOf i events = [] then none else some ((eventsOf i events).foldl merge {}) := by
  let step : Option MarketState → MarketEvent → Option MarketState :=
    fun state event => some (merge (state.getD {}) event)
  have hview : (events.foldl apply {}).get i = (eventsOf i events).foldl step (get {} i) := by
    refine @view_foldl _ _ _ _ _ MarketEvent.instrumentId apply (fun i store => get store i) step
      (fun store event j => ?_) events {} i
    rw [get_apply]
    by_cases hj : event.instrumentId = j
    · subst hj
      exact (if_pos rfl).trans (if_pos rfl).symm
    · exact (if_neg hj).trans (if_neg hj).symm
  have hempty : (get {} i : Option MarketState) = none := by simp [get]
  have hsome : ∀ (l : List MarketEvent) (state : MarketState),
      l.foldl step (some state) = some (l.foldl merge state) := by
    intro l
    induction l with
    | nil => exact fun _ => rfl
    | cons event l ih => exact fun state => ih _
  rw [hview, hempty]
  cases eventsOf i events with
  | nil => rfl
  | cons event l => exact hsome l _

/-- For every sequence of events with positive timestamps and every instrument: without events it has no state; with
events its state has the largest of their timestamps, and every other field is what the accepted events say last.  An
event changes the state of no other instrument. -/
theorem market_state_shows_latest (events : List MarketEvent) (hpos : ∀ event ∈ events, 0 < event.processTimestamp) :
    let store := events.foldl apply {}
    (∀ i, eventsOf i events = [] → store.get i = none) ∧
    (∀ i, eventsOf i events ≠ [] → ∃ state, store.get i = some state ∧
      (∀ event ∈ eventsOf i events, event.processTimestamp ≤ state.lastProcessTimestamp) ∧
      (∃ event ∈ eventsOf i events, event.processTimestamp = state.lastProcessTimestamp) ∧
      state.ShowsLatest (acceptedEvents i events)) ∧
    ∀ event i, event.instrument.instrumentId ≠ i → (store.apply event).get i = store.get i := by
  intro store
  refine ⟨fun i hnone => ?_, fun i hsome => ?_, fun event i hi => ?_⟩
  · rw [get_foldl_apply, if_pos hnone]
  · have hown : ∀ event ∈ eventsOf i events, 0 < event.processTimestamp :=
      fun event hevent => hpos event (mem_ofKey.1 hevent).1
    obtain ⟨htime, hshows⟩ := foldl_merge_spec hown
    refine ⟨(eventsOf i events).foldl merge {}, by rw [get_foldl_apply, if_neg hsome], ?_, ?_, hshows⟩
    · intro event hevent
      rw [htime]
      exact le_largest (List.mem_map_of_mem hevent)
    · rw [htime]
      rcases largest_mem 0 ((eventsOf i events).map MarketEvent.processTimestamp) with hfloor | hmem
      · -- an event is above the floor
        obtain ⟨event, hevent⟩ := List.exists_mem_of_ne_nil _ hsome
        have hle := le_largest (b := 0) (List.mem_map_of_mem (f := MarketEvent.processTimestamp) hevent)
        exact absurd (hown event hevent) (not_lt.2 (hfloor ▸ hle))
      · exact List.mem_map.1 hmem
  · rw [get_apply, if_neg hi]

/-- A quote, a trade, and a quote that is older than the trade. -/
def exampleTicks : List MarketEvent :=
  [{ instrument := { instrumentId := "btc-usdt" }, bidPrice := some 100, processTimestamp := 5 },
    { instrument := { instrumentId := "btc-usdt" }, price := 101, quantity := 2, processTimestamp := 7 },
    { instrument := { instrumentId := "btc-usdt" }, askPrice := some 102, processTimestamp := 6 }]

theorem market_state_shows_latest_exampleTicks : (∀ event ∈ exampleTicks, 0 < event.processTimestamp) ∧
    ∃ state, (exampleTicks.foldl apply {}).get "btc-usdt" = some state ∧ state.bestBid = some 100 ∧
      state.bestAsk = none ∧ state.lastTradePrice = some 101 := by
  have hpos : ∀ event ∈ exampleTicks, 0 < event.processTimestamp := by decide
  obtain ⟨-, hsome, -⟩ := market_state_shows_latest exampleTicks hpos
  obtain ⟨state, hstate, -, -, hshows⟩ := hsome "btc-usdt" (by decide +kernel)
  exact ⟨hpos, state, hstate, hshows.bestBid.trans (by decide +kernel), hshows.bestAsk.trans (by decide +kernel),
    hshows.lastTradePrice.trans (by decide +kernel)⟩

end MarketStateStore

end Wall
