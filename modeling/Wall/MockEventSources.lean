import Wall.ControllerRuns

/-!
# Cycles of the controller

`app/mock_event_sources.cpp`, and the cycles of a controller with such sources and with subscribers that enqueue
nothing, as the application has them.  Every cycle publishes the timers that have become due since the last one, in
the order in which they were scheduled, and then the next event of each source, in the order of registration.  So the
readings of the clock decide the whole run (`cycles_delivered`).
-/

namespace Wall

/-! ### The sources -/

/-- What both mock sources are: a fixed list and the index of its next entry. -/
structure MockSource (α : Type*) where
  entries : List α
  nextIndex : Nat := 0

/-- The next entry, if one remains. -/
def MockSource.poll {α : Type*} (event : α → EngineEvent) (source : MockSource α) :
    Option EngineEvent × MockSource α :=
  match source.entries[source.nextIndex]? with
  | none => (none, source)
  | some entry => (some (event entry), { source with nextIndex := source.nextIndex + 1 })

abbrev MockMarketDataSource := MockSource MarketEvent

abbrev MockTransactionEventSource := MockSource TransactionCommand

def MockMarketDataSource.poll : MockMarketDataSource → Option EngineEvent × MockMarketDataSource :=
  MockSource.poll EngineEvent.market

def MockTransactionEventSource.poll :
    MockTransactionEventSource → Option EngineEvent × MockTransactionEventSource :=
  MockSource.poll EngineEvent.transaction

inductive MockEventSource
  | market (source : MockMarketDataSource)
  | transaction (source : MockTransactionEventSource)

/-- The events that a mock source has not returned yet. -/
def MockSource.remaining {α : Type*} (event : α → EngineEvent) (source : MockSource α) : List EngineEvent :=
  (source.entries.drop source.nextIndex).map event

private theorem MockSource.poll_remaining {α : Type*} (event : α → EngineEvent) (source : MockSource α) :
    (source.poll event).1 = (source.remaining event).head? ∧
      (source.poll event).2.remaining event = (source.remaining event).tail := by
  unfold poll remaining
  rw [List.head?_map, List.head?_drop, ← List.map_tail, List.tail_drop]
  cases hentry : source.entries[source.nextIndex]? with
  | none =>
    have hlength := List.getElem?_eq_none_iff.1 hentry
    dsimp only
    rw [List.drop_eq_nil_of_le hlength, List.drop_eq_nil_of_le (Nat.le_succ_of_le hlength)]
    exact ⟨rfl, rfl⟩
  | some entry => exact ⟨rfl, rfl⟩

namespace MockEventSource

def poll : MockEventSource → Option EngineEvent × MockEventSource
  | market source => ((MockMarketDataSource.poll source).1, market (MockMarketDataSource.poll source).2)
  | transaction source =>
    ((MockTransactionEventSource.poll source).1, transaction (MockTransactionEventSource.poll source).2)

def remaining : MockEventSource → List EngineEvent
  | market source => source.remaining EngineEvent.market
  | transaction source => source.remaining EngineEvent.transaction

/-- A poll returns the next event and takes it away. -/
private theorem poll_remaining (source : MockEventSource) :
    source.poll.1 = source.remaining.head? ∧ source.poll.2.remaining = source.remaining.tail := by
  cases source with
  | market source => exact source.poll_remaining EngineEvent.market
  | transaction source => exact source.poll_remaining EngineEvent.transaction

end MockEventSource

variable {ω : Type*}

/-- A subscriber that enqueues nothing and does not see the sources. -/
def quiet (act : EngineEvent → ω → ω) : Handler (ω × List MockEventSource) :=
  fun event world => ([], (act event world.1, world.2))

/-- The registered source with this number. -/
def sourceAt (number : Nat) : EngineEventSource (ω × List MockEventSource) := fun world =>
  match world.2[number]? with
  | none => (none, world)
  | some source => (source.poll.1, (world.1, world.2.set number source.poll.2))

/-- A controller between two cycles. -/
def mockController (acts : List (EngineEvent → ω → ω)) (timers : List ScheduledTimer) (sources : List MockEventSource)
    (world : ω) : EngineController (ω × List MockEventSource) where
  dispatcher := { handlers := acts.map quiet }
  sources := (List.range sources.length).map sourceAt
  timers := timers
  world := (world, sources)

/-- What the subscribers make of an event, in the order of subscription. -/
def actAll (acts : List (EngineEvent → ω → ω)) (world : ω) (event : EngineEvent) : ω :=
  acts.foldl (fun world act => act event world) world

/-! ### The parts of a cycle -/

private theorem enqueuedEvents_scanTimers (now : Int) (number : Nat) (timers : List ScheduledTimer) :
    enqueuedEvents (scanTimers now number timers).2 =
      (timers.filter fun timer => timer.IsDue now).map ScheduledTimer.event := by
  induction timers generalizing number with
  | nil => rfl
  | cons timer timers ih =>
    by_cases hdue : timer.IsDue now
    · rw [scanTimers_of_due hdue, List.filter_cons_of_pos (by simpa using hdue), List.map_cons, ← ih (number + 1)]
      rfl
    · rw [scanTimers_of_not_due hdue, List.filter_cons_of_neg (by simpa using hdue), ← ih (number + 1)]

/-- A round of polls takes the next event of each source. -/
private theorem pollFrom_sourceAt (world : ω) (polled sources : List MockEventSource) :
    pollFrom polled.length ((List.range' polled.length sources.length).map sourceAt) (world, polled ++ sources) =
      ((world, polled ++ sources.map fun source => source.poll.2),
        (sources.zipIdx polled.length).flatMap fun entry =>
          (entry.1.poll.1.map (QueueEffect.enqueued (.source entry.2))).toList) := by
  induction sources generalizing polled with
  | nil => simp [pollFrom]
  | cons source sources ih =>
    have hsource : sourceAt polled.length (world, polled ++ source :: sources) =
        (source.poll.1, (world, (polled ++ [source.poll.2]) ++ sources)) := by
      unfold sourceAt
      simp
    have hrest := ih (polled ++ [source.poll.2])
    rw [List.length_append, List.length_singleton] at hrest
    rw [List.length_cons, List.range'_succ, List.map_cons, pollFrom, hsource]
    dsimp only
    rw [hrest, List.zipIdx_cons, List.flatMap_cons, List.map_cons, List.append_assoc, List.singleton_append]

private theorem publishFrom_quiet (event : EngineEvent) (number : Nat) (acts : List (EngineEvent → ω → ω))
    (world : ω × List MockEventSource) :
    (publishFrom event number (acts.map quiet) world).1 = (actAll acts world.1 event, world.2) ∧
      enqueuedEvents (publishFrom event number (acts.map quiet) world).2 = [] := by
  induction acts generalizing number world with
  | nil => exact ⟨rfl, rfl⟩
  | cons act acts ih =>
    obtain ⟨hworld, hnone⟩ := ih (number + 1) (act event world.1, world.2)
    exact ⟨hworld, hnone⟩

namespace EngineController

/-- The queue is published as it stands, since nothing is put on it. -/
private theorem drain_quiet (acts : List (EngineEvent → ω → ω))
    (sources : List (EngineEventSource (ω × List MockEventSource)))
    (timers : List ScheduledTimer) (mocks : List MockEventSource) (queue : List EngineEvent) (world : ω) {fuel : Nat}
    (hfuel : queue.length ≤ fuel) :
    let dispatcher : EventDispatcher (ω × List MockEventSource) := { handlers := acts.map quiet }
    let controller : EngineController (ω × List MockEventSource) := ⟨dispatcher, queue, sources, timers, (world, mocks)⟩
    (drain fuel controller).1 = ⟨dispatcher, [], sources, timers, (queue.foldl (actAll acts) world, mocks)⟩ ∧
      (drain fuel controller).2.processedCount = queue.length ∧
      deliveries (drain fuel controller).2.effects = queue.flatMap dispatcher.deliveriesOf := by
  induction queue generalizing world fuel with
  | nil =>
    intro dispatcher controller
    rw [drain_of_empty rfl fuel]
    exact ⟨rfl, rfl, rfl⟩
  | cons event queue ih =>
    intro dispatcher controller
    obtain ⟨fuel, rfl⟩ := Nat.exists_eq_add_of_le' ((Nat.succ_le_succ (Nat.zero_le _)).trans hfuel)
    obtain ⟨hworld, hnone⟩ := publishFrom_quiet event 0 acts (world, mocks)
    have hfront : controller.publishFront event queue =
        ⟨dispatcher, queue, sources, timers, (actAll acts world event, mocks)⟩ := by
      unfold publishFront EventDispatcher.publish
      rw [hnone, hworld, List.append_nil]
    obtain ⟨hafter, hcount, hdelivered⟩ := ih (actAll acts world event) (Nat.le_of_succ_le_succ hfuel)
    have hqueue : controller.queue = event :: queue := rfl
    rw [drain_of_cons hqueue, hfront]
    refine ⟨hafter, congrArg (· + 1) hcount, ?_⟩
    rw [deliveries_append, EventDispatcher.deliveries_publish, hdelivered]
    rfl

end EngineController

/-! ### Whole cycles -/

/-- The events of a cycle, from what the timers and the sources are before it. -/
def cycleEvents (timers : List ScheduledTimer) (sources : List MockEventSource) (now : Int) : List EngineEvent :=
  (timers.filter fun timer => timer.IsDue now).map ScheduledTimer.event ++
    sources.filterMap fun source => source.poll.1

private theorem length_cycleEvents_le (timers : List ScheduledTimer) (sources : List MockEventSource) (now : Int) :
    (cycleEvents timers sources now).length ≤ timers.length + sources.length := by
  rw [cycleEvents, List.length_append, List.length_map]
  exact Nat.add_le_add (List.length_filter_le _ _) (List.length_filterMap_le _ _)

/-- The events that the registered sources put on the queue in a round of polls. -/
private theorem enqueuedEvents_polls (number : Nat) (sources : List MockEventSource) :
    enqueuedEvents ((sources.zipIdx number).flatMap fun entry =>
      (entry.1.poll.1.map (QueueEffect.enqueued (.source entry.2))).toList) =
        sources.filterMap fun source => source.poll.1 := by
  induction sources generalizing number with
  | nil => rfl
  | cons source sources ih =>
    rw [List.zipIdx_cons, List.flatMap_cons, enqueuedEvents_append, ih, List.filterMap_cons]
    cases source.poll.1 <;> rfl

private theorem enqueuedBy_polls (number j : Nat) (sources : List MockEventSource) :
    enqueuedBy (.source (number + j)) ((sources.zipIdx number).flatMap fun entry =>
      (entry.1.poll.1.map (QueueEffect.enqueued (.source entry.2))).toList) =
        (sources[j]?.bind fun source => source.poll.1).toList := by
  induction sources generalizing number j with
  | nil => rfl
  | cons source sources ih =>
    rw [List.zipIdx_cons, List.flatMap_cons, enqueuedBy_append]
    cases j with
    | zero =>
      have hrest : enqueuedBy (.source number) ((sources.zipIdx (number + 1)).flatMap fun entry =>
          (entry.1.poll.1.map (QueueEffect.enqueued (.source entry.2))).toList) = [] := by
        refine List.filterMap_eq_nil_iff.2 fun effect heffect => ?_
        obtain ⟨⟨_, k⟩, hk, hmem⟩ := List.mem_flatMap.1 heffect
        obtain ⟨event, -, rfl⟩ := Option.mem_map.1 (Option.mem_toList.1 hmem)
        refine if_neg fun hsame => ?_
        have hle := List.le_snd_of_mem_zipIdx hk
        cases hsame
        exact absurd hle (Nat.not_succ_le_self _)
      rw [Nat.add_zero, hrest, List.append_nil]
      cases hpoll : source.poll.1 with
      | none => simp [enqueuedBy, hpoll]
      | some event => simp [enqueuedBy, QueueEffect.eventBy, hpoll]
    | succ j =>
      have hown : enqueuedBy (.source (number + (j + 1)))
          (source.poll.1.map (QueueEffect.enqueued (.source number))).toList = [] := by
        cases source.poll.1 with
        | none => rfl
        | some event => simp [enqueuedBy, QueueEffect.eventBy]
      rw [hown, List.nil_append, List.getElem?_cons_succ, ← ih (number + 1) j, Nat.add_right_comm, Nat.add_assoc]

namespace EngineController

/-- A cycle publishes its events and leaves nothing on the queue. -/
private theorem runOnce_cycle (acts : List (EngineEvent → ω → ω)) (timers : List ScheduledTimer)
    (sources : List MockEventSource) (world : ω) (now : Int) {fuel : Nat}
    (hfuel : timers.length + sources.length ≤ fuel) :
    let controller := mockController acts timers sources world
    let events := cycleEvents timers sources now
    (runOnce fuel controller now).1 = mockController acts (timers.map fun timer => timer.scanned now)
        (sources.map fun source => source.poll.2) (events.foldl (actAll acts) world) ∧
      (runOnce fuel controller now).2.processedCount = events.length ∧
      deliveries (runOnce fuel controller now).2.effects = events.flatMap controller.dispatcher.deliveriesOf ∧
      ∀ j, enqueuedBy (.source j) (runOnce fuel controller now).2.effects =
        (sources[j]?.bind fun source => source.poll.1).toList := by
  intro controller events
  let scanned := (controller.enqueueDueTimers now).1
  let polls := (sources.zipIdx 0).flatMap fun entry =>
    (entry.1.poll.1.map (QueueEffect.enqueued (.source entry.2))).toList
  have hround : pollFrom 0 scanned.sources scanned.world =
      ((world, sources.map fun source => source.poll.2), polls) := by
    have h := pollFrom_sourceAt world [] sources
    rwa [List.length_nil, ← List.range_eq_range'] at h
  -- the due timers and then the polled events: what waits on the queue is the cycle's events
  have hpolled : scanned.pollSourcesOnce =
      (⟨controller.dispatcher, events, controller.sources, timers.map fun timer => timer.scanned now,
          (world, sources.map fun source => source.poll.2)⟩,
        { enqueuedCount := polls.length, effects := polls }) := by
    have hqueue : scanned.queue ++ enqueuedEvents polls = events := by
      show enqueuedEvents (scanTimers now 0 timers).2 ++ enqueuedEvents polls = events
      rw [enqueuedEvents_polls, enqueuedEvents_scanTimers]
      rfl
    have htimers : scanned.timers = timers.map fun timer => timer.scanned now := scanTimers_timers now 0 timers
    rw [pollSourcesOnce, hround]
    dsimp only
    rw [hqueue, htimers]
    rfl
  obtain ⟨hafter, hcount, hdelivered⟩ := drain_quiet acts controller.sources
    (timers.map fun timer => timer.scanned now) (sources.map fun source => source.poll.2) events world
    ((length_cycleEvents_le timers sources now).trans hfuel)
  have hscan := (accounts_scan controller now).deliveries
  have hpolls := (accounts_poll scanned).deliveries
  rw [hpolled] at hpolls
  rw [runOnce, hpolled]
  refine ⟨hafter.trans ?_, hcount, ?_, fun j => ?_⟩
  · rw [mockController, List.length_map]
    rfl
  · rw [deliveries_append, deliveries_append, hscan, hpolls]
    exact hdelivered
  -- neither the scan of the timers nor the drain takes an event from a source
  · have htimer : enqueuedBy (.source j) (controller.enqueueDueTimers now).2.effects = [] := by
      refine List.filterMap_eq_nil_iff.2 fun effect heffect => ?_
      obtain ⟨_, _, -, rfl⟩ := of_mem_scanTimers heffect
      rfl
    have hdrain : ∀ c : EngineController (ω × List MockEventSource),
        enqueuedBy (.source j) (drain fuel c).2.effects = [] := by
      intro c
      refine List.filterMap_eq_nil_iff.2 fun effect heffect => ?_
      cases effect with
      | delivered => rfl
      | enqueued enqueuer event =>
        obtain ⟨handler, rfl⟩ := of_mem_drain heffect
        rfl
    have hpoll := enqueuedBy_polls 0 j sources
    rw [Nat.zero_add] at hpoll
    rw [enqueuedBy_append, enqueuedBy_append, htimer, hdrain, List.nil_append, List.append_nil]
    exact hpoll

end EngineController

/-- The events of the cycle number `r` in a run of cycles: the timers that are due for the first time, and then what
each source has at the place `r`. -/
def cycle (timers : List ScheduledTimer) (sources : List MockEventSource) (nows : List Int) (r : Nat) (now : Int) :
    List EngineEvent :=
  (timers.filter fun timer =>
      timer.IsDue now ∧ ∀ earlier ∈ nows.take r, earlier < timer.dueTimestampMs).map ScheduledTimer.event ++
    sources.filterMap fun source => source.remaining[r]?

private theorem cycle_zero (timers : List ScheduledTimer) (sources : List MockEventSource) (nows : List Int)
    (now : Int) : cycle timers sources nows 0 now = cycleEvents timers sources now := by
  simp [cycle, cycleEvents, MockEventSource.poll_remaining, List.head?_eq_getElem?]

private theorem cycle_succ (timers : List ScheduledTimer) (sources : List MockEventSource) (first : Int)
    (nows : List Int) (r : Nat) (now : Int) :
    cycle timers sources (first :: nows) (r + 1) now =
      cycle (timers.map fun timer => timer.scanned first) (sources.map fun source => source.poll.2) nows r now := by
  have hevent : ScheduledTimer.event ∘ (fun timer => timer.scanned first) = ScheduledTimer.event := rfl
  have hdue : ∀ timer : ScheduledTimer, (timer.scanned first).IsDue now ↔
      timer.IsDue now ∧ first < timer.dueTimestampMs := by
    intro timer
    simp only [ScheduledTimer.IsDue, ScheduledTimer.scanned, Bool.or_eq_false_iff, decide_eq_false_iff_not, not_le]
    tauto
  unfold cycle
  congr 1
  · rw [List.filter_map, List.map_map, hevent]
    congr 1
    refine List.filter_congr fun timer _ => ?_
    have hkept : (timer.scanned first).dueTimestampMs = timer.dueTimestampMs := rfl
    simp [hdue, hkept, Bool.and_assoc]
  · rw [List.filterMap_map]
    refine congrArg (List.filterMap · sources) (funext fun source => ?_)
    rw [Function.comp_apply, source.poll_remaining.2, List.getElem?_tail]

/-- A run of cycles with mock sources and with subscribers that enqueue nothing: every cycle delivers, to each
subscriber in the order of subscription, first the timers that are due at its reading and were not at an earlier one,
in the order of their scheduling, and then the next event of each source that has one left, in the order of
registration; it returns their number.  At the end nothing waits, each source has had as many events taken as there
were cycles, each of them once and in order, and the subscribers have acted on all these events, one after the other. -/
theorem cycles_delivered (acts : List (EngineEvent → ω → ω)) (timers : List ScheduledTimer)
    (sources : List MockEventSource) (world : ω) (extra : Nat) (nows : List Int) :
    let controller := mockController acts timers sources world
    let machine := EngineController.machine (timers.length + sources.length + extra)
    let calls := nows.map ControllerCall.runOnce
    let cycles := nows.mapIdx (cycle timers sources nows)
    deliveries (effectsOf (machine.outputs controller calls)) =
        cycles.flatten.flatMap controller.dispatcher.deliveriesOf ∧
      (machine.outputs controller calls).map CallResult.processedCount = cycles.map List.length ∧
      (machine.run controller calls).queue = [] ∧
      (∀ j, enqueuedBy (.source j) (effectsOf (machine.outputs controller calls)) =
        (sources[j]?.elim [] MockEventSource.remaining).take nows.length) ∧
      (machine.run controller calls).world.1 = cycles.flatten.foldl (actAll acts) world := by
  induction nows generalizing timers sources world with
  | nil =>
    intro controller machine calls cycles
    exact ⟨rfl, rfl, rfl, fun j => List.take_zero.symm, rfl⟩
  | cons now nows ih =>
    intro controller machine calls cycles
    obtain ⟨hafter, hcount, hdelivered, htaken⟩ := EngineController.runOnce_cycle acts timers sources world now
      (Nat.le_add_right (timers.length + sources.length) extra)
    have hnext := ih (timers.map fun timer => timer.scanned now) (sources.map fun source => source.poll.2)
      ((cycleEvents timers sources now).foldl (actAll acts) world)
    rw [List.length_map, List.length_map] at hnext
    obtain ⟨hdelivered', hcount', hqueue', htaken', hworld'⟩ := hnext
    -- the other cycles are those of the timers and sources that the first one leaves
    have hcycles : cycles = cycleEvents timers sources now ::
        nows.mapIdx (cycle (timers.map fun timer => timer.scanned now) (sources.map fun source => source.poll.2)
          nows) := by
      show (now :: nows).mapIdx (cycle timers sources (now :: nows)) = _
      rw [List.mapIdx_cons, cycle_zero]
      congr 2
      funext r reading
      exact cycle_succ timers sources now nows r reading
    have houtputs : machine.outputs controller calls = (EngineController.runOnce
        (timers.length + sources.length + extra) controller now).2 :: machine.outputs
          (mockController acts (timers.map fun timer => timer.scanned now) (sources.map fun source => source.poll.2)
            ((cycleEvents timers sources now).foldl (actAll acts) world)) (nows.map ControllerCall.runOnce) := by
      rw [← hafter]
      exact Machine.outputs_cons _ _ _ _
    have hrun : machine.run controller calls = machine.run
          (mockController acts (timers.map fun timer => timer.scanned now) (sources.map fun source => source.poll.2)
            ((cycleEvents timers sources now).foldl (actAll acts) world)) (nows.map ControllerCall.runOnce) := by
      rw [← hafter]
      exact Machine.run_cons _ _ _ _
    have heffects (result : CallResult) (results : List CallResult) :
        effectsOf (result :: results) = result.effects ++ effectsOf results := List.flatMap_cons
    rw [houtputs, hrun, hcycles, heffects]
    refine ⟨?_, ?_, hqueue', fun j => ?_, ?_⟩
    · rw [deliveries_append, hdelivered, hdelivered', List.flatten_cons, List.flatMap_append]
      rfl
    · rw [List.map_cons, List.map_cons, hcount, hcount']
    · rw [enqueuedBy_append, htaken, htaken']
      cases hsource : sources[j]? with
      | none => simp [hsource]
      | some source =>
        obtain ⟨hhead, htail⟩ := source.poll_remaining
        simp only [List.getElem?_map, hsource, Option.map_some, Option.bind_some, Option.elim_some, hhead, htail]
        cases source.remaining with
        | nil => simp
        | cons event events => rfl
    · rw [hworld', List.flatten_cons, List.foldl_append]

end Wall
