import Wall.Types

/-!
# The engine controller

`app/engine_controller.cpp` and the dispatcher of `core/event_dispatcher.hpp`.  Handlers and sources are arbitrary
functions that act on a world `ω` outside the controller; a handler may call `enqueue` while an event is delivered.
What a call does to the queue and to the handlers is listed in order, as its effects (`QueueEffect`).

`drain` is a loop that ends when the queue is empty, so it takes fuel, one unit for each event that it publishes.
Whatever the fuel is, a call accounts for its effects: what was on the queue and what is put on it is what it publishes
and what stays (`Accounts`).
-/

namespace Wall

/-- Who put an event on the queue: the caller of `enqueue`, or the timer, source or handler with this number. -/
inductive Enqueuer
  | caller
  | timer (number : Nat)
  | source (number : Nat)
  | handler (number : Nat)
  deriving DecidableEq, Repr

inductive QueueEffect
  | enqueued (enqueuer : Enqueuer) (event : EngineEvent)
  | delivered (handler : Nat) (event : EngineEvent)
  deriving DecidableEq, Repr

/-- A handler: the events that it enqueues on an event, and the world after it. -/
abbrev Handler (ω : Type*) := EngineEvent → ω → List EngineEvent × ω

/-- A source: the event that a poll returns, and the world after it. -/
abbrev EngineEventSource (ω : Type*) := ω → Option EngineEvent × ω

structure EventDispatcher (ω : Type*) where
  handlers : List (Handler ω) := []

structure ScheduledTimer where
  timerId : String := ""
  dueTimestampMs : Int := 0
  emitted : Bool := false
  deriving DecidableEq, Repr

/-- The controller, with the world that its handlers and its sources act on. -/
structure EngineController (ω : Type*) where
  dispatcher : EventDispatcher ω := {}
  queue : List EngineEvent := []
  sources : List (EngineEventSource ω) := []
  timers : List ScheduledTimer := []
  world : ω

/-- What a call returns: the count of `enqueue_due_timers` and `poll_sources_once`, the count of `drain` and
`run_once`, and its effects. -/
structure CallResult where
  enqueuedCount : Nat := 0
  processedCount : Nat := 0
  effects : List QueueEffect := []
  deriving DecidableEq, Repr

variable {ω : Type*}

/-! ### Effects -/

namespace QueueEffect

def enqueuedEvent : QueueEffect → Option EngineEvent
  | enqueued _ event => some event
  | delivered .. => none

def delivery : QueueEffect → Option (Nat × EngineEvent)
  | enqueued .. => none
  | delivered handler event => some (handler, event)

/-- The event, if this enqueuer put it on the queue. -/
def eventBy (enqueuer : Enqueuer) : QueueEffect → Option EngineEvent
  | enqueued by_ event => if by_ = enqueuer then some event else none
  | delivered .. => none

/-- A handler put an event on the queue. -/
def byHandler : QueueEffect → Bool
  | enqueued (.handler _) _ => true
  | _ => false

end QueueEffect

/-- The events put on the queue, in order. -/
def enqueuedEvents (effects : List QueueEffect) : List EngineEvent := effects.filterMap QueueEffect.enqueuedEvent

/-- The deliveries, in order: the number of the handler and the event. -/
def deliveries (effects : List QueueEffect) : List (Nat × EngineEvent) := effects.filterMap QueueEffect.delivery

/-- The events that one enqueuer put on the queue. -/
def enqueuedBy (enqueuer : Enqueuer) (effects : List QueueEffect) : List EngineEvent :=
  effects.filterMap (QueueEffect.eventBy enqueuer)

@[simp] theorem enqueuedEvents_append (a b : List QueueEffect) :
    enqueuedEvents (a ++ b) = enqueuedEvents a ++ enqueuedEvents b := List.filterMap_append

@[simp] theorem deliveries_append (a b : List QueueEffect) :
    deliveries (a ++ b) = deliveries a ++ deliveries b := List.filterMap_append

@[simp] theorem enqueuedBy_append (enqueuer : Enqueuer) (a b : List QueueEffect) :
    enqueuedBy enqueuer (a ++ b) = enqueuedBy enqueuer a ++ enqueuedBy enqueuer b := List.filterMap_append

private theorem enqueuedBy_cons (enqueuer : Enqueuer) (effect : QueueEffect) (effects : List QueueEffect) :
    enqueuedBy enqueuer (effect :: effects) = (effect.eventBy enqueuer).toList ++ enqueuedBy enqueuer effects := by
  rw [enqueuedBy, List.filterMap_cons]
  cases effect.eventBy enqueuer <;> rfl

/-! ### The code -/

/-- Every handler gets the event, in the order of subscription. -/
def publishFrom (event : EngineEvent) : Nat → List (Handler ω) → ω → ω × List QueueEffect
  | _, [], world => (world, [])
  | number, handler :: handlers, world =>
    let answer := handler event world
    let rest := publishFrom event (number + 1) handlers answer.2
    (rest.1, .delivered number event :: answer.1.map (.enqueued (.handler number)) ++ rest.2)

def EventDispatcher.publish (dispatcher : EventDispatcher ω) (event : EngineEvent) (world : ω) :
    ω × List QueueEffect :=
  publishFrom event 0 dispatcher.handlers world

/-- The scan of the timers: those that are due and not emitted are emitted and marked. -/
def scanTimers (now : Int) : Nat → List ScheduledTimer → List ScheduledTimer × List QueueEffect
  | _, [] => ([], [])
  | number, timer :: timers =>
    let rest := scanTimers now (number + 1) timers
    if timer.emitted = false ∧ timer.dueTimestampMs ≤ now then
      ({ timer with emitted := true } :: rest.1,
        .enqueued (.timer number) (.timer { timerId := timer.timerId, timestamp := timer.dueTimestampMs }) :: rest.2)
    else (timer :: rest.1, rest.2)

/-- Every source is polled once, in the order of registration. -/
def pollFrom : Nat → List (EngineEventSource ω) → ω → ω × List QueueEffect
  | _, [], world => (world, [])
  | number, source :: sources, world =>
    let answer := source world
    let rest := pollFrom (number + 1) sources answer.2
    (rest.1, (answer.1.map (QueueEffect.enqueued (.source number))).toList ++ rest.2)

namespace EngineController

def enqueue (controller : EngineController ω) (event : EngineEvent) : EngineController ω × CallResult :=
  ({ controller with queue := controller.queue ++ [event] }, { effects := [.enqueued .caller event] })

def scheduleTimer (controller : EngineController ω) (timerId : String) (dueTimestampMs : Int) :
    EngineController ω × CallResult :=
  ({ controller with
      timers := controller.timers ++ [{ timerId := timerId, dueTimestampMs := dueTimestampMs, emitted := false }] },
    {})

def enqueueDueTimers (controller : EngineController ω) (now : Int) : EngineController ω × CallResult :=
  let scan := scanTimers now 0 controller.timers
  ({ controller with
      timers := scan.1
      queue := controller.queue ++ enqueuedEvents scan.2 },
    { enqueuedCount := scan.2.length, effects := scan.2 })

def pollSourcesOnce (controller : EngineController ω) : EngineController ω × CallResult :=
  let polled := pollFrom 0 controller.sources controller.world
  ({ controller with
      queue := controller.queue ++ enqueuedEvents polled.2
      world := polled.1 },
    { enqueuedCount := polled.2.length, effects := polled.2 })

/-- The loop of `drain`: the front event is taken off the queue and published, until the queue is empty. -/
def drain : Nat → EngineController ω → EngineController ω × CallResult
  | 0, controller => (controller, {})
  | fuel + 1, controller =>
    match controller.queue with
    | [] => (controller, {})
    | event :: queue =>
      let published := controller.dispatcher.publish event controller.world
      let rest := drain fuel
        { controller with
          queue := queue ++ enqueuedEvents published.2
          world := published.1 }
      (rest.1, { processedCount := rest.2.processedCount + 1, effects := published.2 ++ rest.2.effects })

/-- One cycle: timers, then sources, then the queue. -/
def runOnce (fuel : Nat) (controller : EngineController ω) (now : Int) : EngineController ω × CallResult :=
  let timers := controller.enqueueDueTimers now
  let polled := timers.1.pollSourcesOnce
  let drained := drain fuel polled.1
  (drained.1,
    { processedCount := drained.2.processedCount
      effects := timers.2.effects ++ polled.2.effects ++ drained.2.effects })

end EngineController

/-! ### What the loops do -/

/-- The deliveries of one event: to every handler once, in the order of subscription. -/
def EventDispatcher.deliveriesOf (dispatcher : EventDispatcher ω) (event : EngineEvent) : List (Nat × EngineEvent) :=
  (List.range dispatcher.handlers.length).map fun number => (number, event)

@[simp] theorem deliveries_map_enqueued (enqueuer : Enqueuer) (events : List EngineEvent) :
    deliveries (events.map (.enqueued enqueuer)) = [] := by
  simp [deliveries, List.filterMap_map, QueueEffect.delivery, Function.comp_def]

private theorem deliveries_publishFrom (event : EngineEvent) (number : Nat) (handlers : List (Handler ω)) (world : ω) :
    deliveries (publishFrom event number handlers world).2 =
      (List.range' number handlers.length).map fun number => (number, event) := by
  induction handlers generalizing number world with
  | nil => rfl
  | cons handler handlers ih =>
    rw [publishFrom, List.cons_append, ← List.singleton_append, deliveries_append, deliveries_append, ih,
      deliveries_map_enqueued, List.length_cons, List.range'_succ]
    rfl

theorem EventDispatcher.deliveries_publish (dispatcher : EventDispatcher ω) (event : EngineEvent) (world : ω) :
    deliveries (dispatcher.publish event world).2 = dispatcher.deliveriesOf event := by
  rw [publish, deliveries_publishFrom, deliveriesOf, List.range_eq_range']

/-- What is put on the queue while an event is delivered is put there by handlers. -/
theorem of_mem_publishFrom {event : EngineEvent} {number : Nat} {handlers : List (Handler ω)} {world : ω}
    {enqueuer : Enqueuer} {enqueued : EngineEvent}
    (h : .enqueued enqueuer enqueued ∈ (publishFrom event number handlers world).2) :
    ∃ handler, enqueuer = .handler handler := by
  induction handlers generalizing number world with
  | nil => simp [publishFrom] at h
  | cons handler handlers ih =>
    simp only [publishFrom, List.cons_append, List.mem_cons, List.mem_append, List.mem_map, reduceCtorEq,
      QueueEffect.enqueued.injEq, false_or] at h
    rcases h with ⟨_, -, rfl, -⟩ | h
    · exact ⟨number, rfl⟩
    · exact ih h

/-- The event that a timer emits. -/
def ScheduledTimer.event (timer : ScheduledTimer) : EngineEvent :=
  .timer { timerId := timer.timerId, timestamp := timer.dueTimestampMs }

/-- The timer is emitted by a scan at this reading. -/
def ScheduledTimer.IsDue (timer : ScheduledTimer) (now : Int) : Prop :=
  timer.emitted = false ∧ timer.dueTimestampMs ≤ now

instance (timer : ScheduledTimer) (now : Int) : Decidable (timer.IsDue now) :=
  inferInstanceAs (Decidable (_ ∧ _))

theorem scanTimers_of_due {timer : ScheduledTimer} {now : Int} (h : timer.IsDue now) (number : Nat)
    (timers : List ScheduledTimer) :
    scanTimers now number (timer :: timers) =
      ({ timer with emitted := true } :: (scanTimers now (number + 1) timers).1,
        .enqueued (.timer number) timer.event :: (scanTimers now (number + 1) timers).2) := if_pos h

theorem scanTimers_of_not_due {timer : ScheduledTimer} {now : Int} (h : ¬ timer.IsDue now) (number : Nat)
    (timers : List ScheduledTimer) :
    scanTimers now number (timer :: timers) =
      (timer :: (scanTimers now (number + 1) timers).1, (scanTimers now (number + 1) timers).2) := if_neg h

/-- The timer after a scan at this reading. -/
def ScheduledTimer.scanned (timer : ScheduledTimer) (now : Int) : ScheduledTimer :=
  { timer with emitted := timer.emitted || decide (timer.dueTimestampMs ≤ now) }

theorem scanTimers_timers (now : Int) (number : Nat) (timers : List ScheduledTimer) :
    (scanTimers now number timers).1 = timers.map fun timer => timer.scanned now := by
  induction timers generalizing number with
  | nil => rfl
  | cons timer timers ih =>
    rw [List.map_cons, ← ih (number + 1)]
    by_cases h : timer.IsDue now
    · rw [scanTimers_of_due h, ScheduledTimer.scanned, decide_eq_true h.2, Bool.or_true]
    · rw [scanTimers_of_not_due h]
      have hkept : timer.scanned now = timer := by
        have hemitted : (timer.emitted || decide (timer.dueTimestampMs ≤ now)) = timer.emitted := by
          cases hflag : timer.emitted with
          | false => exact decide_eq_false fun hdue => h ⟨hflag, hdue⟩
          | true => rfl
        rw [ScheduledTimer.scanned, hemitted]
      rw [hkept]

theorem of_mem_scanTimers {now : Int} {number : Nat} {timers : List ScheduledTimer} {effect : QueueEffect}
    (h : effect ∈ (scanTimers now number timers).2) :
    ∃ timer event, number ≤ timer ∧ effect = .enqueued (.timer timer) event := by
  induction timers generalizing number with
  | nil => simp [scanTimers] at h
  | cons timer timers ih =>
    have hrest : effect ∈ (scanTimers now (number + 1) timers).2 →
        ∃ timer event, number ≤ timer ∧ effect = .enqueued (.timer timer) event := by
      intro hmem
      obtain ⟨k, event, hk, heq⟩ := ih hmem
      exact ⟨k, event, by omega, heq⟩
    by_cases hdue : timer.IsDue now
    · rw [scanTimers_of_due hdue] at h
      rcases List.mem_cons.1 h with rfl | h
      · exact ⟨number, _, le_rfl, rfl⟩
      · exact hrest h
    · rw [scanTimers_of_not_due hdue] at h
      exact hrest h

theorem length_scanTimers_le (now : Int) (number : Nat) (timers : List ScheduledTimer) :
    (scanTimers now number timers).2.length ≤ timers.length := by
  induction timers generalizing number with
  | nil => rfl
  | cons timer timers ih =>
    have hrest := ih (number + 1)
    by_cases hdue : timer.IsDue now
    · rw [scanTimers_of_due hdue]
      exact Nat.succ_le_succ hrest
    · rw [scanTimers_of_not_due hdue]
      exact hrest.trans (Nat.le_succ _)

/-- A scan emits the event of the timer with this number if that timer is due. -/
theorem enqueuedBy_scanTimers (now : Int) (number k : Nat) (timers : List ScheduledTimer) :
    enqueuedBy (.timer (number + k)) (scanTimers now number timers).2 =
      ((timers[k]?.filter fun timer => timer.IsDue now).map ScheduledTimer.event).toList := by
  induction timers generalizing number k with
  | nil => rfl
  | cons timer timers ih =>
    cases k with
    | zero =>
      have hnone : enqueuedBy (.timer number) (scanTimers now (number + 1) timers).2 = [] := by
        rw [enqueuedBy, List.filterMap_eq_nil_iff]
        intro effect heffect
        obtain ⟨j, event, hj, rfl⟩ := of_mem_scanTimers heffect
        refine if_neg fun hsame => ?_
        cases hsame
        omega
      by_cases hdue : timer.IsDue now
      · rw [scanTimers_of_due hdue, enqueuedBy_cons, Nat.add_zero, hnone]
        simp [QueueEffect.eventBy, Option.filter, hdue]
      · rw [scanTimers_of_not_due hdue, Nat.add_zero, hnone]
        simp [Option.filter, hdue]
    | succ k =>
      have hrest := ih (number + 1) k
      rw [Nat.add_assoc, Nat.add_comm 1 k] at hrest
      by_cases hdue : timer.IsDue now
      · rw [scanTimers_of_due hdue, enqueuedBy_cons, hrest]
        simp [QueueEffect.eventBy]
      · rw [scanTimers_of_not_due hdue, hrest, List.getElem?_cons_succ]

theorem of_mem_pollFrom {number : Nat} {sources : List (EngineEventSource ω)} {world : ω} {effect : QueueEffect}
    (h : effect ∈ (pollFrom number sources world).2) : ∃ source event, effect = .enqueued (.source source) event := by
  induction sources generalizing number world with
  | nil => simp [pollFrom] at h
  | cons source sources ih =>
    rcases List.mem_append.1 h with h | h
    · obtain ⟨event, -, rfl⟩ := Option.mem_map.1 (Option.mem_toList.1 h)
      exact ⟨number, event, rfl⟩
    · exact ih h

theorem length_pollFrom_le (number : Nat) (sources : List (EngineEventSource ω)) (world : ω) :
    (pollFrom number sources world).2.length ≤ sources.length := by
  induction sources generalizing number world with
  | nil => rfl
  | cons source sources ih =>
    have hrest := ih (number + 1) (source world).2
    have hone : ((source world).1.map (QueueEffect.enqueued (.source number))).toList.length ≤ 1 := by
      cases (source world).1 <;> simp
    rw [pollFrom, List.length_append, List.length_cons]
    omega

end Wall
