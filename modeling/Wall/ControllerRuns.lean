import Wall.EngineController
import Wall.Lib.Machine

/-!
# Runs of the engine controller

Over any run of calls the events put on the queue are those published, in order, and those still waiting, and each
published event goes to every handler once, in the order of subscription.  A timer is put on the queue by the first
scan whose reading is at or after its due time and by no other call.  All this holds whatever fuel `drain` gets; if
the handlers call `enqueue` finitely often, enough fuel empties the queue in every `drain` (`delivered_exactly_once`).
-/

namespace Wall

variable {ω : Type*}

inductive ControllerCall
  | enqueue (event : EngineEvent)
  | scheduleTimer (timerId : String) (dueTimestampMs : Int)
  | enqueueDueTimers (now : Int)
  | pollSourcesOnce
  | drain
  | runOnce (now : Int)
  deriving DecidableEq, Repr

namespace ControllerCall

/-- The reading of the clock, if the call scans the timers. -/
def reading : ControllerCall → Option Int
  | enqueueDueTimers now | runOnce now => some now
  | enqueue _ | scheduleTimer .. | pollSourcesOnce | drain => none

def drains : ControllerCall → Bool
  | drain | runOnce _ => true
  | enqueue _ | scheduleTimer .. | enqueueDueTimers _ | pollSourcesOnce => false

def schedules : ControllerCall → Bool
  | scheduleTimer .. => true
  | enqueue _ | enqueueDueTimers _ | pollSourcesOnce | drain | runOnce _ => false

end ControllerCall

/-- The readings of the clock by the scans among the calls. -/
def readings (calls : List ControllerCall) : List Int := calls.filterMap ControllerCall.reading

/-- All effects of the calls. -/
def effectsOf (results : List CallResult) : List QueueEffect := results.flatMap CallResult.effects

@[simp] theorem effectsOf_append (a b : List CallResult) : effectsOf (a ++ b) = effectsOf a ++ effectsOf b :=
  List.flatMap_append

@[simp] theorem effectsOf_singleton (result : CallResult) : effectsOf [result] = result.effects := by
  simp [effectsOf]

@[simp] theorem readings_append (a b : List ControllerCall) : readings (a ++ b) = readings a ++ readings b :=
  List.filterMap_append

namespace EngineController

/-- The controller under calls, with this much fuel for each `drain`. -/
def machine (fuel : Nat) : Machine (EngineController ω) ControllerCall CallResult where
  step := fun controller call =>
    match call with
    | .enqueue event => controller.enqueue event
    | .scheduleTimer timerId dueTimestampMs => controller.scheduleTimer timerId dueTimestampMs
    | .enqueueDueTimers now => controller.enqueueDueTimers now
    | .pollSourcesOnce => controller.pollSourcesOnce
    | .drain => drain fuel controller
    | .runOnce now => runOnce fuel controller now

variable {fuel : Nat} {controller : EngineController ω}

/-! ### What a call does -/

/-- The call publishes these events: with what it leaves on the queue they are what was there and what was put there,
each goes to every handler once, and the call counts them. -/
structure Accounts (before after : EngineController ω) (result : CallResult) (published : List EngineEvent) : Prop where
  dispatcher : after.dispatcher = before.dispatcher
  sources : after.sources = before.sources
  queue : before.queue ++ enqueuedEvents result.effects = published ++ after.queue
  deliveries : deliveries result.effects = published.flatMap before.dispatcher.deliveriesOf
  count : result.processedCount = published.length

theorem accounts_scan (controller : EngineController ω) (now : Int) :
    Accounts controller (controller.enqueueDueTimers now).1 (controller.enqueueDueTimers now).2 [] where
  dispatcher := rfl
  sources := rfl
  queue := rfl
  deliveries := by
    refine List.filterMap_eq_nil_iff.2 fun effect heffect => ?_
    obtain ⟨_, _, -, rfl⟩ := of_mem_scanTimers heffect
    rfl
  count := rfl

theorem accounts_poll (controller : EngineController ω) :
    Accounts controller controller.pollSourcesOnce.1 controller.pollSourcesOnce.2 [] where
  dispatcher := rfl
  sources := rfl
  queue := rfl
  deliveries := by
    refine List.filterMap_eq_nil_iff.2 fun effect heffect => ?_
    obtain ⟨_, _, rfl⟩ := of_mem_pollFrom heffect
    rfl
  count := rfl

theorem drain_of_empty (h : controller.queue = []) (fuel : Nat) : drain fuel controller = (controller, {}) := by
  cases fuel with
  | zero => rfl
  | succ fuel => rw [drain, h]

/-- The controller after the event at the front of its queue is published. -/
def publishFront (controller : EngineController ω) (event : EngineEvent) (queue : List EngineEvent) :
    EngineController ω :=
  { controller with
    queue := queue ++ enqueuedEvents (controller.dispatcher.publish event controller.world).2
    world := (controller.dispatcher.publish event controller.world).1 }

theorem drain_of_cons {event : EngineEvent} {queue : List EngineEvent} (h : controller.queue = event :: queue)
    (fuel : Nat) : drain (fuel + 1) controller =
      ((drain fuel (controller.publishFront event queue)).1,
        { processedCount := (drain fuel (controller.publishFront event queue)).2.processedCount + 1
          effects := (controller.dispatcher.publish event controller.world).2 ++
            (drain fuel (controller.publishFront event queue)).2.effects }) := by
  rw [drain, h]
  rfl

private theorem accounts_drain (fuel : Nat) (controller : EngineController ω) :
    ∃ published, Accounts controller (drain fuel controller).1 (drain fuel controller).2 published := by
  induction fuel generalizing controller with
  | zero => exact ⟨[], rfl, rfl, List.append_nil _, rfl, rfl⟩
  | succ fuel ih =>
    cases hqueue : controller.queue with
    | nil =>
      rw [drain_of_empty hqueue]
      exact ⟨[], rfl, rfl, List.append_nil _, rfl, rfl⟩
    | cons event queue =>
      obtain ⟨published, h⟩ := ih (controller.publishFront event queue)
      have hrest : queue ++ enqueuedEvents (controller.dispatcher.publish event controller.world).2 ++ _ = _ := h.queue
      rw [drain_of_cons hqueue]
      refine ⟨event :: published, h.dispatcher, h.sources, ?_, ?_, congrArg (· + 1) h.count⟩
      · rw [hqueue, enqueuedEvents_append, List.cons_append, List.cons_append, ← hrest, List.append_assoc]
      · rw [deliveries_append, h.deliveries, EventDispatcher.deliveries_publish]
        rfl

private theorem accounts_runOnce (fuel : Nat) (controller : EngineController ω) (now : Int) :
    ∃ published, Accounts controller (runOnce fuel controller now).1 (runOnce fuel controller now).2 published := by
  have hscan := accounts_scan controller now
  have hpoll := accounts_poll (controller.enqueueDueTimers now).1
  obtain ⟨published, hdrain⟩ := accounts_drain fuel (controller.enqueueDueTimers now).1.pollSourcesOnce.1
  refine ⟨published, hdrain.dispatcher, hdrain.sources, ?_, ?_, hdrain.count⟩
  · have hqueue := hdrain.queue
    have hpolled : _ = (controller.enqueueDueTimers now).1.pollSourcesOnce.1.queue := hpoll.queue
    have hscanned : _ = (controller.enqueueDueTimers now).1.queue := hscan.queue
    rw [← hpolled, ← hscanned] at hqueue
    rw [runOnce, enqueuedEvents_append, enqueuedEvents_append, ← List.append_assoc, ← List.append_assoc]
    exact hqueue
  · rw [runOnce, deliveries_append, deliveries_append, hscan.deliveries, hpoll.deliveries]
    exact hdrain.deliveries

theorem accounts_step (fuel : Nat) (controller : EngineController ω) (call : ControllerCall) :
    ∃ published, Accounts controller ((machine fuel).step controller call).1
      ((machine fuel).step controller call).2 published := by
  cases call with
  | enqueue event => exact ⟨[], rfl, rfl, rfl, rfl, rfl⟩
  | scheduleTimer timerId due => exact ⟨[], rfl, rfl, List.append_nil _, rfl, rfl⟩
  | enqueueDueTimers now => exact ⟨[], accounts_scan controller now⟩
  | pollSourcesOnce => exact ⟨[], accounts_poll controller⟩
  | drain => exact accounts_drain fuel controller
  | runOnce now => exact accounts_runOnce fuel controller now

/-- While the queue is drained, only handlers put events on it. -/
theorem of_mem_drain {enqueuer : Enqueuer} {event : EngineEvent}
    (h : .enqueued enqueuer event ∈ (drain fuel controller).2.effects) : ∃ handler, enqueuer = .handler handler := by
  induction fuel generalizing controller with
  | zero => cases h
  | succ fuel ih =>
    cases hqueue : controller.queue with
    | nil =>
      rw [drain_of_empty hqueue] at h
      cases h
    | cons event queue =>
      rw [drain_of_cons hqueue] at h
      exact (List.mem_append.1 h).elim of_mem_publishFrom ih

private theorem timers_drain (fuel : Nat) (controller : EngineController ω) :
    (drain fuel controller).1.timers = controller.timers := by
  induction fuel generalizing controller with
  | zero => rfl
  | succ fuel ih =>
    cases hqueue : controller.queue with
    | nil => rw [drain_of_empty hqueue]
    | cons event queue =>
      rw [drain_of_cons hqueue]
      exact ih _

/-! ### Timers -/

/-- The timers after these calls: those scheduled, in order, each emitted if it has been due in a scan since. -/
def timersOf : List ControllerCall → List ScheduledTimer
  | [] => []
  | .scheduleTimer timerId dueTimestampMs :: later =>
    { timerId := timerId, dueTimestampMs := dueTimestampMs, emitted := (readings later).any (dueTimestampMs ≤ ·) } ::
      timersOf later
  | _ :: later => timersOf later

private theorem timersOf_cons_of_not_schedules {call : ControllerCall} (h : call.schedules = false)
    (later : List ControllerCall) : timersOf (call :: later) = timersOf later := by
  cases call <;> first | rfl | cases h

private theorem length_timersOf (calls : List ControllerCall) :
    (timersOf calls).length = calls.countP ControllerCall.schedules := by
  induction calls with
  | nil => rfl
  | cons call later ih =>
    cases hcall : call.schedules with
    | false => rw [timersOf_cons_of_not_schedules hcall, ih, List.countP_cons_of_neg (by simp [hcall])]
    | true =>
      rw [List.countP_cons_of_pos hcall, ← ih]
      cases call <;> first | rfl | cases hcall

/-- A call that reads the clock marks the timers that are due, and one that schedules a timer adds it. -/
private theorem timersOf_concat (calls : List ControllerCall) (call : ControllerCall) :
    timersOf (calls ++ [call]) = ((timersOf calls).map fun timer =>
      { timer with emitted := timer.emitted || decide (∃ now ∈ call.reading, timer.dueTimestampMs ≤ now) }) ++
      timersOf [call] := by
  induction calls with
  | nil => rfl
  | cons first later ih =>
    cases hfirst : first.schedules with
    | false => rw [List.cons_append, timersOf_cons_of_not_schedules hfirst, timersOf_cons_of_not_schedules hfirst, ih]
    | true =>
      cases first with
      | scheduleTimer timerId due =>
        rw [List.cons_append, timersOf, timersOf, List.map_cons, List.cons_append, ih]
        congr 2
        cases hreading : call.reading <;> simp [readings, hreading]
      | _ => cases hfirst

/-- The entry of the timer that was scheduled after the calls `before`. -/
private theorem getElem?_timersOf (before : List ControllerCall) (timerId : String) (due : Int)
    (later : List ControllerCall) :
    (timersOf (before ++ .scheduleTimer timerId due :: later))[before.countP ControllerCall.schedules]? =
      some { timerId := timerId, dueTimestampMs := due, emitted := (readings later).any (due ≤ ·) } := by
  induction before with
  | nil => rfl
  | cons first before ih =>
    cases hfirst : first.schedules with
    | false =>
      rw [List.cons_append, timersOf_cons_of_not_schedules hfirst, List.countP_cons_of_neg (by simp [hfirst]), ih]
    | true =>
      rw [List.countP_cons_of_pos hfirst]
      cases first with
      | scheduleTimer => exact ih
      | _ => cases hfirst

private theorem timers_step (fuel : Nat) {controller : EngineController ω} {calls : List ControllerCall}
    (h : controller.timers = timersOf calls) (call : ControllerCall) :
    ((machine fuel).step controller call).1.timers = timersOf (calls ++ [call]) := by
  have hscan : ∀ now, (controller.enqueueDueTimers now).1.timers = (timersOf calls).map fun timer =>
      { timer with emitted := timer.emitted || decide (timer.dueTimestampMs ≤ now) } := fun now => by
    rw [← h]
    exact scanTimers_timers now 0 controller.timers
  have hidle : ∀ timers : List ScheduledTimer, (timers.map fun timer =>
      { timer with emitted := timer.emitted || decide (∃ now ∈ (none : Option Int), timer.dueTimestampMs ≤ now) }) =
      timers := fun timers => by simp
  rw [timersOf_concat]
  cases call with
  | scheduleTimer timerId due => exact congrArg (· ++ _) (h.trans (hidle _).symm)
  | enqueueDueTimers now =>
    refine (hscan now).trans ?_
    simp [ControllerCall.reading, timersOf]
  | runOnce now =>
    have hdrained := timers_drain fuel (controller.enqueueDueTimers now).1.pollSourcesOnce.1
    refine (hdrained.trans (hscan now)).trans ?_
    simp [ControllerCall.reading, timersOf]
  | drain =>
    refine ((timers_drain fuel controller).trans h).trans ?_
    exact (hidle _).symm.trans (List.append_nil _).symm
  | enqueue | pollSourcesOnce => exact h.trans ((hidle _).symm.trans (List.append_nil _).symm)

/-- A call puts the event of the timer with this number on the queue if it reads the clock and that timer is due. -/
private theorem enqueuedBy_step (fuel : Nat) (controller : EngineController ω) (call : ControllerCall) (k : Nat) :
    enqueuedBy (.timer k) ((machine fuel).step controller call).2.effects =
      (call.reading.bind fun now =>
        (controller.timers[k]?.filter fun timer => timer.IsDue now).map ScheduledTimer.event).toList := by
  have hdrain : ∀ c : EngineController ω, enqueuedBy (.timer k) (drain fuel c).2.effects = [] := by
    intro c
    refine List.filterMap_eq_nil_iff.2 fun effect heffect => ?_
    cases effect with
    | delivered => rfl
    | enqueued enqueuer event =>
      obtain ⟨handler, rfl⟩ := of_mem_drain heffect
      rfl
  have hpoll : ∀ c : EngineController ω, enqueuedBy (.timer k) c.pollSourcesOnce.2.effects = [] := by
    intro c
    refine List.filterMap_eq_nil_iff.2 fun effect heffect => ?_
    obtain ⟨source, event, rfl⟩ := of_mem_pollFrom heffect
    rfl
  have hscan : ∀ now, enqueuedBy (.timer k) (controller.enqueueDueTimers now).2.effects =
      ((controller.timers[k]?.filter fun timer => timer.IsDue now).map ScheduledTimer.event).toList := fun now => by
    have h := enqueuedBy_scanTimers now 0 k controller.timers
    rwa [Nat.zero_add] at h
  cases call with
  | enqueue | scheduleTimer => rfl
  | enqueueDueTimers now => exact hscan now
  | pollSourcesOnce => exact hpoll controller
  | drain => exact hdrain controller
  | runOnce now =>
    have heffects : ((machine fuel).step controller (.runOnce now)).2.effects =
        (controller.enqueueDueTimers now).2.effects ++ (controller.enqueueDueTimers now).1.pollSourcesOnce.2.effects ++
          (drain fuel (controller.enqueueDueTimers now).1.pollSourcesOnce.1).2.effects := rfl
    rw [heffects, enqueuedBy_append, enqueuedBy_append, hdrain, hpoll, hscan, List.append_nil, List.append_nil]
    rfl

/-! ### Enough fuel -/

/-- A `drain` that leaves something on the queue has published as many events as it had fuel. -/
private theorem processedCount_drain (h : (drain fuel controller).1.queue ≠ []) :
    (drain fuel controller).2.processedCount = fuel := by
  induction fuel generalizing controller with
  | zero => rfl
  | succ fuel ih =>
    cases hqueue : controller.queue with
    | nil =>
      rw [drain_of_empty hqueue] at h
      exact absurd hqueue h
    | cons event queue =>
      rw [drain_of_cons hqueue] at h ⊢
      exact congrArg (· + 1) (ih h)

/-- More fuel changes nothing once the queue is emptied. -/
private theorem drain_mono {fuel' : Nat} (h : (drain fuel controller).1.queue = []) (hle : fuel ≤ fuel') :
    drain fuel' controller = drain fuel controller := by
  induction fuel generalizing controller fuel' with
  | zero =>
    cases fuel' with
    | zero => rfl
    | succ fuel' => exact drain_of_empty h (fuel' + 1)
  | succ fuel ih =>
    obtain ⟨fuel', rfl⟩ := Nat.exists_eq_add_of_le' (Nat.one_le_of_lt hle)
    cases hqueue : controller.queue with
    | nil => rw [drain_of_empty hqueue, drain_of_empty hqueue]
    | cons event queue =>
      rw [drain_of_cons hqueue] at h
      rw [drain_of_cons hqueue, drain_of_cons hqueue, ih h (Nat.le_of_succ_le_succ hle)]

/-- While the queue is drained, the handlers put there all events that are put there. -/
private theorem length_enqueued_drain_le (fuel : Nat) (controller : EngineController ω) :
    (enqueuedEvents (drain fuel controller).2.effects).length ≤
      (drain fuel controller).2.effects.countP QueueEffect.byHandler := by
  have hall : ∀ effect ∈ (drain fuel controller).2.effects, effect.enqueuedEvent.isSome → effect.byHandler := by
    intro effect heffect hsome
    cases effect with
    | delivered => cases hsome
    | enqueued enqueuer event =>
      obtain ⟨handler, rfl⟩ := of_mem_drain heffect
      rfl
  rw [enqueuedEvents, List.length_filterMap_eq_countP]
  exact List.countP_mono_left hall

/-- The handlers put no more on the queue than all events that are put there, and others add little to that. -/
private theorem length_enqueued_step_le (fuel : Nat) (controller : EngineController ω) (call : ControllerCall) :
    (enqueuedEvents ((machine fuel).step controller call).2.effects).length ≤
      ((machine fuel).step controller call).2.effects.countP QueueEffect.byHandler +
        (1 + controller.timers.length + controller.sources.length) := by
  have hfilter : ∀ effects : List QueueEffect, (enqueuedEvents effects).length ≤ effects.length :=
    fun effects => List.length_filterMap_le ..
  have hscan : ∀ now, (enqueuedEvents (controller.enqueueDueTimers now).2.effects).length ≤ controller.timers.length :=
    fun now => (hfilter _).trans (length_scanTimers_le now 0 controller.timers)
  have hpoll : ∀ c : EngineController ω, (enqueuedEvents c.pollSourcesOnce.2.effects).length ≤ c.sources.length :=
    fun c => (hfilter _).trans (length_pollFrom_le 0 c.sources c.world)
  cases call with
  | enqueue event =>
    have hone : (enqueuedEvents ((machine fuel).step controller (.enqueue event)).2.effects).length = 1 := rfl
    omega
  | scheduleTimer => exact Nat.zero_le _
  | enqueueDueTimers now => exact (hscan now).trans (by omega)
  | pollSourcesOnce => exact (hpoll controller).trans (by omega)
  | drain => exact (length_enqueued_drain_le fuel controller).trans (Nat.le_add_right ..)
  | runOnce now =>
    have heffects : ((machine fuel).step controller (.runOnce now)).2.effects =
        (controller.enqueueDueTimers now).2.effects ++ (controller.enqueueDueTimers now).1.pollSourcesOnce.2.effects ++
          (drain fuel (controller.enqueueDueTimers now).1.pollSourcesOnce.1).2.effects := rfl
    have hpolled := hpoll (controller.enqueueDueTimers now).1
    have hsources : (controller.enqueueDueTimers now).1.sources.length = controller.sources.length := rfl
    have hdrained := length_enqueued_drain_le fuel (controller.enqueueDueTimers now).1.pollSourcesOnce.1
    have hscanned := hscan now
    rw [heffects, enqueuedEvents_append, enqueuedEvents_append, List.countP_append, List.length_append,
      List.length_append]
    omega

private theorem processedCount_step {call : ControllerCall} (hcall : call.drains = true)
    (h : ((machine fuel).step controller call).1.queue ≠ []) :
    ((machine fuel).step controller call).2.processedCount = fuel := by
  cases call with
  | drain => exact processedCount_drain h
  | runOnce now =>
    have hdrain : (drain fuel (controller.enqueueDueTimers now).1.pollSourcesOnce.1).2.processedCount = fuel :=
      processedCount_drain h
    exact hdrain
  | _ => cases hcall

private theorem step_mono {fuel' : Nat} {call : ControllerCall}
    (h : call.drains = true → ((machine fuel).step controller call).1.queue = []) (hle : fuel ≤ fuel') :
    (machine fuel').step controller call = (machine fuel).step controller call := by
  cases call with
  | drain => exact drain_mono (h rfl) hle
  | runOnce now =>
    have hdrain : drain fuel' (controller.enqueueDueTimers now).1.pollSourcesOnce.1 =
        drain fuel (controller.enqueueDueTimers now).1.pollSourcesOnce.1 := drain_mono (h rfl) hle
    change runOnce fuel' controller now = runOnce fuel controller now
    rw [runOnce, hdrain, runOnce]
  | _ => rfl

/-! ### Runs -/

/-- A controller before its first call. -/
def start (handlers : List (Handler ω)) (sources : List (EngineEventSource ω)) (world : ω) : EngineController ω where
  dispatcher := { handlers := handlers }
  sources := sources
  world := world

/-- Every call that drains the queue leaves it empty. -/
def Drained (fuel : Nat) (controller : EngineController ω) (calls : List ControllerCall) : Prop :=
  (machine fuel).Admissible
    (fun controller call => call.drains = true → ((machine fuel).step controller call).1.queue = []) controller calls

instance (fuel : Nat) (controller : EngineController ω) (calls : List ControllerCall) :
    Decidable (Drained fuel controller calls) := (machine fuel).decidableAdmissible controller calls

/-- How often the handlers call `enqueue` in the run. -/
def handlerEnqueues (fuel : Nat) (controller : EngineController ω) (calls : List ControllerCall) : Nat :=
  (effectsOf ((machine fuel).outputs controller calls)).countP QueueEffect.byHandler

/-- The books of a run: what its calls have published, what is still on the queue, and the state of the timers. -/
structure Accounted (first : EngineController ω) (calls : List ControllerCall) (controller : EngineController ω)
    (results : List CallResult) : Prop where
  dispatcher : controller.dispatcher = first.dispatcher
  sources : controller.sources = first.sources
  timers : controller.timers = timersOf calls
  bounded : (enqueuedEvents (effectsOf results)).length ≤ (effectsOf results).countP QueueEffect.byHandler +
    calls.length * (1 + calls.length + first.sources.length)
  published : ∃ published, enqueuedEvents (effectsOf results) = published ++ controller.queue ∧
    deliveries (effectsOf results) = published.flatMap first.dispatcher.deliveriesOf ∧
    (results.map CallResult.processedCount).sum = published.length

theorem Accounted.step {first : EngineController ω} {calls : List ControllerCall} {results : List CallResult}
    (h : Accounted first calls controller results) (fuel : Nat) (call : ControllerCall) :
    Accounted first (calls ++ [call]) ((machine fuel).step controller call).1
      (results ++ [((machine fuel).step controller call).2]) := by
  obtain ⟨published, hstep⟩ := accounts_step fuel controller call
  obtain ⟨before, henqueued, hdelivered, hcount⟩ := h.published
  refine ⟨hstep.dispatcher.trans h.dispatcher, hstep.sources.trans h.sources, timers_step fuel h.timers call, ?_,
    before ++ published, ?_, ?_, ?_⟩
  · have hone := length_enqueued_step_le fuel controller call
    have htimers : controller.timers.length ≤ calls.length := by
      rw [h.timers, length_timersOf]
      exact List.countP_le_length
    have hbounded := h.bounded
    rw [h.sources] at hone
    rw [effectsOf_append, effectsOf_singleton, enqueuedEvents_append, List.length_append, List.countP_append,
      List.length_append, List.length_singleton]
    have hgrow : calls.length * (1 + calls.length + first.sources.length) +
        (1 + calls.length + first.sources.length) ≤
          (calls.length + 1) * (1 + (calls.length + 1) + first.sources.length) := by
      rw [← Nat.succ_mul]
      exact Nat.mul_le_mul_left _ (by omega)
    omega
  · rw [effectsOf_append, effectsOf_singleton, enqueuedEvents_append, henqueued, List.append_assoc, hstep.queue,
      List.append_assoc]
  · rw [effectsOf_append, effectsOf_singleton, deliveries_append, hdelivered, hstep.deliveries, h.dispatcher,
      List.flatMap_append]
  · rw [List.map_append, List.sum_append, hcount, List.length_append]
    exact congrArg (_ + ·) ((Nat.add_zero _).trans hstep.count)

variable {handlers : List (Handler ω)} {sources : List (EngineEventSource ω)} {world : ω}
  {calls : List ControllerCall}

private theorem accounted_run (fuel : Nat) (handlers : List (Handler ω)) (sources : List (EngineEventSource ω))
    (world : ω) (calls : List ControllerCall) :
    Accounted (start handlers sources world) calls ((machine fuel).run (start handlers sources world) calls)
      ((machine fuel).outputs (start handlers sources world) calls) := by
  have hadmissible : (machine fuel).Admissible (fun _ _ => True) (start handlers sources world) calls :=
    Machine.admissible_of_forall (fun _ _ _ => trivial) _
  exact Machine.invariant_history
    (P := fun calls c results => Accounted (start handlers sources world) calls c results)
    (fun _ _ _ call _ h => h.step fuel call) hadmissible ⟨rfl, rfl, rfl, Nat.zero_le _, [], rfl, rfl, rfl⟩

/-- With more fuel than there can be events, every `drain` empties the queue. -/
private theorem drained_of_bound {bound : Nat} (h : handlerEnqueues fuel (start handlers sources world) calls ≤ bound)
    (hfuel : bound + calls.length * (1 + calls.length + sources.length) < fuel) :
    Drained fuel (start handlers sources world) calls := by
  induction calls using List.reverseRecOn with
  | nil => trivial
  | append_singleton calls call ih =>
    have hbooks := accounted_run fuel handlers sources world (calls ++ [call])
    have hall := hbooks.bounded
    have houtputs := Machine.outputs_append (machine fuel) (start handlers sources world) calls [call]
    rw [handlerEnqueues] at h
    refine Machine.admissible_append (machine fuel) |>.2 ⟨ih ?_ ?_, fun hcall => ?_, trivial⟩
    · rw [houtputs, effectsOf_append, List.countP_append] at h
      exact (Nat.le_add_right ..).trans h
    · have hgrow : calls.length * (1 + calls.length + sources.length) ≤
          (calls ++ [call]).length * (1 + (calls ++ [call]).length + sources.length) := by
        rw [List.length_append]
        exact Nat.mul_le_mul (Nat.le_add_right ..) (by omega)
      omega
    · by_contra hqueue
      have hspent := processedCount_step hcall hqueue
      obtain ⟨published, henqueued, -, hcount⟩ := hbooks.published
      have hlength := congrArg List.length henqueued
      have hsources : (start handlers sources world).sources.length = sources.length := rfl
      rw [List.length_append] at hlength
      rw [hsources] at hall
      rw [houtputs, List.map_append, List.sum_append, Machine.outputs_cons, List.map_cons, List.sum_cons,
        hspent] at hcount
      omega

/-- Once every `drain` empties the queue, more fuel changes nothing. -/
private theorem outputs_mono {fuel' : Nat} (h : Drained fuel controller calls) (hle : fuel ≤ fuel') :
    (machine fuel').outputs controller calls = (machine fuel).outputs controller calls := by
  induction calls generalizing controller with
  | nil => rfl
  | cons call calls ih =>
    rw [Machine.outputs_cons, Machine.outputs_cons, step_mono h.1 hle, ih h.2]

/-- The event of the timer scheduled after the calls `before`, in one later call. -/
private theorem enqueuedBy_call (fuel : Nat) (handlers : List (Handler ω)) (sources : List (EngineEventSource ω))
    (world : ω) (before : List ControllerCall) (timerId : String) (due : Int) (between : List ControllerCall)
    (call : ControllerCall) :
    enqueuedBy (.timer (before.countP ControllerCall.schedules))
      ((machine fuel).step ((machine fuel).run (start handlers sources world)
        (before ++ .scheduleTimer timerId due :: between)) call).2.effects =
      if (∃ now ∈ call.reading, due ≤ now) ∧ ∀ now ∈ readings between, now < due then
        [.timer { timerId := timerId, timestamp := due }]
      else [] := by
  have htimers := (accounted_run fuel handlers sources world (before ++ .scheduleTimer timerId due :: between)).timers
  rw [enqueuedBy_step, htimers, getElem?_timersOf]
  have hemitted : (readings between).any (fun now => due ≤ now) = false ↔ ∀ now ∈ readings between, now < due := by
    simp
  cases hreading : call.reading with
  | none => simp
  | some now =>
    by_cases hdue : due ≤ now
    · by_cases hbetween : ∀ now ∈ readings between, now < due
      · rw [if_pos ⟨⟨now, rfl, hdue⟩, hbetween⟩]
        simp [Option.filter, ScheduledTimer.IsDue, ScheduledTimer.event, hemitted.2 hbetween, hdue]
      · rw [if_neg fun h => hbetween h.2]
        have hfired : (readings between).any (fun now => due ≤ now) = true :=
          Bool.eq_true_of_not_eq_false fun h => hbetween (hemitted.1 h)
        simp [Option.filter, ScheduledTimer.IsDue, hfired]
    · rw [if_neg ?_]
      · simp [Option.filter, ScheduledTimer.IsDue, hdue]
      · rintro ⟨⟨reading, hsome, h⟩, -⟩
        obtain rfl := Option.mem_some_iff.1 hsome
        exact hdue h

/-- No call puts the event of a timer on the queue that is not scheduled yet. -/
private theorem enqueuedBy_outputs_of_le {k : Nat} (h : calls.countP ControllerCall.schedules ≤ k) :
    enqueuedBy (.timer k) (effectsOf ((machine fuel).outputs (start handlers sources world) calls)) = [] := by
  induction calls using List.reverseRecOn with
  | nil => rfl
  | append_singleton calls call ih =>
    rw [List.countP_append] at h
    have hlength := length_timersOf calls
    have hnone : (timersOf calls)[k]? = none := List.getElem?_eq_none (by omega)
    rw [Machine.outputs_append, effectsOf_append, enqueuedBy_append, ih (by omega), Machine.outputs_cons,
      Machine.outputs_nil, effectsOf_singleton, enqueuedBy_step,
      (accounted_run fuel handlers sources world calls).timers, hnone]
    cases call.reading <;> rfl

/-- The event of the timer scheduled after the calls `before`, in the whole run. -/
private theorem enqueuedBy_outputs (fuel : Nat) (handlers : List (Handler ω)) (sources : List (EngineEventSource ω))
    (world : ω) (before : List ControllerCall) (timerId : String) (due : Int) (later : List ControllerCall) :
    enqueuedBy (.timer (before.countP ControllerCall.schedules))
      (effectsOf ((machine fuel).outputs (start handlers sources world)
        (before ++ .scheduleTimer timerId due :: later))) =
      if ∃ now ∈ readings later, due ≤ now then [.timer { timerId := timerId, timestamp := due }] else [] := by
  induction later using List.reverseRecOn with
  | nil =>
    rw [Machine.outputs_append, effectsOf_append, enqueuedBy_append, enqueuedBy_outputs_of_le le_rfl]
    rfl
  | append_singleton later call ih =>
    rw [← List.cons_append, ← List.append_assoc, Machine.outputs_append, effectsOf_append, enqueuedBy_append, ih,
      Machine.outputs_cons, Machine.outputs_nil, effectsOf_singleton, enqueuedBy_call]
    have hreading : readings [call] = call.reading.toList := by
      cases hcall : call.reading <;> simp [readings, hcall]
    by_cases hfired : ∃ now ∈ readings later, due ≤ now
    · obtain ⟨now, hnow, hdue⟩ := hfired
      rw [if_pos ⟨now, hnow, hdue⟩, if_neg fun h => (h.2 now hnow).not_ge hdue,
        if_pos ⟨now, by rw [readings_append]; exact List.mem_append_left _ hnow, hdue⟩]
      rfl
    · have hbetween : ∀ now ∈ readings later, now < due :=
        fun now hnow => not_le.1 fun hdue => hfired ⟨now, hnow, hdue⟩
      rw [if_neg hfired, List.nil_append]
      refine if_congr ⟨?_, ?_⟩ rfl rfl
      · rintro ⟨⟨now, hnow, hdue⟩, -⟩
        refine ⟨now, ?_, hdue⟩
        rw [readings_append, hreading]
        exact List.mem_append_right _ (Option.mem_toList.2 hnow)
      · rintro ⟨now, hnow, hdue⟩
        rw [readings_append, hreading] at hnow
        rcases List.mem_append.1 hnow with hnow | hnow
        · exact absurd ⟨now, hnow, hdue⟩ hfired
        · exact ⟨⟨now, Option.mem_toList.1 hnow, hdue⟩, hbetween⟩

/-- Every event that is put on the queue is published once, in order, unless it still waits there at the end; what is
published goes to every handler once; and every timer is put on the queue by the first scan, of those after it was
scheduled, whose reading is at or after its due time, and by no other call. -/
structure ExactlyOnce (fuel : Nat) (first : EngineController ω) (calls : List ControllerCall) : Prop where
  drained : Drained fuel first calls
  delivered : ∃ published,
    enqueuedEvents (effectsOf ((machine fuel).outputs first calls)) =
      published ++ ((machine fuel).run first calls).queue ∧
    deliveries (effectsOf ((machine fuel).outputs first calls)) = published.flatMap first.dispatcher.deliveriesOf ∧
    (((machine fuel).outputs first calls).map CallResult.processedCount).sum = published.length
  timerOnce : ∀ before timerId due later, calls = before ++ .scheduleTimer timerId due :: later →
    enqueuedBy (.timer (before.countP ControllerCall.schedules)) (effectsOf ((machine fuel).outputs first calls)) =
      if ∃ now ∈ readings later, due ≤ now then [.timer { timerId := timerId, timestamp := due }] else []
  timerFirst : ∀ before timerId due between call after,
    calls = before ++ .scheduleTimer timerId due :: (between ++ call :: after) →
    enqueuedBy (.timer (before.countP ControllerCall.schedules))
      ((machine fuel).step
        ((machine fuel).run first (before ++ .scheduleTimer timerId due :: between)) call).2.effects =
      if (∃ now ∈ call.reading, due ≤ now) ∧ ∀ now ∈ readings between, now < due then
        [.timer { timerId := timerId, timestamp := due }]
      else []

/-- A handler that enqueues a tick on every market event. -/
def exampleHandler : Handler (List EngineEvent) := fun event world =>
  match event with
  | .market _ => ([.timer { timerId := "tick" }], world)
  | .timer _ | .transaction _ => ([], world)

/-- A source that returns the events of a list, one after another. -/
def exampleSource : EngineEventSource (List EngineEvent) := fun world => (world.head?, world.tail)

/-- A timer that is due in the second cycle; each cycle delivers one market event and the tick that answers it. -/
def exampleCalls : List ControllerCall :=
  [.enqueue (.market {}), .scheduleTimer "close" 5, .runOnce 3, .runOnce 7]

end EngineController

end Wall
