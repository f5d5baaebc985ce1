import Wall.Metrics
import Wall.Lib.Machine

/-!
# Live market-data feeds

`exchange/live_market_data_feed.cpp`.  The transport is a session whose calls may throw; it is arbitrary, what a call
does may depend on all calls before.  The budget of reconnect attempts is one for the whole life of the controller,
nothing gives an attempt back, and `connected` remembers the last attempt to come up that did not end in an exception
(`feed_accounts`).
-/

namespace Wall

/-- A call of the session boundary. -/
inductive SessionCall
  | connect
  | disconnect
  | subscribe (symbols : List String)
  deriving DecidableEq, Repr

/-- What a session throws at the last of these calls, if it throws. -/
abbrev FeedSession := List SessionCall → Option String

/-- After some calls, planned ones are made up to the first at which the session throws, and that is thrown. -/
inductive FeedSession.Performs (session : FeedSession) :
    List SessionCall → List SessionCall → List SessionCall → Option String → Prop
  | done (before : List SessionCall) : Performs session before [] [] none
  | throws {before : List SessionCall} {call : SessionCall} {error : String}
    (thrown : session (before ++ [call]) = some error) (planned : List SessionCall) :
    Performs session before (call :: planned) [call] (some error)
  | next {before planned issued : List SessionCall} {call : SessionCall} {error : Option String}
    (returned : session (before ++ [call]) = none) (rest : Performs session (before ++ [call]) planned issued error) :
    Performs session before (call :: planned) (call :: issued) error

structure LiveMarketDataFeedController where
  symbols : List String
  maxReconnectAttempts : Nat
  reconnectAttempts : Nat := 0
  connected : Bool := false
  deriving DecidableEq, Repr

/-- A controller, and the calls that its session and its metrics have got. -/
structure LiveFeed where
  controller : LiveMarketDataFeedController
  sessionCalls : List SessionCall := []
  metricCalls : List MetricCall := []

inductive FeedCall
  | start
  | handleDisconnect
  deriving DecidableEq, Repr

/-- One call of the controller: the session calls before it, those that it makes, and what it throws. -/
structure FeedStep where
  call : FeedCall
  before : List SessionCall
  issued : List SessionCall
  error : Option String
  deriving DecidableEq, Repr

namespace LiveFeed

variable (session : FeedSession)

/-- Connect and subscribe, then count the connection and the subscription. -/
def bringUp (counter : String) (feed : LiveFeed) : LiveFeed × Option String :=
  let connecting := { feed with sessionCalls := feed.sessionCalls ++ [.connect] }
  match session connecting.sessionCalls with
  | some error => (connecting, some error)
  | none =>
    let subscribing :=
      { connecting with sessionCalls := connecting.sessionCalls ++ [.subscribe feed.controller.symbols] }
    match session subscribing.sessionCalls with
    | some error => (subscribing, some error)
    | none =>
      ({ subscribing with
          controller := { feed.controller with connected := true }
          metricCalls := feed.metricCalls ++ [.increment counter 1, .increment "market_data_subscribes" 1] },
        none)

def start (feed : LiveFeed) : LiveFeed × Option String := feed.bringUp session "market_data_connects"

def handleDisconnect (feed : LiveFeed) : LiveFeed × Option String :=
  let disconnecting :=
    { feed with
      controller := { feed.controller with connected := false }
      sessionCalls := feed.sessionCalls ++ [.disconnect] }
  match session disconnecting.sessionCalls with
  | some error => (disconnecting, some error)
  | none =>
    let disconnected :=
      { disconnecting with metricCalls := feed.metricCalls ++ [.increment "market_data_disconnects" 1] }
    if feed.controller.reconnectAttempts ≥ feed.controller.maxReconnectAttempts then
      (disconnected, some "market-data reconnect attempts exhausted")
    else
      bringUp session "market_data_reconnects"
        { disconnected with
          controller :=
            { disconnected.controller with reconnectAttempts := feed.controller.reconnectAttempts + 1 } }

def apply (feed : LiveFeed) : FeedCall → LiveFeed × Option String
  | .start => feed.start session
  | .handleDisconnect => feed.handleDisconnect session

/-- The feed under calls of its controller. -/
def machine : Machine LiveFeed FeedCall FeedStep where
  step feed call :=
    let after := feed.apply session call
    (after.1,
      { call := call
        before := feed.sessionCalls
        issued := after.1.sessionCalls.drop feed.sessionCalls.length
        error := after.2 })

end LiveFeed

/-! ### What a call does -/

namespace FeedStep

/-- The call tried to reconnect. -/
def Reconnects (step : FeedStep) : Prop := step.call = .handleDisconnect ∧ SessionCall.connect ∈ step.issued

instance : DecidablePred Reconnects := fun _ => inferInstanceAs (Decidable (_ ∧ _))

/-- The call came up: it returned. -/
def ComesUp (call : FeedCall) (step : FeedStep) : Prop := step.call = call ∧ step.error = none

instance (call : FeedCall) : DecidablePred (ComesUp call) := fun _ => inferInstanceAs (Decidable (_ ∧ _))

/-- The call has shut the session down. -/
def ShutsDown (session : FeedSession) (step : FeedStep) : Prop :=
  step.call = .handleDisconnect ∧ session (step.before ++ [.disconnect]) = none

instance (session : FeedSession) : DecidablePred (ShutsDown session) := fun _ => inferInstanceAs (Decidable (_ ∧ _))

/-- What `connected` is after the call. -/
def connectedAfter (connected : Bool) (step : FeedStep) : Bool :=
  match step.call, step.error with
  | _, none => true
  | .start, some _ => connected
  | .handleDisconnect, some _ => false

/-- The session calls of one call of the controller, and what it throws: what the session threw at the last of them, or
that the attempts are exhausted. -/
def Issues (session : FeedSession) (symbols : List String) (step : FeedStep) : Prop :=
  match step.call with
  | .start => session.Performs step.before [.connect, .subscribe symbols] step.issued step.error
  | .handleDisconnect =>
    session.Performs step.before [.disconnect, .connect, .subscribe symbols] step.issued step.error ∨
      session (step.before ++ [.disconnect]) = none ∧ step.issued = [.disconnect] ∧
        step.error = some "market-data reconnect attempts exhausted"

end FeedStep

namespace LiveFeed

variable {session : FeedSession}

/-- How coming up after some calls can end: the session calls that are made, what is thrown, what `connected` is then,
and what is counted. -/
private inductive Ends (session : FeedSession) (before : List SessionCall) (symbols : List String) (counter : String)
    (connected : Bool) : List SessionCall → Option String → Bool → List MetricCall → Prop
  | connectFails {error : String} (connect : session (before ++ [.connect]) = some error) :
    Ends session before symbols counter connected [.connect] (some error) connected []
  | subscribeFails {error : String} (connect : session (before ++ [.connect]) = none)
    (subscribe : session (before ++ [.connect] ++ [.subscribe symbols]) = some error) :
    Ends session before symbols counter connected [.connect, .subscribe symbols] (some error) connected []
  | up (connect : session (before ++ [.connect]) = none)
    (subscribe : session (before ++ [.connect] ++ [.subscribe symbols]) = none) :
    Ends session before symbols counter connected [.connect, .subscribe symbols] none true
      [.increment counter 1, .increment "market_data_subscribes" 1]

private theorem Ends.performs {before : List SessionCall} {symbols : List String} {counter : String}
    {connected after : Bool} {issued : List SessionCall} {error : Option String} {calls : List MetricCall}
    (h : Ends session before symbols counter connected issued error after calls) :
    session.Performs before [.connect, .subscribe symbols] issued error := by
  cases h with
  | connectFails hconnect => exact .throws hconnect _
  | subscribeFails hconnect hsubscribe => exact .next hconnect (.throws hsubscribe _)
  | up hconnect hsubscribe => exact .next hconnect (.next hsubscribe (.done _))

private theorem bringUp_ends (session : FeedSession) (counter : String) (feed : LiveFeed) :
    ∃ issued error connected calls,
      Ends session feed.sessionCalls feed.controller.symbols counter feed.controller.connected issued error connected
          calls ∧
        feed.bringUp session counter = (⟨{ feed.controller with connected := connected },
          feed.sessionCalls ++ issued, feed.metricCalls ++ calls⟩, error) := by
  unfold bringUp
  dsimp only
  split
  · rename_i hconnect
    exact ⟨_, _, _, _, .connectFails hconnect, by rw [List.append_nil]⟩
  · rename_i hconnect
    split
    · rename_i hsubscribe
      exact ⟨_, _, _, _, .subscribeFails hconnect hsubscribe, by rw [List.append_nil, List.append_assoc]; rfl⟩
    · rename_i hsubscribe
      exact ⟨_, _, _, _, .up hconnect hsubscribe, by rw [List.append_assoc]; rfl⟩

/-- A call of the controller, described by what it makes of the feed. -/
private structure Advances (session : FeedSession) (feed after : LiveFeed) (step : FeedStep) : Prop where
  symbols : after.controller.symbols = feed.controller.symbols
  maximum : after.controller.maxReconnectAttempts = feed.controller.maxReconnectAttempts
  before : step.before = feed.sessionCalls
  sessionCalls : after.sessionCalls = feed.sessionCalls ++ step.issued
  issues : step.Issues session feed.controller.symbols
  attempts : after.controller.reconnectAttempts =
    feed.controller.reconnectAttempts + if step.Reconnects then 1 else 0
  budget : step.ShutsDown session →
    (step.Reconnects ↔ feed.controller.reconnectAttempts < feed.controller.maxReconnectAttempts) ∧
      (¬step.Reconnects → step.error = some "market-data reconnect attempts exhausted")
  shutsDown : step.Reconnects → step.ShutsDown session
  connected : after.controller.connected = step.connectedAfter feed.controller.connected
  metrics : ∃ calls, after.metricCalls = feed.metricCalls ++ calls ∧
    total "market_data_connects" calls = (if step.ComesUp .start then 1 else 0) ∧
    total "market_data_reconnects" calls = (if step.ComesUp .handleDisconnect then 1 else 0) ∧
    total "market_data_subscribes" calls = (if step.error = none then 1 else 0) ∧
    total "market_data_disconnects" calls = (if step.ShutsDown session then 1 else 0)

private theorem step_eq {feed after : LiveFeed} {call : FeedCall} {issued : List SessionCall} {error : Option String}
    (h : feed.apply session call = (after, error)) (hcalls : after.sessionCalls = feed.sessionCalls ++ issued) :
    (machine session).step feed call = (after, ⟨call, feed.sessionCalls, issued, error⟩) := by
  simp [machine, h, hcalls]

private theorem advances_start (feed : LiveFeed) :
    Advances session feed ((machine session).step feed .start).1 ((machine session).step feed .start).2 := by
  obtain ⟨issued, error, connected, calls, hends, h⟩ := feed.bringUp_ends session "market_data_connects"
  have happly : feed.apply session .start = _ := h
  rw [step_eq happly rfl]
  refine ⟨rfl, rfl, rfl, rfl, hends.performs, rfl, fun h => (nomatch h.1), fun h => (nomatch h.1), ?_, calls, rfl, ?_⟩
  · cases hends <;> rfl
  · cases hends <;> exact ⟨rfl, rfl, rfl, rfl⟩

/-- Shutting down fails, or the budget is used up, or the controller tries to come up again. -/
private theorem handleDisconnect_cases (session : FeedSession) (feed : LiveFeed) :
    let controller := { feed.controller with connected := false }
    let calls := feed.sessionCalls ++ [.disconnect]
    let metrics := feed.metricCalls ++ [.increment "market_data_disconnects" 1]
    (∃ error, session calls = some error ∧
        feed.handleDisconnect session = (⟨controller, calls, feed.metricCalls⟩, some error)) ∨
      (session calls = none ∧ feed.controller.maxReconnectAttempts ≤ feed.controller.reconnectAttempts ∧
        feed.handleDisconnect session =
          (⟨controller, calls, metrics⟩, some "market-data reconnect attempts exhausted")) ∨
      (session calls = none ∧ feed.controller.reconnectAttempts < feed.controller.maxReconnectAttempts ∧
        feed.handleDisconnect session = bringUp session "market_data_reconnects"
          ⟨{ controller with reconnectAttempts := feed.controller.reconnectAttempts + 1 }, calls, metrics⟩) := by
  intro controller calls metrics
  cases hsession : session calls with
  | some error =>
    refine .inl ⟨error, rfl, ?_⟩
    unfold handleDisconnect
    dsimp only
    rw [show session (feed.sessionCalls ++ [.disconnect]) = some error from hsession]
  | none =>
    refine .inr ?_
    unfold handleDisconnect
    dsimp only
    rw [show session (feed.sessionCalls ++ [.disconnect]) = none from hsession]
    by_cases hbudget : feed.controller.maxReconnectAttempts ≤ feed.controller.reconnectAttempts
    · exact .inl ⟨rfl, hbudget, if_pos hbudget⟩
    · exact .inr ⟨rfl, not_le.1 hbudget, if_neg hbudget⟩

private theorem advances_handleDisconnect (feed : LiveFeed) :
    Advances session feed ((machine session).step feed .handleDisconnect).1
      ((machine session).step feed .handleDisconnect).2 := by
  rcases feed.handleDisconnect_cases session with ⟨error, hsession, h⟩ | ⟨hsession, hbudget, h⟩ | ⟨hsession, hbudget, h⟩
  · have happly : feed.apply session .handleDisconnect = _ := h
    have hopen : ∀ issued error, ¬(FeedStep.mk .handleDisconnect feed.sessionCalls issued error).ShutsDown session := by
      rintro issued error ⟨-, hnone⟩
      rw [show session (feed.sessionCalls ++ [.disconnect]) = _ from hsession] at hnone
      cases hnone
    rw [step_eq happly rfl]
    refine ⟨rfl, rfl, rfl, rfl, .inl (.throws hsession _), rfl, fun h => absurd h (hopen _ _),
      fun h => absurd h.2 (by simp), rfl, [], (List.append_nil _).symm, rfl, rfl, rfl, ?_⟩
    rw [if_neg (hopen _ _)]
    rfl
  · have happly : feed.apply session .handleDisconnect = _ := h
    have hdown : ∀ issued error, (FeedStep.mk .handleDisconnect feed.sessionCalls issued error).ShutsDown session :=
      fun _ _ => ⟨rfl, hsession⟩
    rw [step_eq happly rfl]
    refine ⟨rfl, rfl, rfl, rfl, .inr ⟨hsession, rfl, rfl⟩, rfl,
      fun _ => ⟨iff_of_false (fun h => absurd h.2 (by simp)) (not_lt.2 hbudget), fun _ => rfl⟩,
      fun h => absurd h.2 (by simp), rfl, _, rfl, rfl, rfl, rfl, ?_⟩
    rw [if_pos (hdown _ _)]
    rfl
  · obtain ⟨issued, error, connected, calls, hends, hup⟩ := bringUp_ends session "market_data_reconnects"
      ⟨{ feed.controller with
          connected := false
          reconnectAttempts := feed.controller.reconnectAttempts + 1 },
        feed.sessionCalls ++ [.disconnect], feed.metricCalls ++ [.increment "market_data_disconnects" 1]⟩
    have happly : feed.apply session .handleDisconnect = _ := h.trans hup
    let step : FeedStep := ⟨.handleDisconnect, feed.sessionCalls, .disconnect :: issued, error⟩
    have hdown : step.ShutsDown session := ⟨rfl, hsession⟩
    -- however coming up ends, it starts with a connect, so this call counts as an attempt
    have hconnect : SessionCall.connect ∈ issued := by cases hends <;> exact List.mem_cons_self ..
    have htried : step.Reconnects := ⟨rfl, List.mem_cons_of_mem _ hconnect⟩
    rw [step_eq happly (List.append_assoc ..)]
    change Advances session feed _ step
    refine ⟨rfl, rfl, rfl, List.append_assoc .., .inl (.next hsession hends.performs), ?_,
      fun _ => ⟨iff_of_true htried hbudget, fun hnot => absurd htried hnot⟩, fun _ => hdown, ?_,
      .increment "market_data_disconnects" 1 :: calls, List.append_assoc .., ?_⟩
    · rw [if_pos htried]
    · cases hends <;> rfl
    · rw [if_pos hdown]
      cases hends <;> exact ⟨rfl, rfl, rfl, rfl⟩

private theorem advances (feed : LiveFeed) (call : FeedCall) :
    Advances session feed ((machine session).step feed call).1 ((machine session).step feed call).2 := by
  cases call with
  | start => exact feed.advances_start
  | handleDisconnect => exact feed.advances_handleDisconnect

end LiveFeed

/-! ### Runs -/

/-- What a run of calls of a new controller accounts for. -/
structure FeedAccounts (session : FeedSession) (symbols : List String) (maxReconnectAttempts : Nat) (feed : LiveFeed)
    (steps : List FeedStep) : Prop where
  watches : feed.controller.symbols = symbols
  maximum : feed.controller.maxReconnectAttempts = maxReconnectAttempts
  sessionCalls : feed.sessionCalls = steps.flatMap FeedStep.issued
  issues : ∀ step ∈ steps, step.Issues session symbols
  attempts : feed.controller.reconnectAttempts = steps.countP fun step => step.Reconnects
  bounded : feed.controller.reconnectAttempts ≤ maxReconnectAttempts
  budget : ∀ k, ∀ step ∈ steps[k]?, step.ShutsDown session →
    (step.Reconnects ↔ ((steps.take k).countP fun step => step.Reconnects) < maxReconnectAttempts) ∧
      (¬step.Reconnects → step.error = some "market-data reconnect attempts exhausted")
  connected : feed.controller.connected = steps.foldl FeedStep.connectedAfter false
  connects : total "market_data_connects" feed.metricCalls = steps.countP fun step => step.ComesUp .start
  reconnects : total "market_data_reconnects" feed.metricCalls = steps.countP fun step =>
    step.ComesUp .handleDisconnect
  subscribes : total "market_data_subscribes" feed.metricCalls = steps.countP fun step => step.error = none
  disconnects : total "market_data_disconnects" feed.metricCalls = steps.countP fun step => step.ShutsDown session

namespace FeedAccounts

variable {session : FeedSession} {symbols : List String} {maxReconnectAttempts : Nat}

private theorem advance {feed after : LiveFeed} {steps : List FeedStep} {step : FeedStep}
    (h : FeedAccounts session symbols maxReconnectAttempts feed steps)
    (hstep : LiveFeed.Advances session feed after step) :
    FeedAccounts session symbols maxReconnectAttempts after (steps ++ [step]) := by
  have hcount : ∀ (P : FeedStep → Prop) [DecidablePred P], ((steps ++ [step]).countP fun step => decide (P step)) =
      (steps.countP fun step => decide (P step)) + if P step then 1 else 0 := by
    intro P _
    rw [List.countP_append, List.countP_singleton]
    simp
  obtain ⟨calls, hcalls, hconnects, hreconnects, hsubscribes, hdisconnects⟩ := hstep.metrics
  have hattempts : after.controller.reconnectAttempts =
      (steps ++ [step]).countP fun step => decide step.Reconnects := by
    rw [hcount, ← h.attempts, hstep.attempts]
  refine ⟨hstep.symbols.trans h.watches, hstep.maximum.trans h.maximum, ?_, ?_, hattempts, ?_, ?_, ?_, ?_, ?_, ?_, ?_⟩
  · rw [hstep.sessionCalls, h.sessionCalls, List.flatMap_append, List.flatMap_singleton]
  · intro other hother
    rcases List.mem_append.1 hother with hother | hother
    · exact h.issues other hother
    · rw [List.mem_singleton.1 hother, ← h.watches]
      exact hstep.issues
  · rw [hstep.attempts]
    split
    · -- an attempt is made only while the budget lasts
      rename_i htried
      have hbudget := ((hstep.budget (hstep.shutsDown htried)).1).1 htried
      rw [h.maximum] at hbudget
      exact hbudget
    · exact h.bounded
  · intro k other hother hdown
    rcases Nat.lt_trichotomy k steps.length with hk | hk | hk
    · rw [List.getElem?_append_left hk] at hother
      rw [List.take_append_of_le_length hk.le]
      exact h.budget k other hother hdown
    · subst hk
      rw [List.getElem?_append_right le_rfl, Nat.sub_self] at hother
      cases hother
      have hbudget := hstep.budget hdown
      rw [h.maximum, h.attempts] at hbudget
      rwa [List.take_left]
    · rw [List.getElem?_eq_none (by rw [List.length_append, List.length_singleton]; omega)] at hother
      cases hother
  · rw [hstep.connected, h.connected, List.foldl_append]
    rfl
  · rw [hcalls, total_append, h.connects, hconnects, hcount]
    push_cast
    rfl
  · rw [hcalls, total_append, h.reconnects, hreconnects, hcount]
    push_cast
    rfl
  · rw [hcalls, total_append, h.subscribes, hsubscribes, hcount]
    push_cast
    rfl
  · rw [hcalls, total_append, h.disconnects, hdisconnects, hcount]
    push_cast
    rfl

end FeedAccounts

/-- A new controller under any calls, with any session, whatever each of its calls throws.  Every call of the
controller makes its session calls in the order disconnect, connect, subscribe, up to the first one at which the session
throws, and throws that; at most `maxReconnectAttempts` calls ever try to reconnect, namely the first ones that shut the
session down, and each later one throws that the attempts are exhausted; `connected` says that some call has returned
and that no `handle_disconnect` has thrown since; and the counters count the calls that came up and those that shut
down. -/
theorem feed_accounts (session : FeedSession) (symbols : List String) (maxReconnectAttempts : Nat)
    (calls : List FeedCall) :
    let feed : LiveFeed := { controller := { symbols := symbols, maxReconnectAttempts := maxReconnectAttempts } }
    FeedAccounts session symbols maxReconnectAttempts ((LiveFeed.machine session).run feed calls)
      ((LiveFeed.machine session).outputs feed calls) := by
  intro feed
  have hany : (LiveFeed.machine session).Admissible (fun _ _ => True) feed calls :=
    Machine.admissible_of_forall (fun _ _ _ => trivial) _
  refine Machine.invariant_history
    (P := fun _ feed steps => FeedAccounts session symbols maxReconnectAttempts feed steps)
    (fun _ feed _ call _ h => h.advance (feed.advances call)) hany ?_
  exact ⟨rfl, rfl, rfl, by simp, rfl, Nat.zero_le _, by simp, rfl, rfl, rfl, rfl, rfl⟩

/-- With one attempt the second disconnect is final. -/
example : ((LiveFeed.machine fun _ => none).outputs
    { controller := { symbols := ["BTCUSDT"], maxReconnectAttempts := 1 } }
    [.start, .handleDisconnect, .handleDisconnect]).map FeedStep.error =
      [none, none, some "market-data reconnect attempts exhausted"] := by decide

end Wall
