import Wall.HealthStatus
import Wall.Lib.Machine

/-!
# The health of a feed

`market_data/feed_health_tracker.cpp`.  The tracker keeps two flags and two timestamps; its status is one of the whole
history of its calls: a connection starts without a subscription, a message confirms both, and neither a new
connection nor a new subscription forgets the last message or the last disconnect (`after_eq`).  As time
passes without a call the status only gets worse.
-/

namespace Wall

structure FeedHealthTracker where
  connected : Bool := false
  subscribed : Bool := false
  lastMessageTimestamp : Int := 0
  lastDisconnectTimestamp : Int := 0
  disconnectCount : Nat := 0
  deriving DecidableEq, Repr

namespace FeedHealthTracker

def onConnect (tracker : FeedHealthTracker) : FeedHealthTracker :=
  { tracker with connected := true, subscribed := false }

def onSubscribeSuccess (tracker : FeedHealthTracker) : FeedHealthTracker :=
  { tracker with connected := true, subscribed := true }

def onMessage (tracker : FeedHealthTracker) (receiveTimestamp : Int) : FeedHealthTracker :=
  { tracker with connected := true, subscribed := true, lastMessageTimestamp := receiveTimestamp }

def onDisconnect (tracker : FeedHealthTracker) (now : Int) : FeedHealthTracker :=
  { tracker with
    connected := false
    subscribed := false
    lastDisconnectTimestamp := now
    disconnectCount := tracker.disconnectCount + 1 }

def status (tracker : FeedHealthTracker) (now staleAfterMs disconnectGraceMs : Int) : HealthStatus :=
  if tracker.connected = false then
    if tracker.lastDisconnectTimestamp = 0 then .unknown
    else if now - tracker.lastDisconnectTimestamp > disconnectGraceMs then .unavailable
    else .degraded
  else if tracker.subscribed = false then .degraded
  else if tracker.lastMessageTimestamp = 0 then .unknown
  else if now - tracker.lastMessageTimestamp > staleAfterMs then .degraded
  else .healthy

end FeedHealthTracker

/-- A call of the health tracker; the reading of the clock belongs to a disconnect. -/
inductive FeedSignal
  | connect
  | subscribeSuccess
  | message (receiveTimestamp : Int)
  | disconnect (now : Int)
  deriving DecidableEq, Repr

namespace FeedSignal

def messageTime : FeedSignal → Option Int
  | message receiveTimestamp => some receiveTimestamp
  | connect | subscribeSuccess | disconnect _ => none

def disconnectTime : FeedSignal → Option Int
  | disconnect now => some now
  | connect | subscribeSuccess | message _ => none

/-- The call confirms a subscription. -/
def confirms : FeedSignal → Bool
  | subscribeSuccess | message _ => true
  | connect | disconnect _ => false

end FeedSignal

namespace FeedHealthTracker

def apply (tracker : FeedHealthTracker) : FeedSignal → FeedHealthTracker
  | .connect => tracker.onConnect
  | .subscribeSuccess => tracker.onSubscribeSuccess
  | .message receiveTimestamp => tracker.onMessage receiveTimestamp
  | .disconnect now => tracker.onDisconnect now

/-- The tracker after these calls. -/
def after (calls : List FeedSignal) : FeedHealthTracker := calls.foldl apply {}

end FeedHealthTracker

/-! ### The history -/

/-- The receive timestamp of the last message, zero before the first. -/
def lastMessage (calls : List FeedSignal) : Int := (calls.filterMap FeedSignal.messageTime).getLast?.getD 0

/-- The reading at the last disconnect, zero before the first. -/
def lastDisconnect (calls : List FeedSignal) : Int := (calls.filterMap FeedSignal.disconnectTime).getLast?.getD 0

/-- What the last call says about the connection and about the subscription. -/
def linkOf (calls : List FeedSignal) : Bool × Bool :=
  match calls.getLast? with
  | none => (false, false)
  | some call => (call.disconnectTime.isNone, call.confirms)

/-- What a status can become while the tracker gets no call. -/
def HealthStatus.LastsAs : HealthStatus → HealthStatus → Prop
  | .healthy, status => status = .healthy ∨ status = .degraded
  | .degraded, status => status = .degraded ∨ status = .unavailable
  | .unavailable, status => status = .unavailable
  | .unknown, status => status = .unknown

namespace FeedHealthTracker

theorem after_eq (calls : List FeedSignal) : after calls =
    { connected := (linkOf calls).1
      subscribed := (linkOf calls).2
      lastMessageTimestamp := lastMessage calls
      lastDisconnectTimestamp := lastDisconnect calls
      disconnectCount := (calls.filterMap FeedSignal.disconnectTime).length } := by
  induction calls using List.reverseRecOn with
  | nil => rfl
  | append_singleton calls call ih =>
    rw [after, List.foldl_append, show calls.foldl apply {} = _ from ih]
    cases call <;> simp [apply, onConnect, onSubscribeSuccess, onMessage, onDisconnect, linkOf, lastMessage,
      lastDisconnect, FeedSignal.messageTime, FeedSignal.disconnectTime, FeedSignal.confirms]

private theorem status_eq_healthy_iff (tracker : FeedHealthTracker) (now staleAfterMs disconnectGraceMs : Int) :
    tracker.status now staleAfterMs disconnectGraceMs = .healthy ↔ tracker.connected = true ∧
      tracker.subscribed = true ∧ tracker.lastMessageTimestamp ≠ 0 ∧
        now - tracker.lastMessageTimestamp ≤ staleAfterMs := by
  unfold status
  constructor
  · intro h
    split_ifs at h with hconnected _ _ hsubscribed hmessage hstale
    exact ⟨Bool.not_eq_false _ ▸ hconnected, Bool.not_eq_false _ ▸ hsubscribed, hmessage, not_lt.1 hstale⟩
  · rintro ⟨hconnected, hsubscribed, hmessage, hfresh⟩
    rw [if_neg (by simp [hconnected]), if_neg (by simp [hsubscribed]), if_neg hmessage, if_neg (not_lt.2 hfresh)]

private theorem status_eq_unavailable_iff (tracker : FeedHealthTracker) (now staleAfterMs disconnectGraceMs : Int) :
    tracker.status now staleAfterMs disconnectGraceMs = .unavailable ↔ tracker.connected = false ∧
      tracker.lastDisconnectTimestamp ≠ 0 ∧ now - tracker.lastDisconnectTimestamp > disconnectGraceMs := by
  unfold status
  constructor
  · intro h
    split_ifs at h with hconnected hdisconnect hgrace
    exact ⟨hconnected, hdisconnect, hgrace⟩
  · rintro ⟨hconnected, hdisconnect, hgrace⟩
    rw [if_pos hconnected, if_neg hdisconnect, if_pos hgrace]

/-- The last call was a message or a confirmed subscription exactly if both flags are set. -/
private theorem linkOf_confirmed_iff (calls : List FeedSignal) :
    (linkOf calls).1 = true ∧ (linkOf calls).2 = true ↔ ∃ call ∈ calls.getLast?, call.confirms = true := by
  unfold linkOf
  cases calls.getLast? with
  | none => simp
  | some call => cases call <;> simp [FeedSignal.disconnectTime, FeedSignal.confirms]

/-- A feed that has been connected is not connected exactly if the last call was a disconnect, which is then the last
one. -/
private theorem linkOf_disconnected_iff (calls : List FeedSignal) (P : Int → Prop) :
    (linkOf calls).1 = false ∧ lastDisconnect calls ≠ 0 ∧ P (lastDisconnect calls) ↔
      ∃ now, calls.getLast? = some (.disconnect now) ∧ now ≠ 0 ∧ P now := by
  cases calls using List.reverseRecOn with
  | nil => simp [linkOf, lastDisconnect]
  | append_singleton calls call =>
    cases call <;> simp [linkOf, lastDisconnect, FeedSignal.disconnectTime]

/-- As time passes without a call, a healthy feed can become degraded and a degraded one unavailable; an unknown or an
unavailable one stays so. -/
private theorem status_lasts (tracker : FeedHealthTracker) {now now' : Int} (h : now ≤ now')
    (staleAfterMs disconnectGraceMs : Int) :
    (tracker.status now staleAfterMs disconnectGraceMs).LastsAs
      (tracker.status now' staleAfterMs disconnectGraceMs) := by
  unfold status
  split_ifs <;> first | omega | simp [HealthStatus.LastsAs]

/-- After any calls the feed is healthy exactly if the last call was a message or a confirmed subscription, and some
message was received whose timestamp is not zero and not too old; the last one counts, whichever connection it came
from.  It is unavailable exactly if the last call was a disconnect at a reading other than zero and the grace is over.
As time passes without a call it only gets worse, and the disconnects are counted. -/
theorem feed_health (calls : List FeedSignal) (now staleAfterMs disconnectGraceMs : Int) :
    ((after calls).status now staleAfterMs disconnectGraceMs = .healthy ↔
      (∃ call ∈ calls.getLast?, call.confirms = true) ∧ lastMessage calls ≠ 0 ∧
        now - lastMessage calls ≤ staleAfterMs) ∧
    ((after calls).status now staleAfterMs disconnectGraceMs = .unavailable ↔
      ∃ disconnectedAt, calls.getLast? = some (.disconnect disconnectedAt) ∧ disconnectedAt ≠ 0 ∧
        now - disconnectedAt > disconnectGraceMs) ∧
    (∀ later ≥ now, ((after calls).status now staleAfterMs disconnectGraceMs).LastsAs
      ((after calls).status later staleAfterMs disconnectGraceMs)) ∧
    (after calls).disconnectCount = (calls.filterMap FeedSignal.disconnectTime).length := by
  refine ⟨?_, ?_, fun later hlater => (after calls).status_lasts hlater _ _, by rw [after_eq]⟩
  · rw [status_eq_healthy_iff, after_eq, ← linkOf_confirmed_iff, and_assoc]
  · rw [status_eq_unavailable_iff, after_eq]
    exact linkOf_disconnected_iff calls fun disconnectedAt => now - disconnectedAt > disconnectGraceMs

/-- A disconnect at the reading zero is never found unavailable. -/
example : (after [.connect, .disconnect 0]).status 1000000 1000 1000 = .unknown := by decide

end FeedHealthTracker

end Wall
