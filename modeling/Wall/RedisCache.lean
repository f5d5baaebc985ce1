import Wall.FileRepositories
import Wall.Replay
import Wall.Lib.CString
import Wall.Lib.RedisServer

/-!
# The Redis caches

`infrastructure/redis_cache.cpp`: the caches of the fallback, which are maps, and those over a Redis server.  The
native caches share the keys of one server, hand it C strings, which end at the first NUL, and store numbers as
`std::to_string` prints them.  The two families of keys never meet, so no command finds a value of the wrong kind, and
up to NULs and the printing of numbers the native caches show what those of the fallback do (`native_caches`).
-/

namespace Wall

open KeyedMap CString Redis

/-! ### The caches of the fallback

`RedisTransactionCache` and `RedisMarketStateCache` are the in-memory caches under other names. -/

abbrev RedisTransactionCache := InMemoryTransactionCache

abbrev RedisMarketStateCache := InMemoryMarketStateCache

def RedisTransactionCache.getStatus (cache : RedisTransactionCache) (transactionId : String) : String :=
  cache.statuses[transactionId]?.getD ""

/-! ### The native caches -/

def transactionStatusKey (transactionId : String) : String := "wall:transaction_status:" ++ transactionId

def marketSnapshotKey (instrumentId : String) : String := "wall:market_snapshot:" ++ instrumentId

def encodeRedisDouble (text : NumberText) (value : Option ℚ) : String := (value.map text.toString).getD ""

/-- The `str` of a reply. -/
def replyStr : Reply → Option String
  | .status text | .string text | .error text => some (cString text)
  | .nil | .integer _ | .array _ => none

/-- None where `std::stod` throws. -/
def decodeRedisDouble (text : NumberText) (reply : Reply) : Except String (Option ℚ) :=
  match replyStr reply with
  | none => .ok none
  | some "" => .ok none
  | some str =>
    match text.stod str with
    | some value => .ok (some value)
    | none => .error "stod"

section Commands

variable {ς : Type} (server : Server ς)

def ensureReplyOk (reply : Option Reply) (commandName : String) : Except String Reply :=
  match reply with
  | none => .error ("Redis command failed for " ++ commandName ++ ": " ++ server.errstr)
  | some (.error message) => .error ("Redis command failed for " ++ commandName ++ ": " ++ message)
  | some reply => .ok reply

def HiredisTransactionCache.setStatus (transactionId status : String) (state : ς) : Except String ς := do
  let answer := server.set (cString (transactionStatusKey transactionId)) (cString status) state
  let _ ← ensureReplyOk server answer.1 "SET"
  return answer.2

def HiredisTransactionCache.getStatus (transactionId : String) (state : ς) : Except String String := do
  let reply ← ensureReplyOk server (server.get (cString (transactionStatusKey transactionId)) state) "GET"
  match reply with
  | .string text => return cString text
  | _ => return ""

/-- The fields of a market snapshot and their texts. -/
def snapshotFields (text : NumberText) (snapshot : MarketSnapshot) : List (String × String) :=
  [("best_bid", cString (encodeRedisDouble text snapshot.bestBid)),
    ("best_ask", cString (encodeRedisDouble text snapshot.bestAsk)),
    ("last_trade_price", cString (encodeRedisDouble text snapshot.lastTradePrice)),
    ("last_trade_quantity", cString (encodeRedisDouble text snapshot.lastTradeQuantity)),
    ("last_process_timestamp", Int.repr snapshot.lastProcessTimestamp)]

def HiredisMarketStateCache.upsertSnapshot (text : NumberText) (snapshot : MarketSnapshot) (state : ς) :
    Except String ς := do
  let answer := server.hset (cString (marketSnapshotKey snapshot.instrumentId)) (snapshotFields text snapshot) state
  let _ ← ensureReplyOk server answer.1 "HSET"
  return answer.2

/-- The snapshot in the five elements of a reply. -/
def readSnapshot (text : NumberText) (instrumentId : String) : List Reply → Except String (Option MarketSnapshot)
  | [bestBid, bestAsk, lastTradePrice, lastTradeQuantity, timestamp] =>
    match replyStr timestamp with
    | none => .ok none
    | some str => do
      let bestBid ← decodeRedisDouble text bestBid
      let bestAsk ← decodeRedisDouble text bestAsk
      let lastTradePrice ← decodeRedisDouble text lastTradePrice
      let lastTradeQuantity ← decodeRedisDouble text lastTradeQuantity
      match stoll str with
      | some lastProcessTimestamp =>
        return some
          { instrumentId := instrumentId
            bestBid := bestBid
            bestAsk := bestAsk
            lastTradePrice := lastTradePrice
            lastTradeQuantity := lastTradeQuantity
            lastProcessTimestamp := lastProcessTimestamp }
      | none => .error "stoll"
  | _ => .ok none

def HiredisMarketStateCache.getSnapshot (text : NumberText) (instrumentId : String) (state : ς) :
    Except String (Option MarketSnapshot) := do
  let reply ← ensureReplyOk server (server.hmget (cString (marketSnapshotKey instrumentId))
    ["best_bid", "best_ask", "last_trade_price", "last_trade_quantity", "last_process_timestamp"] state) "HMGET"
  match reply with
  | .array elements => readSnapshot text instrumentId elements
  | _ => return none

end Commands

/-! ### Writes -/

inductive CacheWrite
  | setStatus (transactionId status : String)
  | upsertSnapshot (snapshot : MarketSnapshot)

namespace CacheWrite

/-- The write to the native caches. -/
def native {ς : Type} (server : Server ς) (text : NumberText) (state : ς) : CacheWrite → Except String ς
  | setStatus transactionId status => HiredisTransactionCache.setStatus server transactionId status state
  | upsertSnapshot snapshot => HiredisMarketStateCache.upsertSnapshot server text snapshot state

/-- The write to the caches of the fallback. -/
def fallback (caches : RedisTransactionCache × RedisMarketStateCache) :
    CacheWrite → RedisTransactionCache × RedisMarketStateCache
  | setStatus transactionId status => (caches.1.setStatus transactionId status, caches.2)
  | upsertSnapshot snapshot => (caches.1, caches.2.upsertSnapshot snapshot)

/-- The write with its strings cut at their first NUL. -/
def cut : CacheWrite → CacheWrite
  | setStatus transactionId status => setStatus (cString transactionId) (cString status)
  | upsertSnapshot snapshot => upsertSnapshot { snapshot with instrumentId := cString snapshot.instrumentId }

/-- The timestamp is one of 64 bits. -/
def Fits : CacheWrite → Prop
  | setStatus .. => True
  | upsertSnapshot snapshot => -2 ^ 63 ≤ snapshot.lastProcessTimestamp ∧ snapshot.lastProcessTimestamp < 2 ^ 63

end CacheWrite

/-- The snapshot with its numbers rounded. -/
def MarketSnapshot.round (rnd : ℚ → ℚ) (snapshot : MarketSnapshot) : MarketSnapshot :=
  { snapshot with
    bestBid := snapshot.bestBid.map rnd
    bestAsk := snapshot.bestAsk.map rnd
    lastTradePrice := snapshot.lastTradePrice.map rnd
    lastTradeQuantity := snapshot.lastTradeQuantity.map rnd }

/-! ### Keys -/

private theorem cString_transactionStatusKey (transactionId : String) :
    cString (transactionStatusKey transactionId) = transactionStatusKey (cString transactionId) :=
  cString_append (by decide) transactionId

private theorem cString_marketSnapshotKey (instrumentId : String) :
    cString (marketSnapshotKey instrumentId) = marketSnapshotKey (cString instrumentId) :=
  cString_append (by decide) instrumentId

private theorem transactionStatusKey_inj {id id' : String} :
    transactionStatusKey id = transactionStatusKey id' ↔ id = id' :=
  String.append_right_inj _

private theorem marketSnapshotKey_inj {id id' : String} : marketSnapshotKey id = marketSnapshotKey id' ↔ id = id' :=
  String.append_right_inj _

/-- The two families of keys differ at their sixth character. -/
private theorem transactionStatusKey_ne_marketSnapshotKey (id id' : String) :
    transactionStatusKey id ≠ marketSnapshotKey id' := by
  intro h
  have hlists := congrArg String.toList h
  unfold transactionStatusKey marketSnapshotKey at hlists
  rw [String.toList_append, String.toList_append] at hlists
  have hfirst := congrArg (List.take 6) hlists
  rw [List.take_append_of_le_length (by decide), List.take_append_of_le_length (by decide)] at hfirst
  exact absurd hfirst (by decide)

/-! ### What the server holds -/

/-- The server holds what the caches of the fallback hold. -/
structure HoldsCaches (value : String → Option Value) (text : NumberText)
    (caches : RedisTransactionCache × RedisMarketStateCache) : Prop where
  status (id : String) : value (transactionStatusKey id) = caches.1.statuses[id]?.map Value.string
  snapshot (id : String) : value (marketSnapshotKey id) =
    caches.2.snapshots[id]?.map fun snapshot => .hash (written (fun _ => none) (snapshotFields text snapshot))
  cut (id status : String) : caches.1.statuses[id]? = some status → cString status = status
  fits (id : String) (snapshot : MarketSnapshot) : caches.2.snapshots[id]? = some snapshot →
    -2 ^ 63 ≤ snapshot.lastProcessTimestamp ∧ snapshot.lastProcessTimestamp < 2 ^ 63

private theorem ensureReplyOk_eq {ς : Type} {server : Server ς} {answer : Option Reply} {reply : Reply}
    (h : answer = some reply) (hok : ∀ message, reply ≠ .error message) (commandName : String) :
    ensureReplyOk server answer commandName = .ok reply := by
  subst h
  cases reply with
  | error message => exact absurd rfl (hok message)
  | nil | status | integer | string | array => rfl

section Documented

variable {ς : Type} {server : Server ς} {value : ς → String → Option Value} (hserver : server.Documented value)
variable {text : NumberText} {state : ς} {caches : RedisTransactionCache × RedisMarketStateCache}
include hserver

/-- A write succeeds, is held, and leaves the keys of others alone. -/
theorem HoldsCaches.write (h : HoldsCaches (value state) text caches) {write : CacheWrite} (hfits : write.Fits) :
    ∃ state', write.native server text state = .ok state' ∧
      HoldsCaches (value state') text (write.cut.fallback caches) ∧
      ∀ key, (∀ id, key ≠ transactionStatusKey id) → (∀ id, key ≠ marketSnapshotKey id) →
        value state' key = value state key := by
  cases write with
  | setStatus transactionId status =>
    obtain ⟨reply, hreply⟩ := hserver.set_reply (cString (transactionStatusKey transactionId)) (cString status) state
    have hvalue := hserver.set_value (cString (transactionStatusKey transactionId)) (cString status) state
    rw [cString_transactionStatusKey] at hreply hvalue
    refine ⟨(server.set (transactionStatusKey (cString transactionId)) (cString status) state).2, ?_, ?_,
      fun key hkey _ => ?_⟩
    · rw [CacheWrite.native, HiredisTransactionCache.setStatus, cString_transactionStatusKey]
      rw [ensureReplyOk_eq hreply (fun _ => nofun)]
      rfl
    · refine ⟨fun id => ?_, fun id => ?_, fun id stored hstored => ?_, h.fits⟩
      · rw [hvalue]
        show _ = (caches.1.statuses.insert (cString transactionId) (cString status))[id]?.map Value.string
        rw [getElem?_insert]
        by_cases hid : cString transactionId = id
        · subst hid
          rw [Function.update_self, if_pos rfl, Option.map_some]
        · rw [Function.update_of_ne fun heq => hid (transactionStatusKey_inj.1 heq).symm, if_neg hid, h.status]
      · rw [hvalue, Function.update_of_ne (transactionStatusKey_ne_marketSnapshotKey _ id).symm]
        exact h.snapshot id
      · change (caches.1.statuses.insert (cString transactionId) (cString status))[id]? = some stored at hstored
        rw [getElem?_insert] at hstored
        split at hstored
        · cases hstored
          exact cString_cString status
        · exact h.cut id stored hstored
    · rw [hvalue, Function.update_of_ne (hkey _)]
  | upsertSnapshot snapshot =>
    -- HSET keeps the fields that it does not name, but every snapshot names the same ones
    have hfields : ∃ fields, fieldsAt (value state (marketSnapshotKey (cString snapshot.instrumentId))) = some fields ∧
        written fields (snapshotFields text snapshot) = written (fun _ => none) (snapshotFields text snapshot) := by
      rw [h.snapshot]
      cases caches.2.snapshots[cString snapshot.instrumentId]? with
      | none => exact ⟨_, rfl, rfl⟩
      | some old =>
        have hnames : (snapshotFields text old).map Prod.fst = (snapshotFields text snapshot).map Prod.fst := rfl
        exact ⟨_, rfl, written_written hnames _⟩
    obtain ⟨fields, hat, hwritten⟩ := hfields
    obtain ⟨n, hreply⟩ := hserver.hset_reply (snapshotFields text snapshot) hat
    have hvalue := hserver.hset_value (snapshotFields text snapshot) hat
    rw [hwritten] at hvalue
    refine ⟨(server.hset (marketSnapshotKey (cString snapshot.instrumentId)) (snapshotFields text snapshot) state).2,
      ?_, ?_, fun key _ hkey => ?_⟩
    · rw [CacheWrite.native, HiredisMarketStateCache.upsertSnapshot, cString_marketSnapshotKey]
      rw [ensureReplyOk_eq hreply (fun _ => nofun)]
      rfl
    · refine ⟨fun id => ?_, fun id => ?_, h.cut, fun id stored hstored => ?_⟩
      · rw [hvalue, Function.update_of_ne (transactionStatusKey_ne_marketSnapshotKey id _)]
        exact h.status id
      · rw [hvalue]
        show _ = (caches.2.snapshots.insert (cString snapshot.instrumentId)
          { snapshot with instrumentId := cString snapshot.instrumentId })[id]?.map _
        rw [getElem?_insert]
        by_cases hid : cString snapshot.instrumentId = id
        · subst hid
          rw [Function.update_self, if_pos rfl, Option.map_some]
          rfl
        · rw [Function.update_of_ne fun heq => hid (marketSnapshotKey_inj.1 heq).symm, if_neg hid, h.snapshot]
      · change (caches.2.snapshots.insert (cString snapshot.instrumentId)
          { snapshot with instrumentId := cString snapshot.instrumentId })[id]? = some stored at hstored
        rw [getElem?_insert] at hstored
        split at hstored
        · cases hstored
          exact hfits
        · exact h.fits id stored hstored
    · rw [hvalue, Function.update_of_ne (hkey _)]

theorem HoldsCaches.getStatus (h : HoldsCaches (value state) text caches) (id : String) :
    HiredisTransactionCache.getStatus server id state =
      .ok (RedisTransactionCache.getStatus caches.1 (cString id)) := by
  have hvalue := h.status (cString id)
  rw [HiredisTransactionCache.getStatus, cString_transactionStatusKey, RedisTransactionCache.getStatus]
  cases hstatus : caches.1.statuses[cString id]? with
  | none =>
    rw [hstatus] at hvalue
    rw [ensureReplyOk_eq (hserver.get_missing hvalue) (fun _ => nofun)]
    rfl
  | some status =>
    rw [hstatus] at hvalue
    rw [ensureReplyOk_eq (hserver.get_string hvalue) (fun _ => nofun)]
    show Except.ok (cString status) = _
    rw [h.cut _ _ hstatus]
    rfl

variable {rnd : ℚ → ℚ} (hnumbers : Numerals text.toString text.stod rnd)
  (hnul : ∀ x, '\x00' ∉ (text.toString x).toList)

omit hserver in
include hnumbers hnul in
private theorem decodeRedisDouble_encode (number : Option ℚ) :
    decodeRedisDouble text (.string (cString (encodeRedisDouble text number))) = .ok (number.map rnd) := by
  cases number with
  | none => rfl
  | some x =>
    have htext : cString (cString (text.toString x)) = text.toString x := by
      rw [cString_cString, cString_of_notMem (hnul x)]
    have hne := hnumbers.ne_empty x
    have hreads := hnumbers.reads x
    unfold decodeRedisDouble replyStr encodeRedisDouble
    simp only [Option.map_some, Option.getD_some, htext, hreads]

omit hserver in
private theorem getSnapshot_of_array {instrumentId : String} {elements : List Reply}
    (h : server.hmget (marketSnapshotKey (cString instrumentId))
      ["best_bid", "best_ask", "last_trade_price", "last_trade_quantity", "last_process_timestamp"] state =
        some (.array elements)) :
    HiredisMarketStateCache.getSnapshot server text instrumentId state = readSnapshot text instrumentId elements := by
  rw [HiredisMarketStateCache.getSnapshot, cString_marketSnapshotKey, ensureReplyOk_eq h (fun _ => nofun)]
  rfl

include hnumbers hnul in
theorem HoldsCaches.getSnapshot (h : HoldsCaches (value state) text caches) (id : String) :
    HiredisMarketStateCache.getSnapshot server text id state =
      .ok ((caches.2.getSnapshot (cString id)).map fun snapshot => { snapshot.round rnd with instrumentId := id }) := by
  have hvalue := h.snapshot (cString id)
  rw [InMemoryMarketStateCache.getSnapshot]
  cases hsnapshot : caches.2.snapshots[cString id]? with
  | none =>
    have hat : fieldsAt (value state (marketSnapshotKey (cString id))) = some fun _ => none := by
      rw [hvalue, hsnapshot]
      rfl
    rw [getSnapshot_of_array (hserver.hmget _ hat)]
    rfl
  | some snapshot =>
    have hat : fieldsAt (value state (marketSnapshotKey (cString id))) =
        some (written (fun _ => none) (snapshotFields text snapshot)) := by
      rw [hvalue, hsnapshot]
      rfl
    have helements : (["best_bid", "best_ask", "last_trade_price", "last_trade_quantity", "last_process_timestamp"].map
        fun name => (written (fun _ => none) (snapshotFields text snapshot) name).elim Reply.nil Reply.string) =
        (snapshotFields text snapshot).map fun pair => Reply.string pair.2 := by
      simp [written, snapshotFields]
    have htimestamp : replyStr (.string (Int.repr snapshot.lastProcessTimestamp)) =
        some (Int.repr snapshot.lastProcessTimestamp) := by
      refine congrArg some (cString_of_notMem fun hmem => ?_)
      rw [← Int.toString_eq_repr] at hmem
      rcases Decimal.isDigit_of_mem_toString hmem with hc | hc <;> exact absurd hc (by decide)
    have hdecode := decodeRedisDouble_encode hnumbers hnul
    have hstoll := ReplayService.stoll_repr (h.fits _ _ hsnapshot)
    rw [getSnapshot_of_array (hserver.hmget _ hat), helements]
    simp only [snapshotFields, List.map_cons, List.map_nil, readSnapshot, htimestamp, hdecode, hstoll]
    rfl

end Documented

/-! ### Runs -/

/-- The writes to the native caches, in order; the first that throws ends them. -/
def runNative {ς : Type} (server : Server ς) (text : NumberText) (writes : List CacheWrite) (state : ς) :
    Except String ς :=
  writes.foldlM (CacheWrite.native server text) state

/-- The caches of the fallback after the writes. -/
def runFallback (writes : List CacheWrite) : RedisTransactionCache × RedisMarketStateCache :=
  writes.foldl CacheWrite.fallback ({}, {})

private theorem holdsCaches_run {ς : Type} {server : Server ς} {value : ς → String → Option Value}
    (hserver : server.Documented value) {text : NumberText} {writes : List CacheWrite} (hfits : ∀ w ∈ writes, w.Fits)
    {state : ς} {caches : RedisTransactionCache × RedisMarketStateCache} (h : HoldsCaches (value state) text caches) :
    ∃ state', runNative server text writes state = .ok state' ∧
      HoldsCaches (value state') text ((writes.map CacheWrite.cut).foldl CacheWrite.fallback caches) ∧
      ∀ key, (∀ id, key ≠ transactionStatusKey id) → (∀ id, key ≠ marketSnapshotKey id) →
        value state' key = value state key := by
  induction writes generalizing state caches with
  | nil => exact ⟨state, rfl, h, fun _ _ _ => rfl⟩
  | cons write writes ih =>
    rw [List.forall_mem_cons] at hfits
    obtain ⟨state', hwrite, hholds, hothers⟩ := h.write hserver hfits.1
    obtain ⟨state'', hwrites, hholds', hothers'⟩ := ih hfits.2 hholds
    refine ⟨state'', ?_, hholds', fun key hstatus hsnapshot =>
      (hothers' key hstatus hsnapshot).trans (hothers key hstatus hsnapshot)⟩
    rw [runNative, List.foldlM_cons, hwrite]
    exact hwrites

/-- Any writes to the two native caches, in any order, on a server that holds none of their keys: none of them
throws, the keys of others keep their values, and for every id the native caches then return what the caches of the
fallback return after the same writes, with all strings cut at their first NUL and the numbers of a snapshot as
`std::to_string` prints them. -/
theorem native_caches {ς : Type} {server : Server ς} {value : ς → String → Option Value}
    (hserver : server.Documented value) {text : NumberText} {rnd : ℚ → ℚ}
    (hnumbers : Numerals text.toString text.stod rnd) (hnul : ∀ x, '\x00' ∉ (text.toString x).toList) {state : ς}
    (hstatuses : ∀ id, value state (transactionStatusKey id) = none)
    (hsnapshots : ∀ id, value state (marketSnapshotKey id) = none) (writes : List CacheWrite)
    (hfits : ∀ w ∈ writes, w.Fits) :
    let caches := runFallback (writes.map CacheWrite.cut)
    ∃ state', runNative server text writes state = .ok state' ∧
      (∀ id, HiredisTransactionCache.getStatus server id state' =
        .ok (RedisTransactionCache.getStatus caches.1 (cString id))) ∧
      (∀ id, HiredisMarketStateCache.getSnapshot server text id state' =
        .ok ((caches.2.getSnapshot (cString id)).map fun snapshot =>
          { snapshot.round rnd with instrumentId := id })) ∧
      ∀ key, (∀ id, key ≠ transactionStatusKey id) → (∀ id, key ≠ marketSnapshotKey id) →
        value state' key = value state key := by
  intro caches
  have hempty : HoldsCaches (value state) text ({}, {}) :=
    ⟨fun id => by simp [hstatuses], fun id => by simp [hsnapshots], fun id => by simp, fun id => by simp⟩
  obtain ⟨state', hrun, hholds, hothers⟩ := holdsCaches_run hserver hfits hempty
  exact ⟨state', hrun, fun id => hholds.getStatus hserver id,
    fun id => hholds.getSnapshot hserver hnumbers hnul id, hothers⟩

theorem native_caches_simple :
    let writes : List CacheWrite :=
      [.setStatus "tx-1" "received", .upsertSnapshot { instrumentId := "btc-usdt", bestBid := some 42000 },
        .setStatus "tx-1" "processed"]
    ∃ state', runNative simple decimalText writes (fun _ => none) = .ok state' ∧
      HiredisTransactionCache.getStatus simple "tx-1" state' = .ok "processed" := by
  intro writes
  have hnul : ∀ x, '\x00' ∉ (decimalText.toString x).toList := by
    intro x hx
    rcases Numeral.mem_text hx with h | h | h <;> exact absurd h (by decide)
  have hfits : ∀ w ∈ writes, w.Fits := by
    simp [writes, CacheWrite.Fits]
  have hnone : ∀ key, id (fun _ : String => (none : Option Value)) key = none := fun _ => rfl
  obtain ⟨state', hrun, hstatus, -⟩ := native_caches simple_documented (numerals_fixed 6) hnul
    (fun id => hnone (transactionStatusKey id)) (fun id => hnone (marketSnapshotKey id)) writes hfits
  exact ⟨state', hrun, (hstatus "tx-1").trans (by decide +kernel)⟩

end Wall
