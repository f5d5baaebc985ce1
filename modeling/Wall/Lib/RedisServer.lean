import Mathlib.Logic.Function.Basic
import Mathlib.Data.List.Basic

/-!
# A server of strings and hashes

The commands `SET`, `GET`, `HSET` and `HMGET` of a Redis server, as their documentation describes them.  A key holds a
string or a hash; `SET` overwrites either, the commands for hashes refuse a string.  The server is a parameter, what
it holds is read off its state by a function (`Documented`), and `simple` is a server that holds just that.
-/

namespace Redis

inductive Reply
  | nil
  | status (text : String)
  | integer (n : Nat)
  | string (text : String)
  | array (elements : List Reply)
  | error (message : String)

inductive Value
  | string (text : String)
  | hash (fields : String → Option String)

/-- The fields under a key, if it may hold a hash; a key that holds nothing is an empty hash. -/
def fieldsAt : Option Value → Option (String → Option String)
  | none => some fun _ => none
  | some (.hash fields) => some fields
  | some (.string _) => none

/-- The fields after some are written, the last value of a field winning. -/
def written (fields : String → Option String) (pairs : List (String × String)) (name : String) : Option String :=
  ((pairs.reverse.find? fun pair => decide (pair.1 = name)).map Prod.snd).or (fields name)

/-- Fields that are written again do not depend on what they were. -/
theorem written_written {pairs pairs' : List (String × String)} (h : pairs.map Prod.fst = pairs'.map Prod.fst)
    (fields : String → Option String) : written (written fields pairs) pairs' = written fields pairs' := by
  have hfound : ∀ (name : String) (list : List (String × String)),
      (list.reverse.find? fun pair => decide (pair.1 = name)).isSome = true ↔ name ∈ list.map Prod.fst := by
    intro name list
    simp [List.find?_isSome]
  funext name
  unfold written
  cases hnew : pairs'.reverse.find? fun pair => decide (pair.1 = name) with
  | some pair => rfl
  | none =>
    have hnot : name ∉ pairs.map Prod.fst := by
      rw [h, ← hfound, hnew]
      exact Bool.false_ne_true
    have hold : (pairs.reverse.find? fun pair => decide (pair.1 = name)) = none := by
      rw [← Option.not_isSome_iff_eq_none, hfound]
      exact hnot
    rw [hold]
    rfl

/-- The answer to a command, without a reply where the connection has failed, and the state after it. -/
structure Server (ς : Type*) where
  set (key text : String) (state : ς) : Option Reply × ς
  get (key : String) (state : ς) : Option Reply
  hset (key : String) (pairs : List (String × String)) (state : ς) : Option Reply × ς
  hmget (key : String) (names : List String) (state : ς) : Option Reply
  errstr : String

variable {ς : Type*}

/-- The server is connected and does what the commands are documented to do; `value` is what a state holds. -/
structure Server.Documented (server : Server ς) (value : ς → String → Option Value) : Prop where
  set_reply (key text : String) (state : ς) : ∃ status, (server.set key text state).1 = some (.status status)
  set_value (key text : String) (state : ς) :
    value (server.set key text state).2 = Function.update (value state) key (some (.string text))
  get_missing {key : String} {state : ς} : value state key = none → server.get key state = some .nil
  get_string {key text : String} {state : ς} :
    value state key = some (.string text) → server.get key state = some (.string text)
  hset_reply {key : String} {state : ς} {fields : String → Option String} (pairs : List (String × String)) :
    fieldsAt (value state key) = some fields → ∃ n, (server.hset key pairs state).1 = some (.integer n)
  hset_value {key : String} {state : ς} {fields : String → Option String} (pairs : List (String × String)) :
    fieldsAt (value state key) = some fields → value (server.hset key pairs state).2 =
      Function.update (value state) key (some (.hash (written fields pairs)))
  hmget {key : String} {state : ς} {fields : String → Option String} (names : List String) :
    fieldsAt (value state key) = some fields → server.hmget key names state =
      some (.array (names.map fun name => (fields name).elim .nil .string))

def wrongType : Reply := .error "WRONGTYPE Operation against a key holding the wrong kind of value"

/-- A server that is what it holds. -/
def simple : Server (String → Option Value) where
  set key text state := (some (.status "OK"), Function.update state key (some (.string text)))
  get key state :=
    match state key with
    | none => some .nil
    | some (.string text) => some (.string text)
    | some (.hash _) => some wrongType
  hset key pairs state :=
    match fieldsAt (state key) with
    | some fields =>
      (some (.integer ((pairs.map Prod.fst).dedup.filter fun name => (fields name).isNone).length),
        Function.update state key (some (.hash (written fields pairs))))
    | none => (some wrongType, state)
  hmget key names state :=
    match fieldsAt (state key) with
    | some fields => some (.array (names.map fun name => (fields name).elim .nil .string))
    | none => some wrongType
  errstr := ""

theorem simple_documented : simple.Documented id where
  set_reply _ _ _ := ⟨"OK", rfl⟩
  set_value _ _ _ := rfl
  get_missing h := by
    rw [id] at h
    simp only [simple, h]
  get_string h := by
    rw [id] at h
    simp only [simple, h]
  hset_reply pairs h := by
    rw [id] at h
    simp only [simple, h]
    exact ⟨_, rfl⟩
  hset_value pairs h := by
    rw [id] at h
    simp only [simple, h, id]
  hmget names h := by
    rw [id] at h
    simp only [simple, h]

end Redis
