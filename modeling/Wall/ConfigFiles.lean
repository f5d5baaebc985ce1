import Wall.ConfigLoader
import Wall.TransactionPublisher
import Wall.Lib.Getline
import Wall.Lib.KeyedMap

/-!
# Configuration files

`ConfigLoader::load_from_file` of `config/config_loader.cpp`.  A line is blank, a comment or an assignment; variables
of the environment are written over the assignments; the configuration is made of the texts of its keys.

What is loaded depends on the settings alone (`config_settings`): the setting of a key is the variable of its older
name, if it has one, else the variable `TRADING_<KEY>`, else the last assignment of the file.  Of the numbers that are
none, the first is reported (`config_numbers`).
-/

namespace Wall

open Cursor KeyedMap

/-- The configuration with the fields that `validate` does not read. -/
structure LoadedConfig extends AppConfig where
  exchangeName : String := ""
  instruments : List String := []
  redisPort : Int := 6379
  postgresPort : Int := 5432
  postgresPassword : String := ""
  autoCompletePartialFills : Bool := false
  allowFallback : Bool := false
  deriving DecidableEq, Inhabited, Repr

namespace ConfigLoader

open TransactionPublisher (isBlank)

/-! ### Texts -/

def splitCsv (value : String) : List String :=
  (Getline.tokens ',' value.toList).filterMap fun item =>
    let trimmed := trim isBlank item
    if trimmed = [] then none else some (String.ofList trimmed)

def parseBool (value : String) : Bool := decide (value ∈ ["1", "true", "TRUE", "yes", "on"])

/-- The integers of so many bits. -/
def integersOf (bits : Nat) : NumeralGrammar Char Int where
  isNumeral := Decimal.integers.isNumeral
  value text := (Decimal.integers.value text).filter fun n => decide (-2 ^ (bits - 1) ≤ n ∧ n < 2 ^ (bits - 1))

def getInt (values : StringMap String) (key : String) (defaultValue : Int) : Except String Int :=
  parseNumber (integersOf 32) values key defaultValue

def getInt64 (values : StringMap String) (key : String) (defaultValue : Int) : Except String Int :=
  parseNumber (integersOf 64) values key defaultValue

/-- `doubles` are the numerals that `std::stod` reads. -/
def getDouble (doubles : NumeralGrammar Char ℚ) (values : StringMap String) (key : String) (defaultValue : ℚ) :
    Except String ℚ :=
  parseNumber doubles values key defaultValue

/-! ### The lines of a file -/

def invalidLine (trimmed : List Char) : String := "Invalid config line: " ++ String.ofList trimmed

def readLine (values : StringMap String) (line : List Char) : Except String (StringMap String) :=
  let trimmed := trim isBlank line
  if trimmed = [] ∨ trimmed.head? = some '#' then .ok values
  else
    match find (· = '=') trimmed with
    | none => .error (invalidLine trimmed)
    | some (key, rest) =>
      .ok (values.insert (String.ofList (trim isBlank key)) (String.ofList (trim isBlank rest.tail)))

/-! ### The environment -/

def knownKeys : List String :=
  ["mode", "exchange.name", "instruments", "infrastructure.allow_fallback", "redis.host", "redis.port",
    "postgres.host", "postgres.port", "postgres.database", "postgres.user", "postgres.password", "kafka.brokers",
    "kafka.transaction_topic", "kafka.consumer_group", "risk.max_order_quantity", "risk.max_order_notional",
    "risk.max_position_quantity", "risk.stale_after_ms", "risk.kill_switch_enabled", "strategy.id",
    "strategy.trigger_instrument_id", "strategy.trigger_price", "strategy.order_quantity", "strategy.side",
    "simulation.partial_fill_threshold", "simulation.partial_fill_ratio", "simulation.auto_complete_partial_fills"]

def envNameForKey (key : String) : String :=
  "TRADING_" ++ String.ofList (key.toList.map fun c => if c = '.' then '_' else c.toUpper)

def applyEnvironment (getEnvValue : String → Option String) (values : StringMap String) : StringMap String :=
  let values := knownKeys.foldl (fun values key => insertSome values key (getEnvValue (envNameForKey key))) values
  let values := insertSome values "kafka.transaction_topic" (getEnvValue "TRADING_KAFKA_TOPIC")
  insertSome values "risk.kill_switch_enabled" (getEnvValue "TRADING_KILL_SWITCH_ENABLED")

/-! ### Loading -/

variable (doubles : NumeralGrammar Char ℚ)

def configOf (values : StringMap String) : Except String LoadedConfig := do
  let redisPort ← getInt values "redis.port" 6379
  let postgresPort ← getInt values "postgres.port" 5432
  let maxOrderQuantity ← getDouble doubles values "risk.max_order_quantity" 0
  let maxOrderNotional ← getDouble doubles values "risk.max_order_notional" 0
  let maxPositionQuantity ← getDouble doubles values "risk.max_position_quantity" 0
  let staleAfterMs ← getInt64 values "risk.stale_after_ms" 0
  let triggerPrice ← getDouble doubles values "strategy.trigger_price" 0
  let orderQuantity ← getDouble doubles values "strategy.order_quantity" 0
  let partialFillThreshold ← getDouble doubles values "simulation.partial_fill_threshold" 0
  let partialFillRatio ← getDouble doubles values "simulation.partial_fill_ratio" 0
  return {
    mode := getString values "mode"
    exchangeName := getString values "exchange.name"
    instruments := splitCsv (getString values "instruments")
    redis := { host := getString values "redis.host" }
    redisPort := redisPort
    postgres := {
      host := getString values "postgres.host"
      database := getString values "postgres.database"
      user := getString values "postgres.user" }
    postgresPort := postgresPort
    postgresPassword := getString values "postgres.password"
    kafka := {
      brokers := splitCsv (getString values "kafka.brokers")
      transactionTopic := getString values "kafka.transaction_topic"
      consumerGroup := getString values "kafka.consumer_group" }
    risk := {
      maxOrderQuantity := maxOrderQuantity
      maxOrderNotional := maxOrderNotional
      maxPositionQuantity := maxPositionQuantity
      staleAfterMs := staleAfterMs
      killSwitchEnabled := parseBool (getString values "risk.kill_switch_enabled") }
    strategy := {
      strategyId := getString values "strategy.id"
      triggerInstrumentId := getString values "strategy.trigger_instrument_id"
      triggerPrice := triggerPrice
      orderQuantity := orderQuantity
      side := getString values "strategy.side" }
    simulation := {
      partialFillThreshold := partialFillThreshold
      partialFillRatio := partialFillRatio }
    autoCompletePartialFills := parseBool (getString values "simulation.auto_complete_partial_fills")
    allowFallback := parseBool (getString values "infrastructure.allow_fallback") }

/-- Load the file with this content. -/
def loadFromFile (getEnvValue : String → Option String) (input : String) : Except String LoadedConfig := do
  let values ← (Getline.tokens '\n' input.toList).foldlM readLine ∅
  configOf doubles (applyEnvironment getEnvValue values)

/-! ### Settings -/

/-- A line that is neither blank nor a comment nor an assignment. -/
def isBadLine (line : List Char) : Bool :=
  let trimmed := trim isBlank line
  !(decide (trimmed = []) || decide (trimmed.head? = some '#')) && (find (· = '=') trimmed).isNone

/-- The key and the value of a line. -/
def assignment (line : List Char) : Option (String × String) :=
  let trimmed := trim isBlank line
  if trimmed = [] ∨ trimmed.head? = some '#' then none
  else
    (find (· = '=') trimmed).map fun (key, rest) =>
      (String.ofList (trim isBlank key), String.ofList (trim isBlank rest.tail))

/-- The variable that a key had before every key had one. -/
def legacyName (key : String) : Option String :=
  if key = "risk.kill_switch_enabled" then some "TRADING_KILL_SWITCH_ENABLED"
  else if key = "kafka.transaction_topic" then some "TRADING_KAFKA_TOPIC"
  else none

/-- The text that the environment and the file set for a key. -/
def setting (getEnvValue : String → Option String) (input key : String) : Option String :=
  ((legacyName key).bind getEnvValue).or
    ((if key ∈ knownKeys then getEnvValue (envNameForKey key) else none).or
      ((((Getline.tokens '\n' input.toList).filterMap assignment).reverse.find? fun a =>
        decide (a.1 = key)).map Prod.snd))

private theorem readLine_eq (values : StringMap String) (line : List Char) :
    readLine values line =
      if isBadLine line then .error (invalidLine (trim isBlank line))
      else .ok ((assignment line).elim values fun a => values.insert a.1 a.2) := by
  unfold readLine isBadLine assignment
  dsimp only
  by_cases hskip : trim isBlank line = [] ∨ (trim isBlank line).head? = some '#'
  · rw [if_pos hskip, if_pos hskip]
    rcases hskip with h | h <;> simp [h]
  · rw [if_neg hskip, if_neg hskip]
    rw [not_or] at hskip
    rcases Option.eq_none_or_eq_some (find (· = '=') (trim isBlank line)) with hfound | ⟨found, hfound⟩
    · simp [hfound, hskip.1, hskip.2]
    · simp [hfound]

/-- The first bad line ends the reading. -/
private theorem readLines_eq (lines : List (List Char)) (values : StringMap String) :
    lines.foldlM readLine values =
      match lines.find? isBadLine with
      | some line => .error (invalidLine (trim isBlank line))
      | none => .ok ((lines.filterMap assignment).foldl (fun values a => values.insert a.1 a.2) values) := by
  induction lines generalizing values with
  | nil => rfl
  | cons line lines ih =>
    rw [List.foldlM_cons, readLine_eq]
    by_cases hbad : isBadLine line = true
    · rw [if_pos hbad, List.find?_cons_of_pos hbad]
      rfl
    · rw [if_neg hbad, List.find?_cons_of_neg hbad]
      show lines.foldlM readLine _ = _
      rw [ih]
      cases hassignment : assignment line with
      | none => rw [List.filterMap_cons_none hassignment]; rfl
      | some a => rw [List.filterMap_cons_some hassignment]; rfl

private theorem getElem?_applyEnvironment (getEnvValue : String → Option String) (values : StringMap String)
    (key : String) : (applyEnvironment getEnvValue values)[key]? =
      ((legacyName key).bind getEnvValue).or
        ((if key ∈ knownKeys then getEnvValue (envNameForKey key) else none).or values[key]?) := by
  rw [applyEnvironment, getElem?_insertSome, getElem?_insertSome,
    getElem?_foldl_insertSome fun key => getEnvValue (envNameForKey key)]
  unfold legacyName
  by_cases hswitch : key = "risk.kill_switch_enabled"
  · subst hswitch
    simp
  · by_cases htopic : key = "kafka.transaction_topic"
    · subst htopic
      simp
    · simp [hswitch, htopic, Ne.symm hswitch, Ne.symm htopic]

private theorem loadFromFile_eq (getEnvValue : String → Option String) (input : String) :
    loadFromFile doubles getEnvValue input =
      match (Getline.tokens '\n' input.toList).find? isBadLine with
      | some line => .error (invalidLine (trim isBlank line))
      | none => configOf doubles (applyEnvironment getEnvValue
          (((Getline.tokens '\n' input.toList).filterMap assignment).foldl
            (fun values a => values.insert a.1 a.2) ∅)) := by
  rw [loadFromFile, readLines_eq]
  cases (Getline.tokens '\n' input.toList).find? isBadLine <;> rfl

/-- The texts that a configuration is made of are the settings. -/
private theorem getElem?_values (getEnvValue : String → Option String) (input key : String) :
    (applyEnvironment getEnvValue (((Getline.tokens '\n' input.toList).filterMap assignment).foldl
      (fun values a => values.insert a.1 a.2) ∅))[key]? = setting getEnvValue input key := by
  rw [getElem?_applyEnvironment, getElem?_foldl_insert]
  have hempty : (∅ : StringMap String)[key]? = none := by simp
  rw [hempty, Option.or_none]
  rfl

/-- Every text that a configuration is made of belongs to a known key. -/
private theorem configOf_congr {values values' : StringMap String}
    (h : ∀ key ∈ knownKeys, values[key]? = values'[key]?) : configOf doubles values = configOf doubles values' := by
  have hget : ∀ key ∈ knownKeys, getString values key = getString values' key := by
    intro key hkey
    rw [getString, getString, h key hkey]
  have hnumber : ∀ {β : Type} (parser : NumeralGrammar Char β) (defaultValue : β), ∀ key ∈ knownKeys,
      parseNumber parser values key defaultValue = parseNumber parser values' key defaultValue := by
    intro β parser defaultValue key hkey
    rw [parseNumber, parseNumber, hget key hkey]
  simp (disch := decide) only [configOf, getInt, getInt64, getDouble, hget, hnumber]

/-- A file with a bad line is not loaded.  Of a file without one, the configuration is made of the settings: the
variable of a key's older name, else its own variable, else its last assignment; and of those of the known keys only. -/
theorem config_settings (getEnvValue : String → Option String) (input : String) :
    (∀ line, (Getline.tokens '\n' input.toList).find? isBadLine = some line →
      loadFromFile doubles getEnvValue input = .error (invalidLine (trim isBlank line))) ∧
    ((∀ line ∈ Getline.tokens '\n' input.toList, isBadLine line = false) →
      (∃ values, loadFromFile doubles getEnvValue input = configOf doubles values ∧
        ∀ key, values[key]? = setting getEnvValue input key) ∧
      ∀ getEnvValue' input', (∀ line ∈ Getline.tokens '\n' input'.toList, isBadLine line = false) →
        (∀ key ∈ knownKeys, setting getEnvValue input key = setting getEnvValue' input' key) →
        loadFromFile doubles getEnvValue input = loadFromFile doubles getEnvValue' input') := by
  have hload : ∀ getEnvValue input, (∀ line ∈ Getline.tokens '\n' input.toList, isBadLine line = false) →
      ∃ values, loadFromFile doubles getEnvValue input = configOf doubles values ∧
        ∀ key, values[key]? = setting getEnvValue input key := by
    intro getEnvValue input hgood
    have hnone : (Getline.tokens '\n' input.toList).find? isBadLine = none :=
      List.find?_eq_none.2 fun line hline => by simp [hgood line hline]
    refine ⟨_, ?_, getElem?_values getEnvValue input⟩
    rw [loadFromFile_eq, hnone]
  refine ⟨fun line hline => by rw [loadFromFile_eq, hline], fun hgood => ⟨hload _ _ hgood, ?_⟩⟩
  intro getEnvValue' input' hgood' hsettings
  obtain ⟨values, heq, hvalues⟩ := hload getEnvValue input hgood
  obtain ⟨values', heq', hvalues'⟩ := hload getEnvValue' input' hgood'
  rw [heq, heq']
  refine configOf_congr doubles fun key hkey => ?_
  rw [hvalues, hvalues', hsettings key hkey]

/-! ### Numbers that are none -/

/-- The error that a computation throws. -/
def thrown {ε α : Type*} : Except ε α → Option ε
  | .error e => some e
  | .ok _ => none

/-- The text of a number is empty, or a numeral that is in range. -/
def acceptsNumber {β : Type} (parser : NumeralGrammar Char β) (text : String) : Bool :=
  decide (text = "") || parser.isNumeral text.toList && (parser.value text.toList).isSome

/-- The keys of the numbers, in the order that they are read in. -/
def numericKeys : List (String × (String → Bool)) :=
  [("redis.port", acceptsNumber (integersOf 32)), ("postgres.port", acceptsNumber (integersOf 32)),
    ("risk.max_order_quantity", acceptsNumber doubles), ("risk.max_order_notional", acceptsNumber doubles),
    ("risk.max_position_quantity", acceptsNumber doubles), ("risk.stale_after_ms", acceptsNumber (integersOf 64)),
    ("strategy.trigger_price", acceptsNumber doubles), ("strategy.order_quantity", acceptsNumber doubles),
    ("simulation.partial_fill_threshold", acceptsNumber doubles),
    ("simulation.partial_fill_ratio", acceptsNumber doubles)]

/-- The error about the first of these keys whose text is not accepted. -/
def firstInvalid (textOf : String → String) (keys : List (String × (String → Bool))) : Option String :=
  (keys.find? fun key => !key.2 (textOf key.1)).map fun key => invalidNumber key.1 (textOf key.1)

/-- A number is read, or the error names its key. -/
private theorem parseNumber_ok_or_error {β : Type} (parser : NumeralGrammar Char β) (values : StringMap String)
    (key : String) (defaultValue : β) : (∃ number, parseNumber parser values key defaultValue = .ok number) ∨
      parseNumber parser values key defaultValue = .error (invalidNumber key (getString values key)) := by
  unfold parseNumber
  dsimp only
  split
  · exact .inl ⟨_, rfl⟩
  · split
    · exact .inr rfl
    · split
      · exact .inr rfl
      · exact .inl ⟨_, rfl⟩

private theorem acceptsNumber_iff {β : Type} {parser : NumeralGrammar Char β} {values : StringMap String} {key : String}
    {defaultValue : β} : acceptsNumber parser (getString values key) = true ↔
      ∃ number, parseNumber parser values key defaultValue = .ok number := by
  simp only [parseNumber_eq_ok_iff, acceptsNumber, Bool.or_eq_true, Bool.and_eq_true, decide_eq_true_eq,
    Option.isSome_iff_exists]
  constructor
  · rintro (hempty | ⟨hnumeral, number, hnumber⟩)
    · exact ⟨defaultValue, .inl ⟨hempty, rfl⟩⟩
    · by_cases hempty : getString values key = ""
      · exact ⟨defaultValue, .inl ⟨hempty, rfl⟩⟩
      · exact ⟨number, .inr ⟨hempty, hnumeral, hnumber⟩⟩
  · rintro ⟨number, ⟨hempty, -⟩ | ⟨-, hnumeral, hnumber⟩⟩
    · exact .inl hempty
    · exact .inr ⟨hnumeral, number, hnumber⟩

private theorem thrown_parseNumber {β : Type} (parser : NumeralGrammar Char β) (values : StringMap String)
    (key : String) (defaultValue : β) :
    thrown (parseNumber parser values key defaultValue) =
      if acceptsNumber parser (getString values key) then none
      else some (invalidNumber key (getString values key)) := by
  rcases parseNumber_ok_or_error parser values key defaultValue with ⟨number, hok⟩ | herror
  · rw [if_pos (acceptsNumber_iff.2 ⟨number, hok⟩), hok]
    rfl
  · rw [if_neg, herror]
    · rfl
    · intro haccepts
      obtain ⟨number, hok⟩ := acceptsNumber_iff.1 haccepts
      rw [herror] at hok
      cases hok

/-- A number is read before the rest. -/
private theorem thrown_parseNumber_bind {β γ : Type} (parser : NumeralGrammar Char β) {values : StringMap String}
    (key : String) (defaultValue : β) {keys : List (String × (String → Bool))} {f : β → Except String γ}
    (h : ∀ number, thrown (f number) = firstInvalid (getString values) keys) :
    thrown (parseNumber parser values key defaultValue >>= f) =
      firstInvalid (getString values) ((key, acceptsNumber parser) :: keys) := by
  have hthrown := thrown_parseNumber parser values key defaultValue
  unfold firstInvalid at h ⊢
  by_cases haccepts : acceptsNumber parser (getString values key) = true
  · rw [if_pos haccepts] at hthrown
    rw [List.find?_cons_of_neg (by simp [haccepts])]
    cases hnumber : parseNumber parser values key defaultValue with
    | error e =>
      rw [hnumber] at hthrown
      cases hthrown
    | ok number => exact h number
  · rw [if_neg haccepts] at hthrown
    rw [List.find?_cons_of_pos (by simp [haccepts])]
    cases hnumber : parseNumber parser values key defaultValue with
    | error e =>
      rw [hnumber] at hthrown
      exact hthrown
    | ok number =>
      rw [hnumber] at hthrown
      cases hthrown

private theorem thrown_configOf (values : StringMap String) :
    thrown (configOf doubles values) = firstInvalid (getString values) (numericKeys doubles) := by
  unfold configOf
  refine thrown_parseNumber_bind _ _ _ fun redisPort => ?_
  refine thrown_parseNumber_bind _ _ _ fun postgresPort => ?_
  refine thrown_parseNumber_bind _ _ _ fun maxOrderQuantity => ?_
  refine thrown_parseNumber_bind _ _ _ fun maxOrderNotional => ?_
  refine thrown_parseNumber_bind _ _ _ fun maxPositionQuantity => ?_
  refine thrown_parseNumber_bind _ _ _ fun staleAfterMs => ?_
  refine thrown_parseNumber_bind _ _ _ fun triggerPrice => ?_
  refine thrown_parseNumber_bind _ _ _ fun orderQuantity => ?_
  refine thrown_parseNumber_bind _ _ _ fun partialFillThreshold => ?_
  exact thrown_parseNumber_bind _ _ _ fun partialFillRatio => rfl

/-- Loading fails with the first bad line, and without one with the first number whose text is not empty and no
numeral in range; otherwise it does not fail. -/
theorem config_numbers (getEnvValue : String → Option String) (input : String) :
    thrown (loadFromFile doubles getEnvValue input) =
      (((Getline.tokens '\n' input.toList).find? isBadLine).map fun line => invalidLine (trim isBlank line)).or
        (firstInvalid (fun key => (setting getEnvValue input key).getD "") (numericKeys doubles)) := by
  rw [loadFromFile_eq]
  cases (Getline.tokens '\n' input.toList).find? isBadLine with
  | some line => rfl
  | none =>
    have htext : getString (applyEnvironment getEnvValue (((Getline.tokens '\n' input.toList).filterMap
        assignment).foldl (fun values a => values.insert a.1 a.2) ∅)) =
          fun key => (setting getEnvValue input key).getD "" :=
      funext fun key => congrArg (Option.getD · "") (getElem?_values getEnvValue input key)
    dsimp only
    rw [thrown_configOf, htext]
    rfl

end ConfigLoader

end Wall
