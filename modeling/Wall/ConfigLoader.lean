import Wall.RiskEngine
import Wall.Lib.LongestPrefix

/-!
# Validation of the configuration

`ConfigLoader::validate` of `config/config_loader.cpp`, over the fields of the configuration that it reads, and
`parse_number`, which reads the numbers of a configuration.
-/

namespace Wall

structure RedisConfig where
  host : String := ""
  deriving DecidableEq, Inhabited, Repr

structure PostgresConfig where
  host : String := ""
  database : String := ""
  user : String := ""
  deriving DecidableEq, Inhabited, Repr

structure KafkaConfig where
  brokers : List String := []
  transactionTopic : String := ""
  consumerGroup : String := ""
  deriving DecidableEq, Inhabited, Repr

structure StrategyConfig where
  strategyId : String := ""
  triggerInstrumentId : String := ""
  triggerPrice : ℚ := 0
  orderQuantity : ℚ := 0
  side : String := ""
  deriving DecidableEq, Inhabited, Repr

structure SimulationConfig where
  partialFillThreshold : ℚ := 0
  partialFillRatio : ℚ := 0
  deriving DecidableEq, Inhabited, Repr

structure AppConfig where
  mode : String := ""
  redis : RedisConfig := {}
  postgres : PostgresConfig := {}
  kafka : KafkaConfig := {}
  risk : RiskConfig := {}
  strategy : StrategyConfig := {}
  simulation : SimulationConfig := {}
  deriving DecidableEq, Inhabited, Repr

structure ConfigValidationResult where
  valid : Bool := false
  error : Option String := none
  deriving DecidableEq, Inhabited, Repr

def ConfigLoader.validate (config : AppConfig) : ConfigValidationResult :=
  if config.mode = "" then { valid := false, error := some "mode is required" }
  else if config.redis.host = "" then { valid := false, error := some "redis.host is required" }
  else if config.postgres.host = "" ∨ config.postgres.database = "" ∨ config.postgres.user = "" then
    { valid := false, error := some "postgres connection settings are required" }
  else if config.kafka.brokers = [] ∨ config.kafka.transactionTopic = "" ∨ config.kafka.consumerGroup = "" then
    { valid := false, error := some "kafka settings are required" }
  else if config.risk.maxOrderQuantity ≤ 0 ∨ config.risk.maxOrderNotional ≤ 0 ∨
      config.risk.maxPositionQuantity ≤ 0 ∨ config.risk.staleAfterMs ≤ 0 then
    { valid := false, error := some "risk settings are required" }
  else if config.strategy.strategyId = "" ∨ config.strategy.triggerInstrumentId = "" ∨
      config.strategy.triggerPrice ≤ 0 ∨ config.strategy.orderQuantity ≤ 0 then
    { valid := false, error := some "strategy settings are required" }
  else if config.strategy.side ≠ "buy" ∧ config.strategy.side ≠ "sell" then
    { valid := false, error := some "strategy.side must be buy or sell" }
  else if config.simulation.partialFillThreshold ≤ 0 ∨ config.simulation.partialFillRatio ≤ 0 ∨
      config.simulation.partialFillRatio > 1 then
    { valid := false, error := some "simulation settings are required" }
  else { valid := true, error := none }

namespace ConfigLoader

/-- What an accepted configuration says about the simulation. -/
theorem simulation_of_valid {config : AppConfig} (h : (validate config).valid = true) :
    0 < config.simulation.partialFillThreshold ∧ 0 < config.simulation.partialFillRatio ∧
      config.simulation.partialFillRatio ≤ 1 := by
  by_contra hnot
  have hrefused : config.simulation.partialFillThreshold ≤ 0 ∨ config.simulation.partialFillRatio ≤ 0 ∨
      config.simulation.partialFillRatio > 1 := by
    by_contra hall
    simp only [not_or, not_le, gt_iff_lt, not_lt] at hall
    exact hnot hall
  unfold validate at h
  rw [if_pos hrefused] at h
  repeat' split at h
  all_goals cases h

/-! ### Numbers -/

def getString (values : StringMap String) (key : String) : String := values[key]?.getD ""

/-- The error that names the key of a number. -/
def invalidNumber (key text : String) : String := "Invalid numeric value for config key '" ++ key ++ "': " ++ text

def parseNumber {β : Type} (parser : NumeralGrammar Char β) (values : StringMap String) (key : String)
    (defaultValue : β) : Except String β :=
  let text := getString values key
  if text = "" then .ok defaultValue
  else
    match parser.read text.toList with
    | none => .error (invalidNumber key text)
    | some result =>
      if parser.consumed text.toList ≠ text.length then .error (invalidNumber key text) else .ok result

/-- A number of a configuration is the default, or a numeral as a whole. -/
theorem parseNumber_eq_ok_iff {β : Type} {parser : NumeralGrammar Char β} {values : StringMap String} {key : String}
    {defaultValue result : β} : parseNumber parser values key defaultValue = .ok result ↔
      (getString values key = "" ∧ defaultValue = result) ∨
        (getString values key ≠ "" ∧ parser.isNumeral (getString values key).toList = true ∧
          parser.value (getString values key).toList = some result) := by
  unfold parseNumber
  dsimp only
  generalize getString values key = text
  by_cases hempty : text = ""
  · simp [hempty]
  · rw [if_neg hempty]
    cases hread : parser.read text.toList with
    | none =>
      have hnot : ¬(parser.isNumeral text.toList = true ∧ parser.value text.toList = some result) := by
        rintro ⟨hnumeral, hvalue⟩
        rw [NumeralGrammar.read_of_isNumeral hnumeral, hvalue] at hread
        cases hread
      simp [hempty, hnot]
    | some number =>
      have hconsumed := NumeralGrammar.isNumeral_iff_consumed (Option.isSome_iff_exists.2 ⟨number, hread⟩)
      rw [String.length_toList] at hconsumed
      dsimp only
      by_cases hnumeral : parser.isNumeral text.toList = true
      · have hvalue := NumeralGrammar.read_of_isNumeral hnumeral
        rw [if_neg (not_not.2 (hconsumed.1 hnumeral)), ← hvalue, hread]
        simp [hempty, hnumeral]
      · rw [if_pos (fun heq => hnumeral (hconsumed.2 heq))]
        simp [hempty, hnumeral]

end ConfigLoader

end Wall
