import Wall.Replay
import Wall.TransactionIngestor

/-!
# Forged records

`serialize_event` writes a command as one line of fields that are separated by tabs.  The texts of a Kafka payload end
at semicolons only, and `is_valid` asks no more of them than that they are not empty.  So a text with a newline in it
makes two records of one command, and one with a tab makes a record that is skipped.  A command is replayed alone, with
what identifies it, exactly if the log can carry it (`replayedAlone_iff`).
-/

namespace Wall

/-- What a command is identified by: its texts, its partition and its offset. -/
def TransactionCommand.identity (command : TransactionCommand) : List String × Int × Int :=
  ((EngineEvent.transaction command).texts, command.kafkaPartition, command.kafkaOffset)

namespace ReplayService

/-- The log of the command alone has one record, which is replayed as a command with the same identity. -/
def ReplayedAlone (service : ReplayService) (command : TransactionCommand) : Prop :=
  ∃ command', service.replay (some (service.appendEvent "" (.transaction command))) =
    ([.transaction command'], { totalRecords := 1, replayedRecords := 1, skippedRecords := 0 }) ∧
      command'.identity = command.identity

/-- The texts of the command stay within their fields, and its numbers are read from what is printed of them. -/
structure Carries (service : ReplayService) (command : TransactionCommand) : Prop where
  texts : ∀ text ∈ (EngineEvent.transaction command).texts, Clean text
  quantity : (service.stod (service.streamed command.quantity)).isSome = true
  price : (service.decodeOptionalDouble (service.encodeOptionalDouble command.price)).isSome = true

variable {service : ReplayService} {command : TransactionCommand}

/-! ### Records of a log -/

private theorem totalRecords_foldl (lines : List String) (replayed : List EngineEvent × ReplayStats) :
    (lines.foldl service.replayLine replayed).2.totalRecords = replayed.2.totalRecords + lines.length := by
  induction lines generalizing replayed with
  | nil => rfl
  | cons line lines ih =>
    have hline : (service.replayLine replayed line).2.totalRecords = replayed.2.totalRecords + 1 := by
      unfold replayLine
      cases service.deserializeEvent line <;> rfl
    rw [List.foldl_cons, ih, hline, List.length_cons]
    omega

/-- There are as many records as newlines. -/
private theorem totalRecords_replay (line : String) :
    (service.replay (some (line ++ "\n"))).2.totalRecords = line.toList.count '\n' + 1 := by
  rw [replay, totalRecords_foldl, List.length_map, Getline.length_tokens, String.toList_append]
  simp

private theorem replay_line {line : String} (h : '\n' ∉ line.toList) :
    service.replay (some (line ++ "\n")) = service.replayLine ([], {}) line := by
  have htokens : Getline.tokens '\n' (line ++ "\n").toList = [line.toList] := by
    rw [String.toList_append]
    exact Getline.tokens_append_cons h []
  rw [replay, htokens, List.map_singleton, String.ofList_toList]
  rfl

private theorem replayLine_eq_transaction {line : String} {command' : TransactionCommand} :
    service.replayLine ([], {}) line =
        ([.transaction command'], { totalRecords := 1, replayedRecords := 1, skippedRecords := 0 }) ↔
      service.deserializeEvent line = some (.transaction command') := by
  unfold replayLine
  cases service.deserializeEvent line <;> simp

/-! ### Fields of a record -/

private theorem deserializeEvent_eq_transaction {line : String} {command' : TransactionCommand}
    (h : service.deserializeEvent line = some (.transaction command')) :
    (splitTsv line).length = 11 ∧ service.deserializeTransaction (splitTsv line) = some command' := by
  unfold deserializeEvent at h
  dsimp only at h
  split at h
  · cases h
  · split at h
    · split at h
      · cases h
      · obtain ⟨_, -, heq⟩ := Option.map_eq_some_iff.1 h
        cases heq
    · split at h
      · split at h
        · cases h
        · rename_i hlength
          obtain ⟨_, hcommand, heq⟩ := Option.map_eq_some_iff.1 h
          cases heq
          exact ⟨not_not.1 hlength, hcommand⟩
      · split at h
        · split at h
          · cases h
          · obtain ⟨_, -, heq⟩ := Option.map_eq_some_iff.1 h
            cases heq
        · cases h

/-- The fields of a record are those of the command only if there is no tab in them. -/
private theorem tab_not_mem_of_length (h : (splitTsv (service.serializeEvent (.transaction command))).length = 11) :
    ∀ field ∈ service.fieldsOf (.transaction command), '\t' ∉ field.toList := by
  have hlast : ((service.fieldsOf (.transaction command)).map String.toList).getLast? =
      some (Int.repr command.kafkaOffset).toList := rfl
  have hne : (Int.repr command.kafkaOffset).toList ≠ [] :=
    fun hnil => repr_ne_empty _ (String.toList_eq_nil_iff.1 hnil)
  have hlength := Getline.length_tokens_intercalate hlast hne (clean_repr _).1
  have hsplit : (splitTsv (service.serializeEvent (.transaction command))).length =
      (Getline.tokens '\t' (['\t'].intercalate
        ((service.fieldsOf (.transaction command)).map String.toList))).length := by
    rw [splitTsv, List.length_map, serializeEvent, String.toList_intercalate]
    rfl
  have hfields : ((service.fieldsOf (.transaction command)).map String.toList).length = 11 := rfl
  rw [← hsplit, h, hfields, right_eq_add, List.count_eq_zero] at hlength
  intro field hfield hmem
  exact hlength (List.mem_flatten.2 ⟨_, List.mem_map_of_mem hfield, hmem⟩)

/-- The fields of a command are read back as the command, up to its two numbers. -/
private theorem deserializeTransaction_fieldsOf
    (hpartition : -2 ^ 31 ≤ command.kafkaPartition ∧ command.kafkaPartition < 2 ^ 31)
    (hoffset : -2 ^ 63 ≤ command.kafkaOffset ∧ command.kafkaOffset < 2 ^ 63) (command' : TransactionCommand) :
    service.deserializeTransaction (service.fieldsOf (.transaction command)) = some command' ↔
      ∃ quantity price, service.stod (service.streamed command.quantity) = some quantity ∧
        service.decodeOptionalDouble (service.encodeOptionalDouble command.price) = some price ∧
        command' = { command with quantity := quantity, price := price } := by
  simp [deserializeTransaction, fieldsOf, stoi_repr hpartition, stoll_repr hoffset, Option.bind_eq_some_iff,
    @eq_comm _ command']

/-! ### Commands replayed alone -/

/-- A log of one record holds a command whose fields are clean. -/
private theorem clean_of_replayedAlone (h : service.ReplayedAlone command) :
    (∀ field ∈ service.fieldsOf (.transaction command), Clean field) ∧
      ∃ command', service.deserializeEvent (service.serializeEvent (.transaction command)) =
        some (.transaction command') := by
  obtain ⟨command', hreplay, -⟩ := h
  rw [appendEvent, String.empty_append] at hreplay
  -- one record, so no newline in the line
  have hnewline : '\n' ∉ (service.serializeEvent (.transaction command)).toList := by
    have htotal := @totalRecords_replay service (service.serializeEvent (.transaction command))
    rw [hreplay] at htotal
    exact List.count_eq_zero.1 (Nat.succ.inj htotal).symm
  rw [replay_line hnewline, replayLine_eq_transaction] at hreplay
  have htab := tab_not_mem_of_length (deserializeEvent_eq_transaction hreplay).1
  refine ⟨fun field hfield => ⟨htab field hfield, fun hmem => hnewline ?_⟩, command', hreplay⟩
  rw [serializeEvent, String.toList_intercalate]
  exact Getline.mem_intercalate_of_mem (List.mem_map_of_mem hfield) hmem

/-- A command is replayed alone, with its identity, exactly if the log carries it. -/
private theorem replayedAlone_iff_carries (hstreamed : ∀ x, Clean (service.streamed x))
    (htoString : ∀ x, Clean (service.toString x))
    (hpartition : -2 ^ 31 ≤ command.kafkaPartition ∧ command.kafkaPartition < 2 ^ 31)
    (hoffset : -2 ^ 63 ≤ command.kafkaOffset ∧ command.kafkaOffset < 2 ^ 63) :
    service.ReplayedAlone command ↔ service.Carries command := by
  have hread := @deserializeTransaction_fieldsOf service command hpartition hoffset
  constructor
  · intro h
    obtain ⟨hclean, command', hcommand⟩ := clean_of_replayedAlone h
    have hfields := (deserializeEvent_eq_transaction hcommand).2
    rw [splitTsv_serializeEvent hclean, hread] at hfields
    obtain ⟨quantity, price, hquantity, hprice, -⟩ := hfields
    refine ⟨?_, Option.isSome_iff_exists.2 ⟨_, hquantity⟩, Option.isSome_iff_exists.2 ⟨_, hprice⟩⟩
    intro text htext
    refine hclean text ?_
    simp only [EngineEvent.texts, List.mem_cons, List.not_mem_nil, or_false] at htext
    rcases htext with rfl | rfl | rfl | rfl | rfl | rfl <;> simp [fieldsOf]
  · intro h
    obtain ⟨quantity, hquantity⟩ := Option.isSome_iff_exists.1 h.quantity
    obtain ⟨price, hprice⟩ := Option.isSome_iff_exists.1 h.price
    have hclean := clean_transactionFields hstreamed htoString h.texts
    have hfields := (hread _).2 ⟨quantity, price, hquantity, hprice, rfl⟩
    refine ⟨{ command with quantity := quantity, price := price }, ?_, rfl⟩
    rw [appendEvent, String.empty_append, replay_line (newline_not_mem_of_clean hclean), replayLine_eq_transaction,
      deserializeEvent, splitTsv_serializeEvent hclean, hfields]
    rfl

open KafkaTransactionConsumer TransactionIngestor

/-- A message whose payload is parsed and accepted: the log of its command has exactly one record, which is replayed
with the identity of the command, if and only if none of the six texts of the command has a tab or a newline in it and
its numbers are read from what is printed of them.  The partition and the offset are in the range of their types, and
what is printed of a number has no tab and no newline. -/
theorem replayedAlone_iff {consumer : KafkaTransactionConsumer} {message : RawKafkaMessage}
    (hstreamed : ∀ x, Clean (service.streamed x)) (htoString : ∀ x, Clean (service.toString x))
    (hpartition : -2 ^ 31 ≤ message.partition ∧ message.partition < 2 ^ 31) (hoffset : message.offset < 2 ^ 63)
    (hparsed : consumer.parseRawMessage message = some command) (hvalid : isValid command = true) :
    service.ReplayedAlone command ↔ service.Carries command := by
  have haccepted : ({ consumer with transactionTopic := message.topic } : KafkaTransactionConsumer).accepted message =
      some command := by
    rw [accepted, if_neg (not_not.2 rfl)]
    exact hparsed
  obtain ⟨-, -, hpartitionEq, hoffsetEq⟩ := commit_of_accepted haccepted
  have hnonneg : 0 ≤ command.kafkaOffset := by
    by_contra hneg
    have hrefused : command.transactionId = "" ∨ command.kafkaTopic = "" ∨ command.kafkaOffset < 0 :=
      .inr (.inr (not_le.1 hneg))
    rw [isValid, if_pos hrefused] at hvalid
    cases hvalid
  exact replayedAlone_iff_carries hstreamed htoString (hpartitionEq ▸ hpartition)
    ⟨by omega, hoffsetEq ▸ hoffset⟩

def exampleConsumer : KafkaTransactionConsumer where
  transactionTopic := "transactions"
  stod := exampleService.stod

def exampleMessage (transactionId : String) : RawKafkaMessage where
  topic := "transactions"
  offset := 3
  payload := "transaction_id=" ++ transactionId ++
    ";user_id=user-1;account_id=account-1;command_type=place_order;instrument_symbol=BTCUSDT;quantity=2;price=5"

def exampleCommand (transactionId : String) : TransactionCommand where
  transactionId := transactionId
  userId := "user-1"
  accountId := "account-1"
  commandType := "place_order"
  instrumentSymbol := "BTCUSDT"
  quantity := 2
  price := some 5
  kafkaTopic := "transactions"
  kafkaOffset := 3

theorem replayedAlone_iff_exampleMessage : exampleService.ReplayedAlone (exampleCommand "tx-1") :=
  (@replayedAlone_iff exampleService (exampleCommand "tx-1") exampleConsumer (exampleMessage "tx-1")
    numerals_exampleService.1.clean_text numerals_exampleService.2.clean_text (by decide) (by decide)
    (by decide +kernel) (by decide +kernel)).2 ⟨by decide, by decide +kernel, by decide +kernel⟩

/-- A transaction id with the line of another command in it. -/
def forgedId : String :=
  "tx-1\ntransaction\tforged\tuser-2\taccount-2\tplace_order\tBTCUSDT\t9\t7\ttransactions\t0\t4\n"

/-- The only command that is replayed is the one in the transaction id. -/
theorem not_replayedAlone_forgedId :
    exampleConsumer.parseRawMessage (exampleMessage forgedId) = some (exampleCommand forgedId) ∧
      isValid (exampleCommand forgedId) = true ∧
      exampleService.replay (some (exampleService.appendEvent "" (.transaction (exampleCommand forgedId)))) =
        ([.transaction { exampleCommand "forged" with
            userId := "user-2", accountId := "account-2", quantity := 9, price := some 7, kafkaOffset := 4 }],
          { totalRecords := 3, replayedRecords := 1, skippedRecords := 2 }) ∧
      ¬exampleService.ReplayedAlone (exampleCommand forgedId) := by
  have hreplay : exampleService.replay (some (exampleService.appendEvent "" (.transaction (exampleCommand forgedId)))) =
      ([.transaction { exampleCommand "forged" with
          userId := "user-2", accountId := "account-2", quantity := 9, price := some 7, kafkaOffset := 4 }],
        { totalRecords := 3, replayedRecords := 1, skippedRecords := 2 }) := by decide +kernel
  refine ⟨by decide +kernel, by decide +kernel, hreplay, ?_⟩
  rintro ⟨command', hone, -⟩
  rw [hreplay, Prod.mk.injEq, ReplayStats.mk.injEq] at hone
  exact absurd hone.2.1 (by decide)

end ReplayService

end Wall
