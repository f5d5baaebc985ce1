import Wall.StoppedRuns
import Wall.RecoveredCheckpoints

/-!
# Recovery of a run that stopped

A run of `process_next` that stops dead has handled some messages completely and has had a part of the effects of the
next one (`exists_parts`).  After the recovery every partition resumes at a message below which all are settled, and
only the message in flight may be published a second time (`recovery_resumes`).
-/

namespace Wall

namespace TransactionIngestor

open Std (ExtTreeMap)

/-- In each partition the offsets increase. -/
def IncreasingOffsets (messages : List RawKafkaMessage) : Prop :=
  messages.Pairwise fun a b => a.topic = b.topic → a.partition = b.partition → a.offset < b.offset

/-- The message needs no further handling: it does not parse, or the repository has it as rejected or processed. -/
def Settled (consumer : KafkaTransactionConsumer) (repository : PostgresTransactionRepository)
    (message : RawKafkaMessage) : Prop :=
  consumer.parseRawMessage message = none ∨
    ∃ command record, consumer.parseRawMessage message = some command ∧
      repository.records[command.transactionId]? = some record ∧
      (record.status = "rejected" ∨ record.status = "processed")

/-- Some seek makes the client resume above the message. -/
def ResumedAbove (seeks : List RecoveryService.Seek) (message : RawKafkaMessage) : Prop :=
  ∃ seek ∈ seeks, seek.topic = message.topic ∧ seek.partition = message.partition ∧
    message.offset < seek.nextOffset

variable {consumer : KafkaTransactionConsumer} {messages : List RawKafkaMessage} {message : RawKafkaMessage}
  {command : TransactionCommand}

/-! ### Runs of completing calls -/

@[simp] theorem effects_completes (effects : List IngestEffect) : CallOutcome.completes.effects effects = effects :=
  List.takeWhile_eq_self_iff.2 fun _ _ => rfl

/-- Calls that complete handle the first messages of the stream. -/
private theorem runCalls_completes (n : Nat) (messages : List RawKafkaMessage) :
    runCalls consumer (List.replicate n .completes) messages <+: messages.flatMap (messageEffects consumer) := by
  induction messages generalizing n with
  | nil =>
    induction n with
    | zero => exact List.nil_prefix
    | succ n ih => exact ih
  | cons message messages ih =>
    cases n with
    | zero => exact List.nil_prefix
    | succ n =>
      rw [List.replicate_succ, runCalls, effects_completes, List.flatMap_cons]
      cases h : consumer.accepted message with
      | none =>
        have hrest := ih (n + 1)
        rw [List.replicate_succ, runCalls, effects_completes] at hrest
        rw [processNext_skipped h, List.append_assoc]
        exact (List.prefix_append_right_inj _).2 hrest
      | some command =>
        rw [processNext_accepted h]
        exact (List.prefix_append_right_inj _).2 (ih n)

/-- Messages handled completely, and the one in flight. -/
def stoppedParts (consumer : KafkaTransactionConsumer) (complete : List RawKafkaMessage)
    (inFlight : Option (RawKafkaMessage × List IngestEffect)) : List (RawKafkaMessage × List IngestEffect) :=
  complete.map (fun message => (message, messageEffects consumer message)) ++ inFlight.toList

theorem exists_parts {done : List IngestEffect} (h : done <+: messages.flatMap (messageEffects consumer)) :
    ∃ complete inFlight, Begun consumer (stoppedParts consumer complete inFlight) ∧
      (stoppedParts consumer complete inFlight).map Prod.fst <+: messages ∧
      done = (stoppedParts consumer complete inFlight).flatMap Prod.snd := by
  rcases prefix_flatMap h with rfl | ⟨pre, message, post, part, rfl, hpart, rfl⟩
  · exact ⟨[], none, by simp [Begun, stoppedParts], List.nil_prefix, rfl⟩
  · refine ⟨pre, some (message, part), ?_, ?_, ?_⟩
    · intro p hp
      simp only [stoppedParts, Option.toList_some, List.mem_append, List.mem_map, List.mem_singleton] at hp
      rcases hp with ⟨m, -, rfl⟩ | rfl
      · exact List.prefix_rfl
      · exact hpart
    · simp [stoppedParts, Function.comp_def]
    · simp [stoppedParts, List.flatMap_map]

/-! ### What a recovery resumes from -/

private theorem mem_savedProcessed (h : consumer.accepted message = some command) :
    .savedProcessed command.transactionId (finalStatus command) ∈ messageEffects consumer message :=
  (mem_saves rfl).2 (by simp [saves_messageEffects h])

private theorem parseRawMessage_of_accepted (h : consumer.accepted message = some command) :
    consumer.parseRawMessage message = some command := by
  unfold KafkaTransactionConsumer.accepted at h
  split at h
  · cases h
  · exact h

section Recovered

variable {parts : List (RawKafkaMessage × List IngestEffect)} (hbegun : Begun consumer parts)
  (hids : DistinctIds consumer (parts.map Prod.fst)) {service : RecoveryService}
  (hservice : service.transactionRepository = (({} : World).performAll (parts.flatMap Prod.snd)).repository)
  (iteration : service.Iteration) (exchangeSnapshots : List MarketSnapshot)

include hservice

private theorem mem_iteration_records {record : TransactionRecord} :
    record ∈ iteration.records ↔ ∃ id : String, (recordsAfter (parts.flatMap Prod.snd))[id]? = some record := by
  rw [iteration.records_perm.mem_iff, PostgresTransactionRepository.allRecords, List.mem_map, hservice]
  constructor
  · rintro ⟨⟨id, _⟩, hmem, rfl⟩
    exact ⟨id, ExtTreeMap.mem_toList_iff_getElem?_eq_some.1 hmem⟩
  · rintro ⟨id, hid⟩
    exact ⟨(id, record), ExtTreeMap.mem_toList_iff_getElem?_eq_some.2 hid, rfl⟩

/-- There are no explicit checkpoints, so the recovery derives them from the records. -/
private theorem recover_checkpoints : (service.recover iteration exchangeSnapshots).1.kafkaCheckpoints =
    RecoveryService.recoverCheckpoints [] iteration.records := by
  have hexplicit := iteration.checkpoints_perm
  rw [hservice, PostgresTransactionRepository.allCheckpoints, checkpoints_performAll] at hexplicit
  have hnil : iteration.checkpoints = [] := hexplicit.eq_nil
  rw [RecoveryService.recover, hnil]

include hbegun hids

/-- A processed record is one of a part whose message came to the end of its handling. -/
private theorem part_of_processed {record : TransactionRecord} (hrecord : record ∈ iteration.records)
    (hstatus : record.status = "processed") :
    ∃ message command effects, (message, effects) ∈ parts ∧ consumer.accepted message = some command ∧
      .savedProcessed command.transactionId (finalStatus command) ∈ effects ∧
      record.kafkaTopic = message.topic ∧ record.kafkaPartition = message.partition ∧
      record.kafkaOffset = message.offset := by
  obtain ⟨id, hid⟩ := (mem_iteration_records hservice iteration).1 hrecord
  obtain ⟨message, command, effects, hpart, h, -, hafter⟩ := part_of_record hbegun hids hid
  obtain ⟨-, htopic, hpartition, hoffset⟩ := KafkaTransactionConsumer.commit_of_accepted h
  rcases recordAfter_cases hafter with ⟨hprocessed, rfl⟩ | ⟨-, -, rfl⟩
  · exact ⟨message, command, effects, hpart, h, hprocessed, htopic, hpartition, hoffset⟩
  · exact absurd (show "received" = "processed" from hstatus) (by decide)

/-- Every checkpoint is at such a message ... -/
theorem part_of_checkpoint {checkpoint : KafkaCheckpoint}
    (h : checkpoint ∈ (service.recover iteration exchangeSnapshots).1.kafkaCheckpoints) :
    ∃ message command effects, (message, effects) ∈ parts ∧ consumer.accepted message = some command ∧
      .savedProcessed command.transactionId (finalStatus command) ∈ effects ∧
      checkpoint.topic = message.topic ∧ checkpoint.partition = message.partition ∧
      checkpoint.offset = message.offset := by
  rw [recover_checkpoints hservice] at h
  obtain ⟨record, hrecord, hstatus, rfl⟩ := RecoveryService.exists_record_of_checkpoint h
  exact part_of_processed hbegun hids hservice iteration hrecord hstatus

/-- ... and no such message, if it is valid, lies above the checkpoint of its partition. -/
private theorem checkpoint_of_part {effects : List IngestEffect} (hpart : (message, effects) ∈ parts)
    (h : consumer.accepted message = some command) (hvalid : isValid command = true)
    (hprocessed : .savedProcessed command.transactionId (finalStatus command) ∈ effects) :
    ∃ checkpoint ∈ (service.recover iteration exchangeSnapshots).1.kafkaCheckpoints,
      checkpoint.topic = message.topic ∧ checkpoint.partition = message.partition ∧
      message.offset ≤ checkpoint.offset := by
  obtain ⟨htransaction, htopic, hpartition, hoffset⟩ := KafkaTransactionConsumer.commit_of_accepted h
  have hrecord : recordWith command (finalStatus command) ∈ iteration.records := by
    refine (mem_iteration_records hservice iteration).2 ⟨command.transactionId, ?_⟩
    rw [record_of_part hbegun hids hpart h, recordAfter, if_pos hprocessed]
  have htopics : ∀ record ∈ iteration.records, record.status = "processed" →
      record.kafkaTopic = consumer.transactionTopic := by
    intro record hrecord hstatus
    obtain ⟨m, c, -, -, hm, -, hrecordTopic, -⟩ := part_of_processed hbegun hids hservice iteration hrecord hstatus
    rw [hrecordTopic, (KafkaTransactionConsumer.commit_of_accepted hm).1]
  have hstatus : (recordWith command (finalStatus command)).status = "processed" := if_pos hvalid
  rw [recover_checkpoints hservice]
  obtain ⟨checkpoint, hmem, hsame, hsame', hle⟩ :=
    RecoveryService.exists_checkpoint_of_record htopics hrecord hstatus
  exact ⟨checkpoint, hmem, hsame.trans htransaction.symm, hsame'.trans hpartition, hoffset ▸ hle⟩

/-- A message that came to the end of its handling is settled. -/
private theorem settled_of_part {effects : List IngestEffect} (hpart : (message, effects) ∈ parts)
    (h : consumer.accepted message = some command)
    (hprocessed : .savedProcessed command.transactionId (finalStatus command) ∈ effects) :
    Settled consumer service.transactionRepository message := by
  have hrecord := record_of_part hbegun hids hpart h
  rw [recordAfter, if_pos hprocessed] at hrecord
  refine .inr ⟨command, recordWith command (finalStatus command), parseRawMessage_of_accepted h, ?_, ?_⟩
  · rw [hservice]
    exact hrecord
  · rcases finalStatus_cases command with ⟨-, hstatus⟩ | ⟨-, hstatus⟩
    · exact .inr hstatus
    · exact .inl hstatus

end Recovered

/-! ### Deliveries -/

/-- The message that an effect delivers. -/
def deliveredMessage : IngestEffect → Option RawKafkaMessage
  | .delivered message => some message
  | _ => none

private theorem deliveries_performAll (world : World) (effects : List IngestEffect) :
    (world.performAll effects).deliveries = world.deliveries ++ effects.filterMap deliveredMessage := by
  induction effects generalizing world with
  | nil => simp
  | cons effect effects ih =>
    rw [World.performAll_cons, ih]
    cases effect <;> simp [World.perform, deliveredMessage, List.filterMap_cons]

/-- A message is delivered first, and once. -/
private theorem messageEffects_eq_cons (message : RawKafkaMessage) :
    ∃ rest, messageEffects consumer message = .delivered message :: rest ∧ rest.filterMap deliveredMessage = [] := by
  unfold messageEffects
  split
  · exact ⟨_, rfl, rfl⟩
  · rename_i command _
    refine ⟨handle command, rfl, ?_⟩
    rw [handle]
    split <;> rfl

private theorem deliveries_part {effects : List IngestEffect} (hbegun : effects <+: messageEffects consumer message)
    (hne : effects ≠ []) : effects.filterMap deliveredMessage = [message] := by
  obtain ⟨rest, heq, hrest⟩ := @messageEffects_eq_cons consumer message
  rw [heq] at hbegun
  rcases List.prefix_cons_iff.1 hbegun with hnil | ⟨t, rfl, ht⟩
  · exact absurd hnil hne
  · have hnone := ht.filterMap deliveredMessage
    rw [hrest] at hnone
    rw [List.filterMap_cons, deliveredMessage, List.prefix_nil.1 hnone]

private theorem published_mem (h : .published command ∈ messageEffects consumer message) :
    consumer.accepted message = some command ∧ isValid command = true := by
  have hmem : command ∈ (messageEffects consumer message).filterMap publishedCommand :=
    List.mem_filterMap.2 ⟨_, h, rfl⟩
  rw [publications_messageEffects, Option.mem_toList] at hmem
  exact Option.filter_eq_some_iff.1 hmem

/-! ### Resuming -/

private theorem mem_stoppedParts {complete : List RawKafkaMessage}
    {inFlight : Option (RawKafkaMessage × List IngestEffect)} {effects : List IngestEffect} :
    (message, effects) ∈ stoppedParts consumer complete inFlight ↔
      (message ∈ complete ∧ effects = messageEffects consumer message) ∨ inFlight = some (message, effects) := by
  simp only [stoppedParts, List.mem_append, List.mem_map, Prod.mk.injEq, Option.mem_toList]
  constructor
  · rintro (⟨_, hm, rfl, rfl⟩ | hm)
    · exact .inl ⟨hm, rfl⟩
    · exact .inr hm
  · rintro (⟨hm, rfl⟩ | hm)
    · exact .inl ⟨_, hm, rfl, rfl⟩
    · exact .inr hm

private theorem map_fst_stoppedParts (complete : List RawKafkaMessage)
    (inFlight : Option (RawKafkaMessage × List IngestEffect)) :
    (stoppedParts consumer complete inFlight).map Prod.fst = complete ++ inFlight.toList.map Prod.fst := by
  simp [stoppedParts, Function.comp_def]

/-- A message that is not complete does not lie below one that came to the end of its handling. -/
private theorem complete_of_offset_lt {complete rest : List RawKafkaMessage}
    {inFlight : Option (RawKafkaMessage × List IngestEffect)}
    (hoffsets : IncreasingOffsets ((stoppedParts consumer complete inFlight).map Prod.fst ++ rest))
    {m : RawKafkaMessage} {effects : List IngestEffect}
    (hpart : (m, effects) ∈ stoppedParts consumer complete inFlight)
    (hmessage : message ∈ (stoppedParts consumer complete inFlight).map Prod.fst ++ rest)
    (htopic : m.topic = message.topic) (hpartition : m.partition = message.partition)
    (hle : message.offset ≤ m.offset) : message ∈ complete ∨ message = m := by
  have hm : m ∈ (stoppedParts consumer complete inFlight).map Prod.fst := List.mem_map_of_mem hpart
  have hlater := (List.pairwise_append.1 hoffsets).2.2
  rcases List.mem_append.1 hmessage with hmessage | hmessage
  · rw [IncreasingOffsets, map_fst_stoppedParts, List.append_assoc] at hoffsets
    rw [map_fst_stoppedParts] at hmessage
    rcases List.mem_append.1 hmessage with hmessage | hmessage
    · exact .inl hmessage
    · rcases mem_stoppedParts.1 hpart with ⟨hcomplete, -⟩ | rfl
      · have hlt := (List.pairwise_append.1 hoffsets).2.2 m hcomplete message (List.mem_append_left _ hmessage)
          htopic hpartition
        omega
      · exact .inr (by simpa using hmessage)
  · have hlt := hlater m hm message hmessage htopic hpartition
    omega

/-- A run of `process_next` calls stops dead between any two steps, and `recover` and `resume_kafka` follow.  Below
every seek of a partition all messages are settled, so none is skipped, and a published message that no seek resumes
above is the one that was delivered last: at most the message in flight is published again. -/
theorem recovery_resumes (hids : DistinctIds consumer messages) (hoffsets : IncreasingOffsets messages) (n : Nat)
    {done : List IngestEffect} (hdone : done <+: runCalls consumer (List.replicate n .completes) messages)
    {service : RecoveryService}
    (hservice : service.transactionRepository = (({} : World).performAll done).repository)
    (iteration : service.Iteration) (exchangeSnapshots : List MarketSnapshot) :
    (∀ seek ∈ RecoveryService.resumeKafka (service.recover iteration exchangeSnapshots).1,
      ∀ message ∈ messages, message.topic = seek.topic → message.partition = seek.partition →
        message.offset < seek.nextOffset → Settled consumer service.transactionRepository message) ∧
    (∀ message ∈ messages, ∀ command, consumer.accepted message = some command → .published command ∈ done →
      ¬ResumedAbove (RecoveryService.resumeKafka (service.recover iteration exchangeSnapshots).1) message →
        (({} : World).performAll done).deliveries.getLast? = some message) := by
  obtain ⟨complete, inFlight, hbegun, ⟨rest, rfl⟩, rfl⟩ := exists_parts (hdone.trans (runCalls_completes n messages))
  have hids' : DistinctIds consumer ((stoppedParts consumer complete inFlight).map Prod.fst) := by
    rw [DistinctIds, List.filterMap_append, List.map_append] at hids
    exact hids.of_append_left
  constructor
  · intro seek hseek message hmessage htopic hpartition hlt
    obtain ⟨checkpoint, hcheckpoint, rfl⟩ := List.mem_map.1 hseek
    obtain ⟨m, c, effects, hpart, hm, hprocessed, hctopic, hcpartition, hcoffset⟩ :=
      part_of_checkpoint hbegun hids' hservice iteration exchangeSnapshots hcheckpoint
    dsimp only at htopic hpartition hlt
    -- a message below a checkpoint was handled completely, or it is the one that the checkpoint is of
    rcases complete_of_offset_lt hoffsets hpart hmessage (hctopic.symm.trans htopic.symm)
      (hcpartition.symm.trans hpartition.symm) (by omega) with hcomplete | rfl
    · cases h : consumer.accepted message with
      | none =>
        have hown : message.topic = consumer.transactionTopic :=
          (htopic.trans hctopic).trans (KafkaTransactionConsumer.commit_of_accepted hm).1
        rw [KafkaTransactionConsumer.accepted, if_neg (not_not.2 hown)] at h
        exact .inl h
      | some command =>
        exact settled_of_part hbegun hids' hservice (mem_stoppedParts.2 (.inl ⟨hcomplete, rfl⟩)) h
          (mem_savedProcessed h)
    · exact settled_of_part hbegun hids' hservice hpart hm hprocessed
  · intro message hmessage command hcommand hpublished hresumed
    obtain ⟨⟨m, effects⟩, hpart, hmem⟩ := List.mem_flatMap.1 hpublished
    obtain ⟨hm, hvalid⟩ := published_mem ((hbegun _ hpart).subset hmem)
    obtain rfl : message = m :=
      hids.eq_of_id hmessage (List.mem_append_left _ (List.mem_map_of_mem hpart)) hcommand hm rfl
    rcases mem_stoppedParts.1 hpart with ⟨hcomplete, rfl⟩ | rfl
    · -- a message handled completely is processed, and its partition has a seek above it
      obtain ⟨checkpoint, hcheckpoint, htopic, hpartition, hle⟩ := checkpoint_of_part hbegun hids' hservice iteration
        exchangeSnapshots hpart hm hvalid (mem_savedProcessed hm)
      exact absurd ⟨_, List.mem_map_of_mem hcheckpoint, htopic, hpartition, Int.lt_add_one_of_le hle⟩ hresumed
    -- the message at which the run stopped was delivered last
    · have hlast := deliveries_part (hbegun _ hpart) (List.ne_nil_of_mem hmem)
      rw [deliveries_performAll, stoppedParts, List.flatMap_append, List.filterMap_append]
      simp [hlast]

/-- A consumer of the topic `transactions`; the numbers of the example are integers. -/
def exampleConsumer : KafkaTransactionConsumer where
  transactionTopic := "transactions"
  stod := fun text => (Decimal.integer text).map fun n : Int => (n : ℚ)

def exampleMessage (partition offset : Int) (id : String) : RawKafkaMessage where
  topic := "transactions"
  partition := partition
  offset := offset
  payload := "transaction_id=" ++ id ++ ";user_id=u;account_id=a;command_type=order;instrument_symbol=BTC;quantity=1"

/-- The command of an example message. -/
def exampleCommand (partition offset : Int) (id : String) : TransactionCommand where
  transactionId := id
  userId := "u"
  accountId := "a"
  commandType := "order"
  instrumentSymbol := "BTC"
  quantity := 1
  kafkaTopic := "transactions"
  kafkaPartition := partition
  kafkaOffset := offset

theorem accepted_exampleMessage (partition offset : Int) {id : String} (hid : id ∈ ["t1", "t2"]) :
    exampleConsumer.accepted (exampleMessage partition offset id) = some (exampleCommand partition offset id) := by
  have hparsed : ∀ id ∈ ["t1", "t2"],
      exampleConsumer.accepted (exampleMessage 0 0 id) = some (exampleCommand 0 0 id) := by
    decide +kernel
  have hmoved := exampleConsumer.accepted_at (exampleMessage 0 0 id) partition offset
  rw [hparsed id hid, Option.map_some] at hmoved
  exact hmoved

/-- The run stops after the publication of the second of two messages, on different partitions. -/
theorem recovery_resumes_exampleMessage :
    let messages := [exampleMessage 0 7 "t1", exampleMessage 1 3 "t2"]
    let done := (runCalls exampleConsumer [.completes, .completes] messages).take 11
    let service : RecoveryService := { transactionRepository := (({} : World).performAll done).repository }
    let seeks := RecoveryService.resumeKafka (service.recover service.byKey []).1
    seeks = [{ topic := "transactions", partition := 0, nextOffset := 8 }] ∧
      (∀ seek ∈ seeks, ∀ message ∈ messages, message.topic = seek.topic → message.partition = seek.partition →
        message.offset < seek.nextOffset → Settled exampleConsumer service.transactionRepository message) ∧
      ∀ message ∈ messages, ∀ command, exampleConsumer.accepted message = some command →
        .published command ∈ done → ¬ResumedAbove seeks message →
        (({} : World).performAll done).deliveries.getLast? = some message := by
  intro messages done service seeks
  have hids : DistinctIds exampleConsumer messages := by
    rw [DistinctIds, List.filterMap_cons_some (accepted_exampleMessage 0 7 (by decide)),
      List.filterMap_cons_some (accepted_exampleMessage 1 3 (by decide))]
    decide
  have hoffsets : IncreasingOffsets messages := by
    unfold IncreasingOffsets
    decide +kernel
  have hdone : done <+: runCalls exampleConsumer (List.replicate 2 .completes) messages := List.take_prefix 11 _
  have hservice : ∀ repository, ({ transactionRepository := repository } : RecoveryService).transactionRepository =
      repository := fun _ => rfl
  exact ⟨by decide +kernel, recovery_resumes hids hoffsets 2 hdone (hservice _) service.byKey []⟩

end TransactionIngestor

end Wall
