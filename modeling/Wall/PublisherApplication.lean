import Wall.IngestionRuns
import Wall.KafkaTransactionProducer
import Wall.TransactionPublisher
import Wall.Lib.PartitionedLog

/-!
# The publisher

`TransactionPublisherApplication::run` of `app/transaction_publisher_application.cpp`: every line of the input that is
not blank is published or skipped.  What `RdKafkaTransactionProducer` calls of librdkafka is a parameter
(`KafkaClient`), of which the publisher relies on what it accepts being stored once in some partition of the topic
(`KafkaClient.Stores`).  The key of a message, which holds the time of day, decides about nothing but the partition and
is left out.

Together with the ingestor on the other side: whatever partitions the messages are stored in and in whatever order the
partitions are read, the dispatcher gets each valid command once (`published_commands_received`).
-/

namespace Wall

open Cursor Interleaving

/-- The client library of the producer: two calls, which fail with a text. -/
structure KafkaClient (κ : Type*) where
  producev : κ → (topic payload : String) → Except String κ
  flush : κ → Except String κ

/-- What the library keeps of what it accepts. -/
structure KafkaClient.Stores {κ : Type*} (kafka : KafkaClient κ) (topic : String)
    (log : κ → PartitionedLog Int String) : Prop where
  producev : ∀ client payload client', kafka.producev client topic payload = .ok client' →
    ∃ partition, log client' = (log client).append partition payload
  flush : ∀ client client', kafka.flush client = .ok client' → log client' = log client

structure TransactionPublisherApplication (κ : Type*) where
  topic : String
  stod : String → Option ℚ
  streamed : ℚ → String
  kafka : KafkaClient κ

/-- What has been done of a run. -/
structure Publication (κ : Type*) where
  client : κ
  publishedCount : Nat := 0
  skippedCount : Nat := 0

namespace TransactionPublisherApplication

variable {κ : Type*} (application : TransactionPublisherApplication κ)

def publish (client : κ) (command : TransactionCommand) : Except String κ :=
  (application.kafka.producev client application.topic
    (serializeTransactionCommandPayload application.streamed command)).mapError
      ("failed to publish Kafka transaction: " ++ ·)

def flush (client : κ) : Except String κ :=
  (application.kafka.flush client).mapError ("failed to flush Kafka producer: " ++ ·)

def handleLine (publication : Publication κ) (line : List Char) : Except String (Publication κ) :=
  let trimmed := trim TransactionPublisher.isBlank line
  if trimmed = [] then .ok publication
  else
    match TransactionPublisher.parseJsonTransactionCommandLine application.stod (String.ofList trimmed) with
    | none => .ok { publication with skippedCount := publication.skippedCount + 1 }
    | some command =>
      (application.publish publication.client command).map fun client =>
        { publication with client := client, publishedCount := publication.publishedCount + 1 }

def handleLines (lines : List (List Char)) (publication : Publication κ) : Except String (Publication κ) :=
  lines.foldlM application.handleLine publication

def run (input : String) (client : κ) : Except String (Publication κ) := do
  let publication ← application.handleLines (Getline.tokens '\n' input.toList) { client := client }
  let client ← application.flush publication.client
  return { publication with client := client }

/-! ### The commands of the lines -/

/-- The command that is published for a line. -/
def lineCommand (line : List Char) : Option TransactionCommand :=
  TransactionPublisher.parseJsonTransactionCommandLine application.stod
    (String.ofList (trim TransactionPublisher.isBlank line))

/-- The commands of an input. -/
def commands (input : String) : List TransactionCommand :=
  (Getline.tokens '\n' input.toList).filterMap application.lineCommand

private theorem lineCommand_of_blank {line : List Char} (h : trim TransactionPublisher.isBlank line = []) :
    application.lineCommand line = none := by
  rw [lineCommand, h]
  rfl

/-- A line that is not blank is skipped or published. -/
private theorem handleLine_of_not_blank {line : List Char} (h : trim TransactionPublisher.isBlank line ≠ [])
    (publication : Publication κ) :
    application.handleLine publication line =
      match application.lineCommand line with
      | none => .ok { publication with skippedCount := publication.skippedCount + 1 }
      | some command =>
        (application.publish publication.client command).map fun client =>
          { publication with client := client, publishedCount := publication.publishedCount + 1 } :=
  if_neg h

/-! ### Runs -/

theorem ok_of_bind.{u, v} {ε : Type u} {α β : Type v} {x : Except ε α} {f : α → Except ε β} {b : β}
    (h : x >>= f = .ok b) : ∃ a, x = .ok a ∧ f a = .ok b := by
  cases x with
  | error e => cases h
  | ok a => exact ⟨a, rfl, h⟩

/-- A line that was handled: what it published is at the end of some partition. -/
private theorem handleLine_ok {log : κ → PartitionedLog Int String} (h : application.kafka.Stores application.topic log)
    {publication publication' : Publication κ} {line : List Char}
    (hline : application.handleLine publication line = .ok publication') :
    (trim TransactionPublisher.isBlank line = [] ∧ publication' = publication) ∨
    (trim TransactionPublisher.isBlank line ≠ [] ∧ application.lineCommand line = none ∧
      publication' = { publication with skippedCount := publication.skippedCount + 1 }) ∨
    ∃ command partition, trim TransactionPublisher.isBlank line ≠ [] ∧ application.lineCommand line = some command ∧
      publication'.publishedCount = publication.publishedCount + 1 ∧
      publication'.skippedCount = publication.skippedCount ∧
      log publication'.client = (log publication.client).append partition
        (serializeTransactionCommandPayload application.streamed command) := by
  by_cases hblank : trim TransactionPublisher.isBlank line = []
  · rw [handleLine, if_pos hblank, Except.ok.injEq] at hline
    exact .inl ⟨hblank, hline.symm⟩
  · rw [application.handleLine_of_not_blank hblank] at hline
    cases hcommand : application.lineCommand line with
    | none =>
      rw [hcommand] at hline
      cases hline
      exact .inr (.inl ⟨hblank, rfl, rfl⟩)
    | some command =>
      rw [hcommand] at hline
      dsimp only [publish] at hline
      cases hproduced : application.kafka.producev publication.client application.topic
          (serializeTransactionCommandPayload application.streamed command) with
      | error text =>
        rw [hproduced] at hline
        cases hline
      | ok client =>
        rw [hproduced] at hline
        cases hline
        obtain ⟨partition, hlog⟩ := h.producev _ _ _ hproduced
        exact .inr (.inr ⟨command, partition, hblank, rfl, rfl, rfl, hlog⟩)

private theorem handleLines_ok {log : κ → PartitionedLog Int String}
    (h : application.kafka.Stores application.topic log)
    {lines : List (List Char)} (publication : Publication κ) {publication' : Publication κ}
    {placed : PartitionedLog Int TransactionCommand}
    (hplaced : log publication.client = placed.map (serializeTransactionCommandPayload application.streamed))
    (hlines : application.handleLines lines publication = .ok publication') :
    ∃ placed' : PartitionedLog Int TransactionCommand,
      placed'.values = placed.values ++ lines.filterMap application.lineCommand ∧
      log publication'.client = placed'.map (serializeTransactionCommandPayload application.streamed) ∧
      publication'.publishedCount =
        publication.publishedCount + (lines.filterMap application.lineCommand).length ∧
      publication'.publishedCount + publication'.skippedCount =
        publication.publishedCount + publication.skippedCount +
          (lines.filter fun line => decide (trim TransactionPublisher.isBlank line ≠ [])).length := by
  induction lines generalizing publication placed with
  | nil =>
    cases hlines
    exact ⟨placed, by simp, hplaced, rfl, rfl⟩
  | cons line lines ih =>
    rw [handleLines, List.foldlM_cons] at hlines
    obtain ⟨between, hline, hrest⟩ := ok_of_bind hlines
    rcases application.handleLine_ok h hline with
      ⟨hblank, rfl⟩ | ⟨hblank, hnone, rfl⟩ | ⟨command, partition, hblank, hsome, hpublished, hskipped, hlog⟩
    · -- a blank line counts nowhere
      obtain ⟨placed', hvalues, hlog', hcount, htotal⟩ := ih _ hplaced hrest
      have hnone := application.lineCommand_of_blank hblank
      refine ⟨placed', ?_, hlog', ?_, ?_⟩
      · rw [hvalues, List.filterMap_cons_none hnone]
      · rw [hcount, List.filterMap_cons_none hnone]
      · rw [htotal, List.filter_cons_of_neg (by simpa using hblank)]
    · -- a line without a command is skipped
      obtain ⟨placed', hvalues, hlog', hcount, htotal⟩ :=
        ih { publication with skippedCount := publication.skippedCount + 1 } hplaced hrest
      refine ⟨placed', ?_, hlog', ?_, ?_⟩
      · rw [hvalues, List.filterMap_cons_none hnone]
      · rw [hcount, List.filterMap_cons_none hnone]
      · rw [htotal, List.filter_cons_of_pos (by simpa using hblank), List.length_cons]
        dsimp only
        omega
    · -- a command goes to the end of the partition that the library chooses
      have hplaced' : log between.client = (placed.append partition command).map
          (serializeTransactionCommandPayload application.streamed) := by
        rw [hlog, hplaced, PartitionedLog.map_append]
      obtain ⟨placed', hvalues, hlog', hcount, htotal⟩ := ih between hplaced' hrest
      refine ⟨placed', ?_, hlog', ?_, ?_⟩
      · rw [hvalues, PartitionedLog.values_append, List.filterMap_cons_some hsome, List.append_assoc]
        rfl
      · rw [hcount, hpublished, List.filterMap_cons_some hsome, List.length_cons]
        omega
      · rw [htotal, hpublished, hskipped, List.filter_cons_of_pos (by simpa using hblank), List.length_cons]
        omega

private theorem run_ok {log : κ → PartitionedLog Int String} (h : application.kafka.Stores application.topic log)
    {input : String} {client : κ} (hempty : (log client).entries = []) {publication : Publication κ}
    (hrun : application.run input client = .ok publication) :
    ∃ placed : PartitionedLog Int TransactionCommand, placed.values = application.commands input ∧
      log publication.client = placed.map (serializeTransactionCommandPayload application.streamed) ∧
      publication.publishedCount = (application.commands input).length ∧
      publication.publishedCount + publication.skippedCount =
        ((Getline.tokens '\n' input.toList).filter fun line =>
          decide (trim TransactionPublisher.isBlank line ≠ [])).length := by
  obtain ⟨handled, hlines, hrest⟩ := ok_of_bind hrun
  obtain ⟨client', hflush, hdone⟩ := ok_of_bind hrest
  cases hdone
  have hplaced : log client = ({} : PartitionedLog Int TransactionCommand).map
      (serializeTransactionCommandPayload application.streamed) := PartitionedLog.ext hempty
  obtain ⟨placed, hvalues, hlog, hcount, htotal⟩ :=
    application.handleLines_ok h { client := client } hplaced hlines
  have hflushed : log client' = log handled.client := by
    unfold flush at hflush
    cases hlibrary : application.kafka.flush handled.client with
    | error text =>
      rw [hlibrary] at hflush
      cases hflush
    | ok client'' =>
      rw [hlibrary] at hflush
      cases hflush
      exact h.flush _ _ hlibrary
  refine ⟨placed, hvalues, hflushed.trans hlog, ?_, ?_⟩
  · rw [hcount]
    exact Nat.zero_add _
  · rw [htotal]
    exact Nat.zero_add _

/-- A run fails only if the library does. -/
private theorem exists_run_ok
    (hproducev : ∀ client topic payload, ∃ client', application.kafka.producev client topic payload = .ok client')
    (hflush : ∀ client, ∃ client', application.kafka.flush client = .ok client') (input : String) (client : κ) :
    ∃ publication, application.run input client = .ok publication := by
  have hline : ∀ publication line, ∃ publication', application.handleLine publication line = .ok publication' := by
    intro publication line
    by_cases hblank : trim TransactionPublisher.isBlank line = []
    · exact ⟨publication, if_pos hblank⟩
    · rw [application.handleLine_of_not_blank hblank]
      cases application.lineCommand line with
      | none => exact ⟨_, rfl⟩
      | some command =>
        obtain ⟨client', hclient'⟩ := hproducev publication.client application.topic
          (serializeTransactionCommandPayload application.streamed command)
        dsimp only [publish]
        rw [hclient']
        exact ⟨_, rfl⟩
  have hlines : ∀ lines publication, ∃ publication', application.handleLines lines publication = .ok publication' := by
    intro lines
    induction lines with
    | nil => exact fun publication => ⟨publication, rfl⟩
    | cons line lines ih =>
      intro publication
      obtain ⟨between, hbetween⟩ := hline publication line
      rw [handleLines, List.foldlM_cons, hbetween]
      exact ih between
  obtain ⟨handled, hhandled⟩ := hlines (Getline.tokens '\n' input.toList) { client := client }
  obtain ⟨client', hclient'⟩ := hflush handled.client
  refine ⟨{ handled with client := client' }, ?_⟩
  rw [run, hhandled]
  show (do
    let client ← application.flush handled.client
    return { handled with client := client }) = _
  rw [flush, hclient']
  rfl

end TransactionPublisherApplication

/-! ### The other side -/

/-- An entry of a topic as the consumer's client delivers it. -/
def deliveredEntry (topic : String) (entry : PartitionedLog.Entry Int String) : RawKafkaMessage where
  topic := topic
  partition := entry.partition
  offset := entry.offset
  payload := entry.value

/-- The command that the consumer makes of an entry. -/
def receivedEntry (rnd : ℚ → ℚ) (topic : String) (entry : PartitionedLog.Entry Int TransactionCommand) :
    TransactionCommand :=
  entry.value.received rnd topic entry.partition entry.offset

open TransactionIngestor PartitionedLog in
/-- What is published of the entries of a partition. -/
private theorem ofKey_filterMap_publishable (consumer : KafkaTransactionConsumer) (topic : String) (partition : Int)
    (stream : List (Entry Int String)) :
    ofKey TransactionCommand.kafkaPartition partition
        ((stream.map (deliveredEntry topic)).filterMap (publishable consumer)) =
      (ofKey Entry.partition partition stream).filterMap fun entry =>
        publishable consumer (deliveredEntry topic entry) := by
  rw [ofKey, ofKey, List.filterMap_map, List.filter_filterMap, List.filterMap_filter]
  refine List.filterMap_congr fun entry _ => ?_
  cases hpublishable : publishable consumer (deliveredEntry topic entry) with
  | none =>
    rw [Function.comp_apply, hpublishable]
    exact (ite_self none).symm
  | some command =>
    have haccepted := (Option.filter_eq_some_iff.1 hpublishable).1
    have hpartition : command.kafkaPartition = entry.partition :=
      (KafkaTransactionConsumer.commit_of_accepted haccepted).2.2.1
    rw [Function.comp_apply, hpublishable, Option.filter_some, hpartition]

open TransactionIngestor PartitionedLog in
/-- A run of the publisher that ends well has published the commands of the input, and published or skipped every line
that is not blank.  Each of the commands is stored once in some partition.  However the partitions are read, draining
them ends and commits every offset once, in order; and if no text of a command has a semicolon, the dispatcher gets of
each partition the valid commands in the order of their lines, with the numbers as they are printed. -/
theorem published_commands_received {κ : Type*} (application : TransactionPublisherApplication κ)
    {log : κ → PartitionedLog Int String} (h : application.kafka.Stores application.topic log)
    {consumer : KafkaTransactionConsumer} (htopic : application.topic = consumer.transactionTopic) {rnd : ℚ → ℚ}
    (hnumerals : PayloadNumerals application.streamed consumer.stod rnd) {input : String} {client : κ}
    (hempty : (log client).entries = []) {publication : Publication κ}
    (hrun : application.run input client = .ok publication) :
    publication.publishedCount = (application.commands input).length ∧
    publication.publishedCount + publication.skippedCount =
      ((Getline.tokens '\n' input.toList).filter fun line =>
        decide (trim TransactionPublisher.isBlank line ≠ [])).length ∧
    ∃ placed : PartitionedLog Int TransactionCommand, placed.values = application.commands input ∧
      ∀ stream, (log publication.client).Reads stream → ∃ effects,
        (∀ fuel, stream.length < fuel →
          drain consumer fuel (stream.map (deliveredEntry application.topic)) = some effects) ∧
        (∀ partition, (ofKey KafkaPosition.partition partition
            (({} : World).performAll effects).commitLog).map KafkaPosition.offset =
          (List.range (ofKey Entry.partition partition placed.entries).length).map Nat.cast) ∧
        ((∀ command ∈ application.commands input, ∀ text ∈ command.payloadTexts, ';' ∉ text.toList) →
          ∀ partition, ofKey TransactionCommand.kafkaPartition partition
              (({} : World).performAll effects).received =
            ((ofKey Entry.partition partition placed.entries).map
              (receivedEntry rnd application.topic)).filter isValid) := by
  obtain ⟨placed, hvalues, hlog, hcount, htotal⟩ := application.run_ok h hempty hrun
  refine ⟨hcount, htotal, placed, hvalues, fun stream hstream => ?_⟩
  have hread : ∀ partition, ofKey Entry.partition partition stream =
      (ofKey Entry.partition partition placed.entries).map
        (Entry.map (serializeTransactionCommandPayload application.streamed)) := by
    intro partition
    rw [hstream partition, hlog]
    exact ofKey_map_entries _ _ _
  refine ⟨_, fun fuel hfuel => drain_eq (by rwa [List.length_map]), fun partition => ?_, fun htexts partition => ?_⟩
  · rw [commitLog_performAll, commits_flatMap]
    show (ofKey _ _ ([] ++ _)).map _ = _
    have hoffsets : (ofKey Entry.partition partition stream).map Entry.offset =
        List.range (ofKey Entry.partition partition placed.entries).length := by
      rw [hread, List.map_map]
      exact placed.numbered partition
    rw [List.nil_append, List.map_map, ← hoffsets, List.map_map, ofKey, List.filter_map, List.map_map]
    rfl
  · rw [received_performAll, publications_flatMap]
    show ofKey _ _ ([] ++ _) = _
    rw [List.nil_append, ofKey_filterMap_publishable, hread, List.filterMap_map, List.filter_map,
      ← List.filterMap_eq_filter, List.map_filterMap]
    refine List.filterMap_congr fun entry hentry => ?_
    have hmem : entry.value ∈ application.commands input := by
      rw [← hvalues]
      exact List.mem_map_of_mem (mem_ofKey.1 hentry).1
    -- what was published for a command is accepted again as that command, with its numbers as printed
    have haccepted : consumer.accepted (deliveredEntry application.topic
        (entry.map (serializeTransactionCommandPayload application.streamed))) =
          some (receivedEntry rnd application.topic entry) :=
      (if_neg (not_not.2 htopic)).trans
        (parseRawMessage_payload hnumerals (htexts entry.value hmem) application.topic entry.partition entry.offset)
    rw [Function.comp_apply, publishable, haccepted, Option.filter_some]
    by_cases hvalid : isValid (receivedEntry rnd application.topic entry) = true
    · simp [hvalid]
    · simp [hvalid]

/-- A library that stores a payload in one of two partitions, by its length. -/
def storingClient : KafkaClient (PartitionedLog Int String) where
  producev log _ payload := .ok (log.append (payload.length % 2) payload)
  flush log := .ok log

private theorem storingClient_stores (topic : String) : storingClient.Stores topic id where
  producev _ payload _ h := ⟨payload.length % 2, (Except.ok.inj h).symm⟩
  flush _ _ h := (Except.ok.inj h).symm

def exampleApplication : TransactionPublisherApplication (PartitionedLog Int String) where
  topic := "transactions"
  stod := Numeral.value
  streamed := Numeral.significant 6
  kafka := storingClient

/-- A command and a line that is none. -/
def exampleInput : String :=
  "\x7b\"transaction_id\":\"t\",\"user_id\":\"\",\"account_id\":\"\",\"command_type\":\"\"," ++
  "\"instrument_symbol\":\"\",\"quantity\":1\x7d\nnothing"

private theorem commands_exampleInput :
    exampleApplication.commands exampleInput = [{ transactionId := "t", quantity := 1 }] := by
  decide +kernel

open TransactionIngestor PartitionedLog in
/-- The command of the input is published and received, its quantity as it is printed. -/
theorem published_commands_received_exampleInput :
    ∃ publication, exampleApplication.run exampleInput {} = .ok publication ∧ publication.publishedCount = 1 ∧
      publication.publishedCount + publication.skippedCount = 2 ∧
      ∃ placed : PartitionedLog Int TransactionCommand, placed.values = [{ transactionId := "t", quantity := 1 }] ∧
        ∀ stream, publication.client.Reads stream → ∃ effects, ∀ partition,
          ofKey TransactionCommand.kafkaPartition partition (({} : World).performAll effects).received =
            ((ofKey Entry.partition partition placed.entries).map
              (receivedEntry (Rounding.roundSignificant 10 6) "transactions")).filter isValid := by
  obtain ⟨publication, hrun⟩ := exampleApplication.exists_run_ok (fun _ _ _ => ⟨_, rfl⟩) (fun _ => ⟨_, rfl⟩)
    exampleInput {}
  have htexts : ∀ command ∈ exampleApplication.commands exampleInput,
      ∀ text ∈ command.payloadTexts, ';' ∉ text.toList := by
    rw [commands_exampleInput]
    decide
  let consumer : KafkaTransactionConsumer := { transactionTopic := "transactions", stod := Numeral.value }
  obtain ⟨hcount, htotal, placed, hvalues, hreceived⟩ := published_commands_received exampleApplication
    (storingClient_stores "transactions") (rfl : _ = consumer.transactionTopic) (payloadNumerals_significant 6) rfl
    hrun
  refine ⟨publication, hrun, hcount.trans ?_, htotal.trans ?_, placed, hvalues.trans commands_exampleInput,
    fun stream hstream => ?_⟩
  · rw [commands_exampleInput]
    rfl
  · decide +kernel
  · obtain ⟨effects, -, -, hdispatched⟩ := hreceived stream hstream
    exact ⟨effects, hdispatched htexts⟩

end Wall
