import Wall.IngestionRuns

/-!
# Runs of the ingestor that stop half way

Where a run stops or a call throws, some messages have had only the first of their effects.  A run is then a list of
parts, a message with the effects of it that were had (`Begun`), and the durable record of a command tells how far its
own part has got (`record_of_part`, `part_of_record`), whatever the other parts are.
-/

namespace Wall

/-- The first elements of a concatenation end inside of one of its lists, or at its end. -/
theorem prefix_flatMap {α β : Type*} {f : α → List β} {xs : List α} {l : List β} (h : l <+: xs.flatMap f) :
    l = [] ∨ ∃ pre x post part, xs = pre ++ x :: post ∧ part <+: f x ∧ l = pre.flatMap f ++ part := by
  induction xs generalizing l with
  | nil => exact .inl (List.prefix_nil.1 h)
  | cons x xs ih =>
    refine .inr ?_
    rcases List.prefix_or_prefix_of_prefix h (List.prefix_append (f x) (xs.flatMap f)) with hl | hx
    · exact ⟨[], x, xs, l, rfl, hl, rfl⟩
    · obtain ⟨l, rfl⟩ := hx
      rcases ih ((List.prefix_append_right_inj _).1 h) with rfl | ⟨pre, y, post, part, rfl, hpart, rfl⟩
      · exact ⟨[], x, xs, f x, rfl, List.prefix_rfl, by simp⟩
      · exact ⟨x :: pre, y, post, part, rfl, hpart, by simp⟩

namespace TransactionIngestor

/-- The parts are first effects of their messages. -/
def Begun (consumer : KafkaTransactionConsumer) (parts : List (RawKafkaMessage × List IngestEffect)) : Prop :=
  ∀ part ∈ parts, part.2 <+: messageEffects consumer part.1

/-! ### The durable record of one command -/

def recordWith (command : TransactionCommand) (status : String) : TransactionRecord where
  transactionId := command.transactionId
  status := status
  kafkaTopic := command.kafkaTopic
  kafkaPartition := command.kafkaPartition
  kafkaOffset := command.kafkaOffset

/-- The effects that write a durable record. -/
def isSave : IngestEffect → Bool
  | .savedReceived _ | .savedProcessed .. => true
  | _ => false

/-- What an effect makes of the record with this id. -/
def updateRecord (id : String) (record : Option TransactionRecord) : IngestEffect → Option TransactionRecord
  | .savedReceived command => if command.transactionId = id then some (recordWith command "received") else record
  | .savedProcessed transactionId status =>
    if transactionId = id then
      match record with
      | some record => some { record with status := status }
      | none => some { transactionId := id, status := status }
    else record
  | _ => record

private theorem records_performAll (world : World) (effects : List IngestEffect) (id : String) :
    (world.performAll effects).repository.records[id]? =
      (effects.filter isSave).foldl (updateRecord id) world.repository.records[id]? := by
  induction effects generalizing world with
  | nil => rfl
  | cons effect effects ih =>
    rw [World.performAll_cons, ih]
    cases effect with
    | delivered | committed | cached | published => rfl
    | savedReceived command =>
      simp only [World.perform, PostgresTransactionRepository.saveReceived, KeyedMap.getElem?_insert]
      rfl
    | savedProcessed transactionId status =>
      rw [List.filter_cons_of_pos (by rfl), List.foldl_cons]
      congr 1
      simp only [World.perform, PostgresTransactionRepository.saveProcessed, updateRecord]
      by_cases hid : transactionId = id
      · subst hid
        cases world.repository.records[transactionId]? <;> simp
      · cases world.repository.records[transactionId]? <;> simp [KeyedMap.getElem?_insert, hid]

theorem checkpoints_performAll (world : World) (effects : List IngestEffect) :
    (world.performAll effects).repository.checkpoints = world.repository.checkpoints := by
  induction effects generalizing world with
  | nil => rfl
  | cons effect effects ih =>
    rw [World.performAll_cons, ih]
    cases effect <;> rfl

variable {consumer : KafkaTransactionConsumer} {message : RawKafkaMessage} {command : TransactionCommand}
  {effects : List IngestEffect} {id : String}

/-- A command that is handled is recorded as received and then with its final status. -/
theorem saves_messageEffects (h : consumer.accepted message = some command) :
    (messageEffects consumer message).filter isSave =
      [.savedReceived command, .savedProcessed command.transactionId (finalStatus command)] := by
  rw [messageEffects, h]
  dsimp only
  rw [handle]
  split <;> rfl

private theorem saves_messageEffects_skipped (h : consumer.accepted message = none) :
    (messageEffects consumer message).filter isSave = [] := by
  rw [messageEffects, h]
  rfl

/-- The record of a command of whose message these effects were had. -/
def recordAfter (command : TransactionCommand) (effects : List IngestEffect) : Option TransactionRecord :=
  if .savedProcessed command.transactionId (finalStatus command) ∈ effects then
    some (recordWith command (finalStatus command))
  else if .savedReceived command ∈ effects then some (recordWith command "received")
  else none

/-- Of the two writes of a command, a part has had none, the first or both. -/
private theorem saves_part (h : consumer.accepted message = some command)
    (hbegun : effects <+: messageEffects consumer message) :
    effects.filter isSave = [] ∨ effects.filter isSave = [.savedReceived command] ∨
      effects.filter isSave =
        [.savedReceived command, .savedProcessed command.transactionId (finalStatus command)] := by
  have hsaves := hbegun.filter isSave
  rw [saves_messageEffects h] at hsaves
  rcases List.prefix_cons_iff.1 hsaves with hnil | ⟨t, hone, ht⟩
  · exact .inl hnil
  · rcases List.prefix_cons_iff.1 ht with rfl | ⟨t', rfl, ht'⟩
    · exact .inr (.inl hone)
    · rw [List.prefix_nil.1 ht'] at hone
      exact .inr (.inr hone)

theorem mem_saves {effect : IngestEffect} (h : isSave effect = true) :
    effect ∈ effects ↔ effect ∈ effects.filter isSave := by simp [h]

/-- A part writes the record of its own command ... -/
private theorem foldl_part (h : consumer.accepted message = some command)
    (hbegun : effects <+: messageEffects consumer message) :
    (effects.filter isSave).foldl (updateRecord command.transactionId) none = recordAfter command effects := by
  have hprocessed := @mem_saves effects (.savedProcessed command.transactionId (finalStatus command)) rfl
  have hreceived := @mem_saves effects (.savedReceived command) rfl
  unfold recordAfter
  rcases saves_part h hbegun with hsaves | hsaves | hsaves <;> rw [hsaves] at hprocessed hreceived ⊢
  · simp [hprocessed, hreceived]
  · simp [hprocessed, hreceived, updateRecord]
  · simp [hprocessed, updateRecord, recordWith]

/-- ... and no other one. -/
private theorem foldl_part_other
    (hid : ∀ command, consumer.accepted message = some command → command.transactionId ≠ id)
    (hbegun : effects <+: messageEffects consumer message) (record : Option TransactionRecord) :
    (effects.filter isSave).foldl (updateRecord id) record = record := by
  cases h : consumer.accepted message with
  | none =>
    have hsaves := hbegun.filter isSave
    rw [saves_messageEffects_skipped h] at hsaves
    rw [List.prefix_nil.1 hsaves]
    rfl
  | some command =>
    have hne := hid command h
    rcases saves_part h hbegun with hsaves | hsaves | hsaves <;> rw [hsaves]
    · rfl
    · simp [updateRecord, hne]
    · simp [updateRecord, hne]

/-! ### The durable records of a run -/

/-- The accepted commands of the messages have distinct ids. -/
def DistinctIds (consumer : KafkaTransactionConsumer) (messages : List RawKafkaMessage) : Prop :=
  ((messages.filterMap consumer.accepted).map TransactionCommand.transactionId).Nodup

private theorem distinctIds_iff {messages : List RawKafkaMessage} :
    DistinctIds consumer messages ↔ messages.Pairwise fun a b =>
      ∀ c, consumer.accepted a = some c → ∀ d, consumer.accepted b = some d → c.transactionId ≠ d.transactionId := by
  rw [DistinctIds, List.Nodup, List.pairwise_map, List.pairwise_filterMap]

/-- In such a stream the id determines the message. -/
theorem DistinctIds.eq_of_id {messages : List RawKafkaMessage} (h : DistinctIds consumer messages)
    {a b : RawKafkaMessage} {c d : TransactionCommand} (ha : a ∈ messages) (hb : b ∈ messages)
    (hc : consumer.accepted a = some c) (hd : consumer.accepted b = some d) (hid : c.transactionId = d.transactionId) :
    a = b := by
  rw [distinctIds_iff] at h
  induction messages with
  | nil => cases ha
  | cons message messages ih =>
    obtain ⟨hhead, htail⟩ := List.pairwise_cons.1 h
    rcases List.mem_cons.1 ha with rfl | ha' <;> rcases List.mem_cons.1 hb with rfl | hb'
    · rfl
    · exact absurd hid (hhead b hb' c hc d hd)
    · exact absurd hid.symm (hhead a ha' d hd c hc)
    · exact ih htail ha' hb'

variable {parts : List (RawKafkaMessage × List IngestEffect)}

private theorem foldl_parts_other (hbegun : Begun consumer parts)
    (hid : ∀ part ∈ parts, ∀ command, consumer.accepted part.1 = some command → command.transactionId ≠ id)
    (record : Option TransactionRecord) :
    ((parts.flatMap Prod.snd).filter isSave).foldl (updateRecord id) record = record := by
  induction parts with
  | nil => rfl
  | cons part parts ih =>
    rw [List.flatMap_cons, List.filter_append, List.foldl_append,
      foldl_part_other (hid part (List.mem_cons_self ..)) (hbegun part (List.mem_cons_self ..))]
    exact ih (fun p hp => hbegun p (List.mem_cons_of_mem _ hp)) fun p hp => hid p (List.mem_cons_of_mem _ hp)

/-- The durable records after the effects, from an empty repository. -/
def recordsAfter (effects : List IngestEffect) : StringMap TransactionRecord :=
  (({} : World).performAll effects).repository.records

private theorem getElem?_recordsAfter (effects : List IngestEffect) (id : String) :
    (recordsAfter effects)[id]? = (effects.filter isSave).foldl (updateRecord id) none := by
  rw [recordsAfter, records_performAll]
  simp

/-- A command's record is what its own part has written. -/
theorem record_of_part (hbegun : Begun consumer parts) (hids : DistinctIds consumer (parts.map Prod.fst))
    (hpart : (message, effects) ∈ parts) (h : consumer.accepted message = some command) :
    (recordsAfter (parts.flatMap Prod.snd))[command.transactionId]? = recordAfter command effects := by
  obtain ⟨pre, post, rfl⟩ := List.append_of_mem hpart
  rw [distinctIds_iff, List.map_append, List.map_cons, List.pairwise_append, List.pairwise_cons] at hids
  obtain ⟨-, ⟨hpost, -⟩, hpre⟩ := hids
  have hbefore := @foldl_parts_other consumer command.transactionId pre (fun p hp => hbegun p (by simp [hp]))
    fun p hp c hc => hpre p.1 (List.mem_map_of_mem hp) message (by simp) c hc command h
  have hafter := @foldl_parts_other consumer command.transactionId post (fun p hp => hbegun p (by simp [hp]))
    fun p hp c hc => (hpost p.1 (List.mem_map_of_mem hp) command h c hc).symm
  rw [getElem?_recordsAfter, List.flatMap_append, List.flatMap_cons, List.filter_append, List.filter_append,
    List.foldl_append, List.foldl_append, hbefore, hafter, foldl_part h (hbegun _ hpart)]

/-- Every record is one of a part. -/
theorem part_of_record {record : TransactionRecord} (hbegun : Begun consumer parts)
    (hids : DistinctIds consumer (parts.map Prod.fst))
    (hrecord : (recordsAfter (parts.flatMap Prod.snd))[id]? = some record) :
    ∃ message command effects, (message, effects) ∈ parts ∧ consumer.accepted message = some command ∧
      command.transactionId = id ∧ recordAfter command effects = some record := by
  by_contra hnone
  have hother : ∀ part ∈ parts, ∀ command, consumer.accepted part.1 = some command → command.transactionId ≠ id := by
    rintro ⟨message, effects⟩ hpart command h rfl
    exact hnone ⟨message, command, effects, hpart, h, rfl, record_of_part hbegun hids hpart h ▸ hrecord⟩
  rw [getElem?_recordsAfter, foldl_parts_other hbegun hother] at hrecord
  cases hrecord

/-- The record of a part that has come to the final status, and that of one that has not. -/
theorem recordAfter_cases {record : TransactionRecord} (h : recordAfter command effects = some record) :
    (.savedProcessed command.transactionId (finalStatus command) ∈ effects ∧
        record = recordWith command (finalStatus command)) ∨
      (.savedProcessed command.transactionId (finalStatus command) ∉ effects ∧
        .savedReceived command ∈ effects ∧ record = recordWith command "received") := by
  unfold recordAfter at h
  split at h
  · rename_i hprocessed
    cases h
    exact .inl ⟨hprocessed, rfl⟩
  · split at h
    · rename_i hprocessed hreceived
      cases h
      exact .inr ⟨hprocessed, hreceived, rfl⟩
    · cases h

theorem finalStatus_cases (command : TransactionCommand) :
    (isValid command = true ∧ finalStatus command = "processed") ∨
      (isValid command = false ∧ finalStatus command = "rejected") := by
  unfold finalStatus
  cases isValid command <;> simp

end TransactionIngestor

end Wall
