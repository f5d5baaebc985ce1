import Wall.RecoveredCheckpoints
import Wall.Lib.KeyedList

/-!
# The two transaction repositories

The in-memory repository keeps a list, the file-backed one a map by transaction id.  `save_processed` and
`save_checkpoint` overwrite a row in both, but `save_received` appends to the list and overwrites in the map.  The two
hold the same records exactly if no call reports as received a transaction that an earlier call named
(`FirstReceipts`), and then a recovery derives the same from both.
-/

namespace Wall

open KeyedMap KeyedList FirstMatch

/-- A writing call on a transaction repository. -/
inductive TransactionCall
  | saveReceived (command : TransactionCommand)
  | saveProcessed (transactionId status : String)
  | saveCheckpoint (checkpoint : KafkaCheckpoint)

/-- The transaction that a call names. -/
def TransactionCall.transactionId : TransactionCall → Option String
  | .saveReceived command => some command.transactionId
  | .saveProcessed transactionId _ => some transactionId
  | .saveCheckpoint _ => none

def InMemoryTransactionRepository.call (repository : InMemoryTransactionRepository) :
    TransactionCall → InMemoryTransactionRepository
  | .saveReceived command => repository.saveReceived command
  | .saveProcessed transactionId status => repository.saveProcessed transactionId status
  | .saveCheckpoint checkpoint => repository.saveCheckpoint checkpoint

def PostgresTransactionRepository.call (repository : PostgresTransactionRepository) :
    TransactionCall → PostgresTransactionRepository
  | .saveReceived command => repository.saveReceived command
  | .saveProcessed transactionId status => repository.saveProcessed transactionId status
  | .saveCheckpoint checkpoint => repository.saveCheckpoint checkpoint

/-- No transaction is reported as received after an earlier call named it. -/
def FirstReceipts (calls : List TransactionCall) : Prop :=
  calls.Pairwise fun earlier later =>
    ∀ command, later = .saveReceived command → earlier.transactionId ≠ some command.transactionId

/-! ### What a recovery reads -/

namespace RecoveryService

/-- The part of `recover` that reads the transaction repository: the checkpoints, and the cache with the statuses. -/
def recoverTransactions (records : List TransactionRecord) (checkpoints : List KafkaCheckpoint)
    (cache : InMemoryTransactionCache) : List KafkaCheckpoint × InMemoryTransactionCache :=
  (recoverCheckpoints checkpoints records,
    records.foldl (fun cache record => cache.setStatus record.transactionId record.status) cache)

private theorem recover_transactions (service : RecoveryService) (iteration : service.Iteration)
    (exchangeSnapshots : List MarketSnapshot) :
    ((service.recover iteration exchangeSnapshots).1.kafkaCheckpoints,
      (service.recover iteration exchangeSnapshots).2.transactionCache) =
    recoverTransactions iteration.records iteration.checkpoints service.transactionCache := rfl

/-- What a record makes of the checkpoint of its partition. -/
def noted (record : TransactionRecord) : Option KafkaCheckpoint → KafkaCheckpoint
  | none => checkpointOf record
  | some checkpoint => if record.kafkaOffset > checkpoint.offset then checkpointOf record else checkpoint

private theorem getElem?_noteProcessed (checkpoints : StringMap KafkaCheckpoint) (record : TransactionRecord)
    (key : String) : (noteProcessed checkpoints record)[key]? =
      if record.status = "processed" ∧ checkpointKey record.kafkaTopic record.kafkaPartition = key then
        some (noted record checkpoints[key]?)
      else checkpoints[key]? := by
  unfold noteProcessed
  by_cases hstatus : record.status = "processed"
  · rw [if_neg (not_not_intro hstatus)]
    dsimp only
    by_cases hkey : checkpointKey record.kafkaTopic record.kafkaPartition = key
    · rw [if_pos ⟨hstatus, hkey⟩, hkey]
      cases hold : checkpoints[key]? with
      | none => rw [KeyedMap.getElem?_insert, if_pos rfl, noted]
      | some checkpoint =>
        dsimp only
        rw [noted]
        by_cases hgt : record.kafkaOffset > checkpoint.offset
        · rw [if_pos hgt, if_pos hgt, KeyedMap.getElem?_insert, if_pos rfl]
        · rw [if_neg hgt, if_neg hgt, hold]
    · rw [if_neg fun h => hkey h.2]
      cases checkpoints[checkpointKey record.kafkaTopic record.kafkaPartition]? with
      | none => rw [KeyedMap.getElem?_insert, if_neg hkey]
      | some checkpoint =>
        dsimp only
        split
        · rw [KeyedMap.getElem?_insert, if_neg hkey]
        · rfl
  · rw [if_pos hstatus, if_neg fun h => hstatus h.1]

/-- Two records of one partition leave the same checkpoint in either order. -/
private theorem noted_comm {a b : TransactionRecord} (htopic : a.kafkaTopic = b.kafkaTopic)
    (hpartition : a.kafkaPartition = b.kafkaPartition) (old : Option KafkaCheckpoint) :
    noted b (some (noted a old)) = noted a (some (noted b old)) := by
  have hsame : a.kafkaOffset = b.kafkaOffset → checkpointOf a = checkpointOf b := fun hoffset => by
    rw [checkpointOf, checkpointOf, htopic, hpartition, hoffset]
  have ha : (checkpointOf a).offset = a.kafkaOffset := rfl
  have hb : (checkpointOf b).offset = b.kafkaOffset := rfl
  cases old with
  | none =>
    simp only [noted, ha, hb]
    grind
  | some checkpoint =>
    simp only [noted]
    grind

instance : RightCommutative noteProcessed where
  right_comm checkpoints a b := by
    refine Std.ExtTreeMap.ext_getElem? fun key => ?_
    simp only [getElem?_noteProcessed]
    by_cases ha : a.status = "processed" ∧ checkpointKey a.kafkaTopic a.kafkaPartition = key
    · by_cases hb : b.status = "processed" ∧ checkpointKey b.kafkaTopic b.kafkaPartition = key
      · obtain ⟨htopic, hpartition⟩ := checkpointKey_eq_iff.1 (ha.2.trans hb.2.symm)
        simp only [if_pos ha, if_pos hb, noted_comm htopic hpartition]
      · simp only [if_pos ha, if_neg hb]
    · simp only [if_neg ha]

/-- The order that the repository iterates in does not matter to the checkpoints. -/
theorem recoverCheckpoints_perm {explicit explicit' : List KafkaCheckpoint} {records records' : List TransactionRecord}
    (hexplicit : explicit.Perm explicit') (hrecords : records.Perm records') :
    (recoverCheckpoints explicit records).Perm (recoverCheckpoints explicit' records') := by
  unfold recoverCheckpoints
  by_cases hnil : explicit = []
  · rw [if_neg (not_not_intro hnil), if_neg (not_not_intro (hexplicit.symm.trans (hnil ▸ .refl _)).eq_nil),
      hrecords.foldl_eq]
  · have hnil' : explicit' ≠ [] := by
      rintro rfl
      exact hnil hexplicit.eq_nil
    rwa [if_pos hnil, if_pos hnil']

/-- Nor to the cache, if there is one record for each transaction. -/
private theorem cache_perm {records records' : List TransactionRecord} (hrecords : records.Perm records')
    (hnodup : (records.map TransactionRecord.transactionId).Nodup) (cache : InMemoryTransactionCache) :
    records.foldl (fun cache record => cache.setStatus record.transactionId record.status) cache =
      records'.foldl (fun cache record => cache.setStatus record.transactionId record.status) cache := by
  refine hrecords.foldl_eq' (fun a ha b hb cache => ?_) cache
  by_cases hid : a.transactionId = b.transactionId
  · rw [List.inj_on_of_nodup_map hnodup ha hb hid]
  · exact congrArg InMemoryTransactionCache.mk (insert_comm _ hid _ _)

end RecoveryService

/-! ### Both repositories after the same calls -/

/-- The topic and partition that a checkpoint is for. -/
def KafkaCheckpoint.key (checkpoint : KafkaCheckpoint) : String :=
  RecoveryService.checkpointKey checkpoint.topic checkpoint.partition

theorem KafkaCheckpoint.key_eq_iff {a b : KafkaCheckpoint} :
    a.key = b.key ↔ a.topic = b.topic ∧ a.partition = b.partition := RecoveryService.checkpointKey_eq_iff

theorem KafkaCheckpoint.same_iff {a b : KafkaCheckpoint} :
    decide (a.topic = b.topic ∧ a.partition = b.partition) = true ↔ a.key = b.key :=
  decide_eq_true_iff.trans key_eq_iff.symm

theorem saveCheckpoint_checkpoints (repository : InMemoryTransactionRepository) (checkpoint : KafkaCheckpoint) :
    (repository.saveCheckpoint checkpoint).checkpoints =
      upsert (fun c => decide (c.topic = checkpoint.topic ∧ c.partition = checkpoint.partition))
        (fun c => { c with offset := checkpoint.offset }) checkpoint repository.checkpoints := by
  unfold InMemoryTransactionRepository.saveCheckpoint upsert
  cases repository.checkpoints.find? fun c =>
    decide (c.topic = checkpoint.topic ∧ c.partition = checkpoint.partition) <;> rfl

/-- What holds of the list and the map when both have taken `calls`. -/
structure TakenBy (calls : List TransactionCall) (memory : InMemoryTransactionRepository)
    (file : PostgresTransactionRepository) : Prop where
  ids : ∀ id, id ∈ memory.records.map TransactionRecord.transactionId ↔ ∃ c ∈ calls, c.transactionId = some id
  distinct : (memory.records.map TransactionRecord.transactionId).Nodup ↔ FirstReceipts calls
  keys : ∀ (id : String) (r : TransactionRecord), file.records[id]? = some r → r.transactionId = id
  records : FirstReceipts calls → Lists TransactionRecord.transactionId memory.records file.records
  checkpoints : Lists KafkaCheckpoint.key memory.checkpoints file.checkpoints

private theorem firstReceipts_concat {calls : List TransactionCall} {call : TransactionCall} :
    FirstReceipts (calls ++ [call]) ↔ FirstReceipts calls ∧ ∀ c ∈ calls, ∀ command,
      call = .saveReceived command → c.transactionId ≠ some command.transactionId := by
  unfold FirstReceipts
  rw [List.pairwise_append]
  simp only [List.pairwise_singleton, true_and, List.mem_singleton, forall_eq]

namespace TakenBy

variable {calls : List TransactionCall} {memory : InMemoryTransactionRepository}
  {file : PostgresTransactionRepository}

theorem empty : TakenBy [] {} {} :=
  ⟨fun id => by simp, iff_of_true .nil .nil, fun id r h => by simp at h, fun _ => .empty _, .empty _⟩

private theorem mem_concat {id : String} {call : TransactionCall} :
    (∃ c ∈ calls ++ [call], c.transactionId = some id) ↔
      (∃ c ∈ calls, c.transactionId = some id) ∨ call.transactionId = some id := by
  simp only [List.mem_append, List.mem_singleton, or_and_right, exists_or, exists_eq_left]

variable (h : TakenBy calls memory file)
include h

theorem saveReceived (command : TransactionCommand) :
    TakenBy (calls ++ [.saveReceived command]) (memory.saveReceived command) (file.saveReceived command) := by
  have hnew : FirstReceipts (calls ++ [.saveReceived command]) ↔
      FirstReceipts calls ∧ command.transactionId ∉ memory.records.map TransactionRecord.transactionId := by
    rw [firstReceipts_concat, h.ids, not_exists]
    refine and_congr_right fun _ => forall_congr' fun c => ?_
    rw [not_and]
    refine imp_congr_right fun _ => ?_
    constructor
    · exact fun hne => hne command rfl
    · rintro hne _ ⟨⟩
      exact hne
  refine ⟨fun id => ?_, ?_, forall_insert h.keys rfl, fun hfirst => ?_, h.checkpoints⟩
  · rw [mem_concat, ← h.ids, InMemoryTransactionRepository.saveReceived, List.map_append, List.mem_append]
    refine or_congr_right ?_
    rw [List.map_singleton, List.mem_singleton, TransactionCall.transactionId, Option.some.injEq, eq_comm]
  · rw [hnew, ← h.distinct, InMemoryTransactionRepository.saveReceived, List.map_append, List.map_singleton,
      ← List.concat_eq_append, List.nodup_concat, and_comm]
  · obtain ⟨hbefore, hid⟩ := hnew.1 hfirst
    have happend := (h.records hbefore).append (a :=
      { transactionId := command.transactionId
        status := "received"
        kafkaTopic := command.kafkaTopic
        kafkaPartition := command.kafkaPartition
        kafkaOffset := command.kafkaOffset }) hid
    exact happend

theorem saveProcessed (transactionId status : String) :
    TakenBy (calls ++ [.saveProcessed transactionId status]) (memory.saveProcessed transactionId status)
      (file.saveProcessed transactionId status) := by
  have hp : ∀ r : TransactionRecord, decide (r.transactionId = transactionId) = true ↔
      r.transactionId = transactionId := fun _ => decide_eq_true_iff
  have hupsert : (memory.saveProcessed transactionId status).records =
      KeyedList.upsert (fun r => decide (r.transactionId = transactionId)) (fun r => { r with status := status })
        { transactionId := transactionId, status := status } memory.records := by
    unfold InMemoryTransactionRepository.saveProcessed KeyedList.upsert
    cases memory.records.find? fun r => decide (r.transactionId = transactionId) <;> rfl
  have hinsert : (file.saveProcessed transactionId status).records = file.records.insert transactionId
      ((file.records[transactionId]?.map fun r => { r with status := status }).getD
        { transactionId := transactionId, status := status }) := by
    unfold PostgresTransactionRepository.saveProcessed
    cases file.records[transactionId]? with
    | none => simp only [Option.map_none, Option.getD_none]
    | some r => simp only [Option.map_some, Option.getD_some]
  have hkeys := map_key_upsert (fun r => { r with status := status })
    { transactionId := transactionId, status := status } hp (fun _ hr => hr) rfl memory.records
  -- a transaction that is processed need not have been received: both repositories then make a record
  have hnew : FirstReceipts (calls ++ [.saveProcessed transactionId status]) ↔ FirstReceipts calls :=
    firstReceipts_concat.trans (and_iff_left fun _ _ _ heq => nomatch heq)
  refine ⟨fun id => ?_, ?_, ?_, fun hfirst => ?_, h.checkpoints⟩
  · rw [mem_concat, ← h.ids, hupsert, hkeys, TransactionCall.transactionId, Option.some.injEq]
    split
    · rename_i hmem
      exact (or_iff_left_of_imp fun heq => heq ▸ hmem).symm
    · rw [List.mem_append, List.mem_singleton, @eq_comm _ id]
  · rw [hnew, ← h.distinct, hupsert, hkeys]
    split
    · exact Iff.rfl
    · rename_i hmem
      rw [← List.concat_eq_append, List.nodup_concat]
      exact and_iff_right hmem
  · rw [hinsert]
    refine forall_insert h.keys ?_
    cases hget : file.records[transactionId]? with
    | none => rfl
    | some r => exact h.keys transactionId r hget
  · rw [hupsert, hinsert]
    exact (h.records (hnew.1 hfirst)).upsert (fun r => { r with status := status })
      { transactionId := transactionId, status := status } hp (fun _ hr => hr) rfl

theorem saveCheckpoint (checkpoint : KafkaCheckpoint) :
    TakenBy (calls ++ [.saveCheckpoint checkpoint]) (memory.saveCheckpoint checkpoint)
      (file.saveCheckpoint checkpoint) := by
  have hnew : FirstReceipts (calls ++ [.saveCheckpoint checkpoint]) ↔ FirstReceipts calls :=
    firstReceipts_concat.trans (and_iff_left fun _ _ _ heq => nomatch heq)
  refine ⟨fun id => ?_, h.distinct.trans hnew.symm, h.keys, fun hfirst => h.records (hnew.1 hfirst), ?_⟩
  · rw [mem_concat, ← h.ids]
    exact (or_iff_left (nofun)).symm
  · -- overwriting the offset of a checkpoint for the same partition gives the new checkpoint
    have hupsert := h.checkpoints.upsert (fun c => { c with offset := checkpoint.offset }) checkpoint
      (p := fun c => decide (c.topic = checkpoint.topic ∧ c.partition = checkpoint.partition)) (k := checkpoint.key)
      (fun _ => KafkaCheckpoint.same_iff) (fun _ hc => hc) rfl
    have hwrite : (file.checkpoints[checkpoint.key]?.map fun c => { c with offset := checkpoint.offset }).getD
        checkpoint = checkpoint := by
      cases hget : file.checkpoints[checkpoint.key]? with
      | none => rfl
      | some c =>
        obtain ⟨htopic, hpartition⟩ := KafkaCheckpoint.key_eq_iff.1 ((h.checkpoints.get _ c).1 hget).2
        rw [Option.map_some, Option.getD_some, htopic, hpartition]
    rw [hwrite] at hupsert
    rw [saveCheckpoint_checkpoints]
    exact hupsert

end TakenBy

private theorem takenBy_foldl (calls : List TransactionCall) :
    TakenBy calls (calls.foldl InMemoryTransactionRepository.call {})
      (calls.foldl PostgresTransactionRepository.call {}) := by
  induction calls using List.reverseRecOn with
  | nil => exact .empty
  | append_singleton calls call ih =>
    rw [List.foldl_append, List.foldl_append]
    cases call with
    | saveReceived command => exact ih.saveReceived command
    | saveProcessed transactionId status => exact ih.saveProcessed transactionId status
    | saveCheckpoint checkpoint => exact ih.saveCheckpoint checkpoint

/-! ### Interchangeable repositories -/

/-- The two repositories hold the same records, one for each transaction, and the same checkpoints, and a recovery
derives the same checkpoints and statuses from both. -/
structure Interchangeable (memory : InMemoryTransactionRepository) (file : PostgresTransactionRepository) : Prop where
  records : memory.allRecords.Perm file.allRecords
  distinct : (memory.allRecords.map TransactionRecord.transactionId).Nodup
  checkpoints : memory.allCheckpoints.Perm file.allCheckpoints
  recovery : ∀ (service : RecoveryService) (iteration : service.Iteration) (exchangeSnapshots : List MarketSnapshot),
    service.transactionRepository = file →
    let derived := RecoveryService.recoverTransactions memory.allRecords memory.allCheckpoints service.transactionCache
    (service.recover iteration exchangeSnapshots).1.kafkaCheckpoints.Perm derived.1 ∧
      (service.recover iteration exchangeSnapshots).2.transactionCache = derived.2

/-- After any calls, the in-memory and the file-backed repository are interchangeable exactly if no transaction was
reported as received after an earlier call had named it. -/
theorem interchangeable_iff (calls : List TransactionCall) :
    Interchangeable (calls.foldl InMemoryTransactionRepository.call {})
      (calls.foldl PostgresTransactionRepository.call {}) ↔ FirstReceipts calls := by
  have h := takenBy_foldl calls
  constructor
  · exact fun hsame => h.distinct.1 hsame.distinct
  · intro hfirst
    have hrecords := (h.records hfirst).perm
    have hdistinct := h.distinct.2 hfirst
    refine ⟨hrecords, hdistinct, h.checkpoints.perm, ?_⟩
    rintro service iteration exchangeSnapshots hfile
    have hread : iteration.records.Perm (calls.foldl InMemoryTransactionRepository.call {}).allRecords :=
      (hfile ▸ iteration.records_perm).trans hrecords.symm
    have hexplicit : iteration.checkpoints.Perm (calls.foldl InMemoryTransactionRepository.call {}).allCheckpoints :=
      (hfile ▸ iteration.checkpoints_perm).trans h.checkpoints.perm.symm
    have hrecovered := Prod.mk.inj (service.recover_transactions iteration exchangeSnapshots)
    rw [hrecovered.1, hrecovered.2]
    exact ⟨RecoveryService.recoverCheckpoints_perm hexplicit hread,
      RecoveryService.cache_perm hread ((hread.map _).nodup_iff.2 hdistinct) _⟩

/-- A transaction redelivered after it was processed: the list keeps both records, the map only the second. -/
theorem not_interchangeable_of_redelivery :
    let command : TransactionCommand := { transactionId := "tx-1", kafkaTopic := "transactions", kafkaOffset := 7 }
    let calls : List TransactionCall :=
      [.saveReceived command, .saveProcessed "tx-1" "processed", .saveReceived command]
    ¬ Interchangeable (calls.foldl InMemoryTransactionRepository.call {})
      (calls.foldl PostgresTransactionRepository.call {}) := by
  intro command calls h
  have hlength := h.records.length_eq
  revert hlength
  decide +kernel

end Wall
