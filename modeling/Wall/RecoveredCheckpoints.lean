import Wall.Lib.Decimal
import Wall.Lib.Getline
import Wall.RecoveryService

/-!
# The checkpoints of a recovery

Without explicit checkpoints a recovery resumes each partition after the largest offset of its processed records:
every checkpoint comes from a processed record (`exists_record_of_checkpoint`), and every processed record has a
checkpoint of its partition at its offset or above it (`exists_checkpoint_of_record`).
-/

namespace Wall

namespace RecoveryService

open Std (ExtTreeMap)

/-- The last `#` of a key separates the topic from the digits of the partition. -/
theorem checkpointKey_eq_iff {topic topic' : String} {p q : Int} :
    checkpointKey topic p = checkpointKey topic' q ↔ topic = topic' ∧ p = q := by
  have hdigits : ∀ n : Int, '#' ∉ (toString n).toList := by
    intro n hn
    rcases Decimal.isDigit_of_mem_toString hn with h | h <;> exact absurd h (by decide)
  have hlist : ∀ (t : String) (n : Int), (checkpointKey t n).toList = t.toList ++ '#' :: (toString n).toList := by
    intro t n
    simp [checkpointKey]
  constructor
  · intro h
    have heq := congrArg String.toList h
    rw [hlist, hlist] at heq
    obtain ⟨htopic, hpartition⟩ := Getline.eq_of_last_delimiter (hdigits p) (hdigits q) heq
    exact ⟨String.toList_injective htopic, Decimal.toString_injective (String.toList_injective hpartition)⟩
  · rintro ⟨rfl, rfl⟩
    rfl

/-- The checkpoints cover the records that the loop has read: each comes from a processed record with its key, and no
processed record lies above the checkpoint of its key. -/
structure Covers (checkpoints : StringMap KafkaCheckpoint) (records : List TransactionRecord) : Prop where
  sound : ∀ key checkpoint, checkpoints[key]? = some checkpoint → ∃ record ∈ records,
    record.status = "processed" ∧ key = checkpointKey record.kafkaTopic record.kafkaPartition ∧
      checkpoint = checkpointOf record
  complete : ∀ record ∈ records, record.status = "processed" → ∃ checkpoint,
    checkpoints[checkpointKey record.kafkaTopic record.kafkaPartition]? = some checkpoint ∧
      record.kafkaOffset ≤ checkpoint.offset

/-- Writing the checkpoint of a record that lies above what its key had. -/
private theorem Covers.insert {checkpoints : StringMap KafkaCheckpoint} {records : List TransactionRecord}
    {record : TransactionRecord} (h : Covers checkpoints records) (hprocessed : record.status = "processed")
    (habove : ∀ checkpoint, checkpoints[checkpointKey record.kafkaTopic record.kafkaPartition]? = some checkpoint →
      checkpoint.offset ≤ record.kafkaOffset) :
    Covers (checkpoints.insert (checkpointKey record.kafkaTopic record.kafkaPartition) (checkpointOf record))
      (records ++ [record]) where
  sound key checkpoint hkey := by
    rw [KeyedMap.getElem?_insert] at hkey
    split at hkey
    · rename_i hsame
      cases hkey
      exact ⟨record, by simp, hprocessed, hsame.symm, rfl⟩
    · obtain ⟨r, hr, hrecord⟩ := h.sound key checkpoint hkey
      exact ⟨r, List.mem_append_left _ hr, hrecord⟩
  complete r hr hstatus := by
    rw [KeyedMap.getElem?_insert]
    rcases List.mem_append.1 hr with hr | hr
    · obtain ⟨checkpoint, hcheckpoint, hle⟩ := h.complete r hr hstatus
      split
      · rename_i hsame
        exact ⟨checkpointOf record, rfl, hle.trans (habove checkpoint (hsame ▸ hcheckpoint))⟩
      · exact ⟨checkpoint, hcheckpoint, hle⟩
    · rw [List.mem_singleton.1 hr, if_pos rfl]
      exact ⟨checkpointOf record, rfl, le_rfl⟩

/-- A record that changes nothing. -/
private theorem Covers.skip {checkpoints : StringMap KafkaCheckpoint} {records : List TransactionRecord}
    {record : TransactionRecord} (h : Covers checkpoints records)
    (hbelow : record.status = "processed" → ∃ checkpoint,
      checkpoints[checkpointKey record.kafkaTopic record.kafkaPartition]? = some checkpoint ∧
        record.kafkaOffset ≤ checkpoint.offset) :
    Covers checkpoints (records ++ [record]) where
  sound key checkpoint hkey := by
    obtain ⟨r, hr, hrecord⟩ := h.sound key checkpoint hkey
    exact ⟨r, List.mem_append_left _ hr, hrecord⟩
  complete r hr hstatus := by
    rcases List.mem_append.1 hr with hr | hr
    · exact h.complete r hr hstatus
    · cases List.mem_singleton.1 hr
      exact hbelow hstatus

theorem Covers.noteProcessed {checkpoints : StringMap KafkaCheckpoint} {records : List TransactionRecord}
    (h : Covers checkpoints records) (record : TransactionRecord) :
    Covers (noteProcessed checkpoints record) (records ++ [record]) := by
  unfold RecoveryService.noteProcessed
  split
  · rename_i hstatus
    exact h.skip fun hprocessed => absurd hprocessed hstatus
  · rename_i hstatus
    have hprocessed : record.status = "processed" := not_not.1 hstatus
    dsimp only
    cases hold : checkpoints[checkpointKey record.kafkaTopic record.kafkaPartition]? with
    | none => exact h.insert hprocessed (by simp [hold])
    | some checkpoint =>
      dsimp only
      split
      · rename_i hgt
        refine h.insert hprocessed fun c hc => ?_
        cases hold.symm.trans hc
        exact le_of_lt hgt
      · rename_i hle
        exact h.skip fun _ => ⟨checkpoint, hold, not_lt.1 hle⟩

/-- The loop that derives the checkpoints covers all records. -/
theorem covers_foldl (records : List TransactionRecord) :
    Covers (records.foldl RecoveryService.noteProcessed ∅) records := by
  suffices ∀ read checkpoints, Covers checkpoints read →
      Covers (records.foldl RecoveryService.noteProcessed checkpoints) (read ++ records) from
    this [] ∅ { sound := by simp, complete := by simp }
  induction records with
  | nil => intro read checkpoints h; simpa using h
  | cons record records ih =>
    intro read checkpoints h
    have hnext := ih (read ++ [record]) _ (h.noteProcessed record)
    rwa [List.append_assoc, List.singleton_append] at hnext

theorem mem_recoverCheckpoints {records : List TransactionRecord} {checkpoint : KafkaCheckpoint} :
    checkpoint ∈ recoverCheckpoints [] records ↔
      ∃ key : String, (records.foldl RecoveryService.noteProcessed ∅)[key]? = some checkpoint := by
  rw [recoverCheckpoints, if_neg (by simp), List.mem_map]
  constructor
  · rintro ⟨⟨key, _⟩, hmem, rfl⟩
    exact ⟨key, ExtTreeMap.mem_toList_iff_getElem?_eq_some.1 hmem⟩
  · rintro ⟨key, hkey⟩
    exact ⟨(key, checkpoint), ExtTreeMap.mem_toList_iff_getElem?_eq_some.2 hkey, rfl⟩

/-- Every checkpoint comes from a processed record. -/
theorem exists_record_of_checkpoint {records : List TransactionRecord} {checkpoint : KafkaCheckpoint}
    (h : checkpoint ∈ recoverCheckpoints [] records) :
    ∃ record ∈ records, record.status = "processed" ∧ checkpoint = checkpointOf record := by
  obtain ⟨key, hkey⟩ := mem_recoverCheckpoints.1 h
  obtain ⟨record, hrecord, hstatus, -, hcheckpoint⟩ := (covers_foldl records).sound key checkpoint hkey
  exact ⟨record, hrecord, hstatus, hcheckpoint⟩

/-- Records of one topic: every processed one has a checkpoint of its partition at its offset or above it. -/
theorem exists_checkpoint_of_record {records : List TransactionRecord} {topic : String}
    (htopic : ∀ record ∈ records, record.status = "processed" → record.kafkaTopic = topic) {record : TransactionRecord}
    (hrecord : record ∈ records) (hstatus : record.status = "processed") :
    ∃ checkpoint ∈ recoverCheckpoints [] records, checkpoint.topic = topic ∧
      checkpoint.partition = record.kafkaPartition ∧ record.kafkaOffset ≤ checkpoint.offset := by
  obtain ⟨checkpoint, hkey, hle⟩ := (covers_foldl records).complete record hrecord hstatus
  obtain ⟨r, hr, hprocessed, hsame, rfl⟩ := (covers_foldl records).sound _ _ hkey
  rw [htopic r hr hprocessed, htopic record hrecord hstatus] at hsame
  exact ⟨checkpointOf r, mem_recoverCheckpoints.2 ⟨_, hkey⟩, htopic r hr hprocessed,
    (checkpointKey_eq_iff.1 hsame).2.symm, hle⟩

end RecoveryService

end Wall
