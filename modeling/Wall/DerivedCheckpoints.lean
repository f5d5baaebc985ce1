import Wall.TransactionRepositories

/-!
# Derived checkpoints

Without explicit checkpoints a recovery keeps a running maximum for each key `topic#partition`.  The keys are
distinct for distinct partitions, so the checkpoints are exactly those whose offset is the largest among the processed
records of their partition (`derived_checkpoints`), in whatever order the repository iterates its records.
-/

namespace Wall

namespace RecoveryService

/-- The offsets of the processed records of a partition. -/
def processedOffsets (records : List TransactionRecord) (topic : String) (partition : Int) : Set Int :=
  {offset | ∃ record ∈ records, record.status = "processed" ∧ record.kafkaTopic = topic ∧
    record.kafkaPartition = partition ∧ record.kafkaOffset = offset}

/-- One checkpoint for each partition that has a processed record, at the largest offset of them. -/
structure DerivedFrom (records : List TransactionRecord) (checkpoints : List KafkaCheckpoint) : Prop where
  distinct : checkpoints.Pairwise fun a b => ¬ (a.topic = b.topic ∧ a.partition = b.partition)
  covered : ∀ topic partition, (∃ checkpoint ∈ checkpoints,
    checkpoint.topic = topic ∧ checkpoint.partition = partition) ↔ (processedOffsets records topic partition).Nonempty
  greatest : ∀ checkpoint ∈ checkpoints,
    IsGreatest (processedOffsets records checkpoint.topic checkpoint.partition) checkpoint.offset

/-- The checkpoint kept under a key is the largest of the partition that the key is made of. -/
private theorem Covers.isGreatest {checkpoints : StringMap KafkaCheckpoint} {records : List TransactionRecord}
    (h : Covers checkpoints records) {key : String} {checkpoint : KafkaCheckpoint}
    (hkey : checkpoints[key]? = some checkpoint) :
    checkpoint.key = key ∧
      IsGreatest (processedOffsets records checkpoint.topic checkpoint.partition) checkpoint.offset := by
  obtain ⟨record, hrecord, hstatus, rfl, rfl⟩ := h.sound key checkpoint hkey
  refine ⟨rfl, ⟨record, hrecord, hstatus, rfl, rfl, rfl⟩, ?_⟩
  rintro offset ⟨other, hother, hprocessed, htopic, hpartition, rfl⟩
  obtain ⟨kept, hkept, hle⟩ := h.complete other hother hprocessed
  -- both records are of one partition, so the checkpoint kept for the one is that kept for the other
  rw [checkpointKey_eq_iff.2 ⟨htopic, hpartition⟩] at hkept
  cases hkey.symm.trans hkept
  exact hle

private theorem pairwise_recoverCheckpoints (records : List TransactionRecord) :
    (recoverCheckpoints [] records).Pairwise fun a b => ¬ (a.topic = b.topic ∧ a.partition = b.partition) := by
  rw [recoverCheckpoints, if_neg (by simp), List.pairwise_map]
  refine Std.ExtTreeMap.distinct_keys_toList.imp_of_mem fun {a b} ha hb hne hsame => hne ?_
  have ha' := (covers_foldl records).isGreatest (Std.ExtTreeMap.mem_toList_iff_getElem?_eq_some.1 ha)
  have hb' := (covers_foldl records).isGreatest (Std.ExtTreeMap.mem_toList_iff_getElem?_eq_some.1 hb)
  rw [Std.compare_eq_iff_eq, ← ha'.1, ← hb'.1]
  exact KafkaCheckpoint.key_eq_iff.2 hsame

/-- Whatever the records are, the recovery derives one checkpoint for each partition with a processed record, at the
largest processed offset, and the order in which the records are read does not matter. -/
theorem derived_checkpoints (records : List TransactionRecord) (cache : InMemoryTransactionCache) :
    DerivedFrom records (recoverTransactions records [] cache).1 ∧
    ∀ records', records'.Perm records →
      (recoverTransactions records' [] cache).1.Perm (recoverTransactions records [] cache).1 := by
  refine ⟨⟨pairwise_recoverCheckpoints records, fun topic partition => ⟨?_, ?_⟩, fun checkpoint hmem => ?_⟩,
    fun records' hperm => ?_⟩
  · rintro ⟨checkpoint, hmem, rfl, rfl⟩
    obtain ⟨key, hkey⟩ := mem_recoverCheckpoints.1 hmem
    exact ⟨_, ((covers_foldl records).isGreatest hkey).2.1⟩
  · rintro ⟨offset, record, hrecord, hstatus, rfl, rfl, rfl⟩
    obtain ⟨checkpoint, hkey, -⟩ := (covers_foldl records).complete record hrecord hstatus
    have hsame : checkpoint.key = (checkpointOf record).key := ((covers_foldl records).isGreatest hkey).1
    exact ⟨checkpoint, mem_recoverCheckpoints.2 ⟨_, hkey⟩, KafkaCheckpoint.key_eq_iff.1 hsame⟩
  · obtain ⟨key, hkey⟩ := mem_recoverCheckpoints.1 hmem
    exact ((covers_foldl records).isGreatest hkey).2
  · exact recoverCheckpoints_perm (.refl []) hperm

end RecoveryService

end Wall
