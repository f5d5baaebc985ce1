import Wall.TransactionRepositories

/-!
# Explicit checkpoints

An explicit checkpoint is recorded for one partition, but a recovery takes the checkpoints of all partitions from one
source: from the explicit ones as soon as there is any, and from the processed records only if there is none.  So
the first explicit checkpoint takes every other partition's derived checkpoint away (`keepsOthers_iff`).
-/

namespace Wall

open KeyedList RecoveryService

/-- The checkpoint for a partition among those that a recovery returned. -/
def checkpointFor (checkpoints : List KafkaCheckpoint) (topic : String) (partition : Int) : Option KafkaCheckpoint :=
  checkpoints.find? fun c => decide (c.topic = topic ∧ c.partition = partition)

namespace InMemoryTransactionRepository

/-- The checkpoints that a recovery from this repository returns. -/
def recovered (repository : InMemoryTransactionRepository) : List KafkaCheckpoint :=
  recoverCheckpoints repository.allCheckpoints repository.allRecords

/-- Recording this checkpoint changes the recovered checkpoint of no other partition. -/
def KeepsOthers (repository : InMemoryTransactionRepository) (checkpoint : KafkaCheckpoint) : Prop :=
  ∀ topic partition, ¬ (topic = checkpoint.topic ∧ partition = checkpoint.partition) →
    checkpointFor (repository.saveCheckpoint checkpoint).recovered topic partition =
      checkpointFor repository.recovered topic partition

end InMemoryTransactionRepository

private theorem checkpointFor_eq_none {checkpoints : List KafkaCheckpoint} {topic : String} {partition : Int} :
    checkpointFor checkpoints topic partition = none ↔
      ∀ c ∈ checkpoints, ¬ (c.topic = topic ∧ c.partition = partition) := by
  rw [checkpointFor, List.find?_eq_none]
  exact forall₂_congr fun c _ => not_congr decide_eq_true_iff

/-- Without explicit checkpoints the partitions of the processed records have a checkpoint, and no others. -/
private theorem derived_eq_none {records : List TransactionRecord} {topic : String} {partition : Int} :
    checkpointFor (recoverCheckpoints [] records) topic partition = none ↔
      ∀ record ∈ records, record.status = "processed" →
        ¬ (record.kafkaTopic = topic ∧ record.kafkaPartition = partition) := by
  rw [checkpointFor_eq_none]
  constructor
  · rintro h record hrecord hstatus ⟨rfl, rfl⟩
    obtain ⟨c, hkey, -⟩ := (covers_foldl records).complete record hrecord hstatus
    obtain ⟨r, -, -, hsame, rfl⟩ := (covers_foldl records).sound _ _ hkey
    obtain ⟨htopic, hpartition⟩ := checkpointKey_eq_iff.1 hsame
    exact h _ (mem_recoverCheckpoints.2 ⟨_, hkey⟩) ⟨htopic.symm, hpartition.symm⟩
  · intro h c hc hplace
    obtain ⟨record, hrecord, hstatus, rfl⟩ := exists_record_of_checkpoint hc
    exact h record hrecord hstatus hplace

namespace InMemoryTransactionRepository

private theorem recovered_of_explicit {repository : InMemoryTransactionRepository} (h : repository.checkpoints ≠ []) :
    repository.recovered = repository.checkpoints := if_pos h

private theorem recovered_saveCheckpoint (repository : InMemoryTransactionRepository) (checkpoint : KafkaCheckpoint) :
    (repository.saveCheckpoint checkpoint).recovered = (repository.saveCheckpoint checkpoint).checkpoints :=
  recovered_of_explicit (by rw [saveCheckpoint_checkpoints]; exact upsert_ne_nil _ _ _ _)

/-- The explicit checkpoints of the other partitions stay. -/
private theorem checkpointFor_saveCheckpoint (repository : InMemoryTransactionRepository) {checkpoint : KafkaCheckpoint}
    {topic : String} {partition : Int} (hother : ¬ (topic = checkpoint.topic ∧ partition = checkpoint.partition)) :
    checkpointFor (repository.saveCheckpoint checkpoint).checkpoints topic partition =
      checkpointFor repository.checkpoints topic partition := by
  have hsame : ∀ c : KafkaCheckpoint,
      decide (c.topic = checkpoint.topic ∧ c.partition = checkpoint.partition) = true ↔ c.key = checkpoint.key :=
    fun _ => KafkaCheckpoint.same_iff
  rw [saveCheckpoint_checkpoints]
  refine find?_upsert_of_ne (fun c => { c with offset := checkpoint.offset }) checkpoint hsame (fun _ hc => hc) rfl
    (q := fun c => decide (c.topic = topic ∧ c.partition = partition)) (fun c hc hkey => hother ?_)
    repository.checkpoints
  rw [decide_eq_true_iff] at hc
  rw [← hc.1, ← hc.2]
  exact KafkaCheckpoint.key_eq_iff.1 hkey

/-- Recording a checkpoint changes the recovered checkpoint of no other partition exactly if there was an explicit
checkpoint before, or all processed records are of this partition. -/
theorem keepsOthers_iff (repository : InMemoryTransactionRepository) (checkpoint : KafkaCheckpoint) :
    repository.KeepsOthers checkpoint ↔
      repository.checkpoints ≠ [] ∨ ∀ record ∈ repository.records, record.status = "processed" →
        record.kafkaTopic = checkpoint.topic ∧ record.kafkaPartition = checkpoint.partition := by
  unfold KeepsOthers
  simp only [recovered_saveCheckpoint]
  by_cases hexplicit : repository.checkpoints = []
  · -- the first explicit checkpoint: the other partitions had derived ones
    have hafter : ∀ topic partition, ¬ (topic = checkpoint.topic ∧ partition = checkpoint.partition) →
        checkpointFor (repository.saveCheckpoint checkpoint).checkpoints topic partition = none := by
      intro topic partition hother
      rw [checkpointFor_saveCheckpoint repository hother, hexplicit]
      rfl
    have hbefore : repository.recovered = recoverCheckpoints [] repository.records := by
      rw [recovered, allCheckpoints, hexplicit, allRecords]
    rw [hbefore, or_iff_right (not_not_intro hexplicit)]
    constructor
    · intro h record hrecord hstatus
      by_contra hother
      have hnone := (h _ _ hother).symm.trans (hafter _ _ hother)
      exact derived_eq_none.1 hnone record hrecord hstatus ⟨rfl, rfl⟩
    · intro h topic partition hother
      rw [hafter topic partition hother, eq_comm, derived_eq_none]
      rintro record hrecord hstatus ⟨rfl, rfl⟩
      exact hother (h record hrecord hstatus)
  · refine iff_of_true (fun topic partition hother => ?_) (.inl hexplicit)
    rw [checkpointFor_saveCheckpoint repository hother, recovered_of_explicit hexplicit]

/-- Partition 2 has a processed record; recording a checkpoint for partition 1 leaves it without a checkpoint. -/
theorem not_keepsOthers_of_first :
    let record : TransactionRecord :=
      { transactionId := "tx-1"
        status := "processed"
        kafkaTopic := "transactions"
        kafkaPartition := 2
        kafkaOffset := 77 }
    let repository : InMemoryTransactionRepository := { records := [record] }
    ¬ repository.KeepsOthers { topic := "transactions", partition := 1, offset := 55 } := by
  intro record repository h
  have hsame := h "transactions" 2 (by decide)
  revert hsame
  decide +kernel

end InMemoryTransactionRepository

end Wall
