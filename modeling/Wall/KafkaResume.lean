import Wall.RecoveryService

/-!
# Resuming the Kafka consumer

`RdKafkaConsumerClient::seek` of `infrastructure/kafka_transaction_consumer.cpp`, and `resume_kafka` over it.  What
the client calls of librdkafka is a parameter (`RdKafka`): a consumer has an assignment, which `rd_kafka_assign`
replaces as a whole, and a position in each assigned partition, which `rd_kafka_seek_partitions` sets
(`RdKafka.Documented`).  Each seek of a recovery assigns its own partition alone, so of several partitions only the
last one stays assigned (`resumed_iff`).
-/

namespace Wall

/-- An entry of a partition list. -/
structure TopicPartition where
  topic : String
  partition : Int
  offset : Int
  deriving DecidableEq, Repr

def TopicPartition.key (entry : TopicPartition) : String × Int := (entry.topic, entry.partition)

/-- The library as the client sees it: two calls, which fail with a text, and what they act on. -/
structure RdKafka (κ : Type*) where
  assign : κ → List TopicPartition → Except String κ
  seekPartitions : κ → List TopicPartition → (timeoutMs : Nat) → Except String κ
  assigned : κ → String × Int → Prop
  position : κ → String × Int → Option Int

/-- What the library documents of calls that it accepts: `assign` replaces the whole assignment by the list, and
`seekPartitions` sets the positions of the assigned partitions that it is given and leaves the rest alone. -/
structure RdKafka.Documented {κ : Type*} (rd : RdKafka κ) : Prop where
  assign : ∀ consumer entries, ∃ consumer', rd.assign consumer entries = .ok consumer' ∧
    ∀ key, rd.assigned consumer' key ↔ key ∈ entries.map TopicPartition.key
  seekPartitions : ∀ consumer entries timeoutMs, (entries.map TopicPartition.key).Nodup →
    (∀ entry ∈ entries, rd.assigned consumer entry.key) →
    ∃ consumer', rd.seekPartitions consumer entries timeoutMs = .ok consumer' ∧
      (∀ key, rd.assigned consumer' key ↔ rd.assigned consumer key) ∧
      (∀ entry ∈ entries, rd.position consumer' entry.key = some entry.offset) ∧
      ∀ key, key ∉ entries.map TopicPartition.key → rd.position consumer' key = rd.position consumer key

/-- A consumer that is the list of its assigned partitions with the positions in them. -/
def listConsumer : RdKafka (List TopicPartition) where
  assign _ entries := .ok entries
  seekPartitions consumer entries _ :=
    .ok (consumer.map fun a => (entries.find? fun e => decide (e.key = a.key)).getD a)
  assigned consumer key := key ∈ consumer.map TopicPartition.key
  position consumer key := (consumer.find? fun a => decide (a.key = key)).map TopicPartition.offset

private theorem listConsumer_documented : listConsumer.Documented where
  assign _ entries := ⟨entries, rfl, fun _ => Iff.rfl⟩
  seekPartitions consumer entries timeoutMs hnodup hassigned := by
    have hkey : ∀ a, ((entries.find? fun e => decide (e.key = a.key)).getD a).key = a.key := by
      intro a
      cases hfind : entries.find? fun e => decide (e.key = a.key) with
      | none => rfl
      | some e => simpa using List.find?_some hfind
    -- a partition is found at the same place before and after, with the entry for it in the place of the old one
    have hposition : ∀ key, (consumer.map fun a => (entries.find? fun e => decide (e.key = a.key)).getD a).find?
        (fun a => decide (a.key = key)) = (consumer.find? fun a => decide (a.key = key)).map
          fun a => (entries.find? fun e => decide (e.key = a.key)).getD a := by
      intro key
      rw [List.find?_map]
      simp only [Function.comp_def, hkey]
    refine ⟨_, rfl, fun key => ?_, fun entry hentry => ?_, fun key hkey' => ?_⟩
    · show key ∈ (consumer.map _).map TopicPartition.key ↔ key ∈ consumer.map TopicPartition.key
      rw [List.map_map]
      simp only [Function.comp_def, hkey]
    · obtain ⟨a, ha, hsame⟩ := List.mem_map.1 (hassigned entry hentry)
      show ((consumer.map _).find? _).map TopicPartition.offset = some entry.offset
      rw [hposition]
      cases hfind : consumer.find? fun a => decide (a.key = entry.key) with
      | none => exact absurd (decide_eq_true hsame) (List.find?_eq_none.1 hfind a ha)
      | some b =>
        have hb : b.key = entry.key := by simpa using List.find?_some hfind
        rw [Option.map_some, Option.map_some, hb]
        cases hfound : entries.find? fun e => decide (e.key = entry.key) with
        | none => exact absurd (decide_eq_true rfl) (List.find?_eq_none.1 hfound entry hentry)
        | some e =>
          have he : e.key = entry.key := by simpa using List.find?_some hfound
          rw [Option.getD_some,
            List.inj_on_of_nodup_map hnodup (List.mem_of_find?_eq_some hfound) hentry he]
    · show ((consumer.map _).find? _).map TopicPartition.offset = (consumer.find? _).map TopicPartition.offset
      rw [hposition]
      cases hfind : consumer.find? fun a => decide (a.key = key) with
      | none => rfl
      | some b =>
        have hb : b.key = key := by simpa using List.find?_some hfind
        have hnone : (entries.find? fun e => decide (e.key = b.key)) = none := by
          rw [List.find?_eq_none]
          intro e he hsame
          exact hkey' (hb ▸ of_decide_eq_true hsame ▸ List.mem_map_of_mem he)
        rw [Option.map_some, hnone, Option.getD_none]

namespace RdKafkaConsumerClient

variable {κ : Type*} (rd : RdKafka κ)

def seek (consumer : κ) (topic : String) (partition nextOffset : Int) : Except String κ :=
  let offsets : List TopicPartition := [{ topic := topic, partition := partition, offset := nextOffset }]
  match rd.assign consumer offsets with
  | .error assignError => .error ("Kafka assign failed during recovery: " ++ assignError)
  | .ok consumer =>
    match rd.seekPartitions consumer offsets 5000 with
    | .error message => .error ("Kafka seek failed during recovery: " ++ message)
    | .ok consumer => .ok consumer

/-- `resume_kafka` over this client. -/
def resume (consumer : κ) (snapshot : RecoverySnapshot) : Except String κ :=
  (RecoveryService.resumeKafka snapshot).foldlM
    (fun consumer (s : RecoveryService.Seek) => seek rd consumer s.topic s.partition s.nextOffset) consumer

/-- The consumer is assigned every partition with a checkpoint and stands behind the checkpoint there. -/
def Resumed (consumer : κ) (checkpoints : List KafkaCheckpoint) : Prop :=
  ∀ c ∈ checkpoints, rd.assigned consumer (c.topic, c.partition) ∧
    rd.position consumer (c.topic, c.partition) = some (c.offset + 1)

section Documented

variable {rd} (h : rd.Documented)
include h

/-- After a seek its partition is the only one assigned. -/
private theorem seek_spec (consumer : κ) (topic : String) (partition nextOffset : Int) :
    ∃ consumer', seek rd consumer topic partition nextOffset = .ok consumer' ∧
      (∀ key, rd.assigned consumer' key ↔ key = (topic, partition)) ∧
      rd.position consumer' (topic, partition) = some nextOffset := by
  obtain ⟨assignedOnly, hassign, honly⟩ := h.assign consumer [⟨topic, partition, nextOffset⟩]
  have hlisted : ∀ entry ∈ [(⟨topic, partition, nextOffset⟩ : TopicPartition)],
      rd.assigned assignedOnly entry.key := fun entry hentry => (honly _).2 (List.mem_map_of_mem hentry)
  obtain ⟨positioned, hseek, hsame, hpositions, -⟩ :=
    h.seekPartitions assignedOnly [⟨topic, partition, nextOffset⟩] 5000 (List.nodup_singleton _) hlisted
  refine ⟨positioned, by simp only [seek, hassign, hseek], fun key => ?_, hpositions _ (List.mem_singleton_self _)⟩
  rw [hsame, honly, List.map_singleton, List.mem_singleton]
  rfl

/-- After several seeks the partition of the last one is the only one assigned. -/
private theorem seeks_spec (seeks : List RecoveryService.Seek) (consumer : κ) :
    ∃ consumer', seeks.foldlM
        (fun consumer (s : RecoveryService.Seek) => seek rd consumer s.topic s.partition s.nextOffset) consumer =
        .ok consumer' ∧
      ∀ s ∈ seeks.getLast?, (∀ key, rd.assigned consumer' key ↔ key = (s.topic, s.partition)) ∧
        rd.position consumer' (s.topic, s.partition) = some s.nextOffset := by
  induction seeks generalizing consumer with
  | nil => exact ⟨consumer, rfl, nofun⟩
  | cons s seeks ih =>
    obtain ⟨next, hseek, honly, hposition⟩ := seek_spec h consumer s.topic s.partition s.nextOffset
    obtain ⟨consumer', hrest, hlast⟩ := ih next
    refine ⟨consumer', by rw [List.foldlM_cons, hseek]; exact hrest, fun t ht => ?_⟩
    cases seeks with
    | nil =>
      rw [List.getLast?_singleton, Option.mem_some_iff] at ht
      cases hrest
      exact ht ▸ ⟨honly, hposition⟩
    | cons s' seeks =>
      rw [List.getLast?_cons_cons] at ht
      exact hlast t ht

/-- A recovery whose checkpoints are for distinct partitions leaves the consumer assigned to all of them, each behind
its checkpoint, exactly if there is at most one. -/
theorem resumed_iff (consumer : κ) (snapshot : RecoverySnapshot)
    (hdistinct : (snapshot.kafkaCheckpoints.map fun c => (c.topic, c.partition)).Nodup) :
    (∃ consumer', resume rd consumer snapshot = .ok consumer' ∧ Resumed rd consumer' snapshot.kafkaCheckpoints) ↔
      snapshot.kafkaCheckpoints.length ≤ 1 := by
  obtain ⟨consumer', hresume, hlast⟩ := seeks_spec h (RecoveryService.resumeKafka snapshot) consumer
  rw [RecoveryService.resumeKafka, List.getLast?_map] at hlast
  constructor
  · rintro ⟨consumer'', hresume', hall⟩
    cases hresume.symm.trans hresume'
    by_contra hlong
    -- the first checkpoint is not the last one, so its partition is no longer assigned
    obtain ⟨first, rest, hcs⟩ := List.exists_cons_of_length_pos (show 0 < snapshot.kafkaCheckpoints.length by omega)
    rw [hcs] at hlong hdistinct hall hlast
    have hrest : rest ≠ [] := by
      rintro rfl
      exact hlong le_rfl
    rw [List.getLast?_cons, List.getLast?_eq_some_getLast hrest, Option.getD_some] at hlast
    obtain ⟨honly, -⟩ := hlast _ rfl
    have hfirst := (honly _).1 (hall first (List.mem_cons_self ..)).1
    rw [List.map_cons, List.nodup_cons] at hdistinct
    exact hdistinct.1 (List.mem_map.2 ⟨_, List.getLast_mem hrest, hfirst.symm⟩)
  · intro hshort
    refine ⟨consumer', hresume, fun c hc => ?_⟩
    obtain ⟨a, hcs⟩ := List.length_eq_one_iff.1 (le_antisymm hshort (List.length_pos_of_mem hc))
    rw [hcs, List.mem_singleton] at hc
    rw [hcs] at hlast
    obtain ⟨honly, hposition⟩ := hlast _ rfl
    exact hc ▸ ⟨(honly _).2 rfl, hposition⟩

end Documented

/-- Two partitions of one topic. -/
def exampleSnapshot : RecoverySnapshot where
  kafkaCheckpoints :=
    [{ topic := "transactions", partition := 0, offset := 5 }, { topic := "transactions", partition := 1, offset := 7 }]

theorem resumed_iff_exampleSnapshot :
    (∃ consumer', resume listConsumer [] exampleSnapshot = .ok consumer' ∧
      Resumed listConsumer consumer' exampleSnapshot.kafkaCheckpoints) ↔
    exampleSnapshot.kafkaCheckpoints.length ≤ 1 :=
  resumed_iff listConsumer_documented [] exampleSnapshot (by decide)

/-- After the two seeks only partition 1 is assigned. -/
theorem not_resumed_exampleSnapshot :
    ∃ consumer', resume listConsumer [] exampleSnapshot = .ok consumer' ∧
      ¬ Resumed listConsumer consumer' exampleSnapshot.kafkaCheckpoints := by
  refine ⟨[{ topic := "transactions", partition := 1, offset := 8 }], rfl, fun h => ?_⟩
  have hassigned : ("transactions", (0 : Int)) ∈
      [({ topic := "transactions", partition := 1, offset := 8 } : TopicPartition)].map TopicPartition.key :=
    (h { topic := "transactions", partition := 0, offset := 5 } (by decide)).1
  revert hassigned
  decide

end RdKafkaConsumerClient

end Wall
