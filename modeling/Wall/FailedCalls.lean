import Wall.IngestionRecovery

/-!
# Calls that fail and are followed by others

A call that throws leaves its message recorded as received, and the consumer moves on.  As soon as a later call
completes, its commit and the checkpoint that a recovery derives lie above that message.  So a run keeps clear of its
unfinished messages exactly if no call completes above one that threw (`nothing_passed_iff`).
-/

namespace Wall

namespace TransactionIngestor

/-- No commit and no checkpoint of a recovery lies above a message of its partition whose durable status is
`received`. -/
def NothingPassed (world : World) : Prop :=
  ∀ (id : String) (record : TransactionRecord), world.repository.records[id]? = some record →
    record.status = "received" →
      (∀ position ∈ world.commitLog, position.topic = record.kafkaTopic →
        position.partition = record.kafkaPartition → position.offset ≤ record.kafkaOffset) ∧
      ∀ service : RecoveryService, service.transactionRepository = world.repository →
        ∀ (iteration : service.Iteration) (exchangeSnapshots : List MarketSnapshot),
          ∀ checkpoint ∈ (service.recover iteration exchangeSnapshots).1.kafkaCheckpoints,
            checkpoint.topic = record.kafkaTopic → checkpoint.partition = record.kafkaPartition →
              checkpoint.offset ≤ record.kafkaOffset

/-- A call with the message that it reads. -/
abbrev CallOn := CallOutcome × RawKafkaMessage

/-- Of two calls on one partition, the first does not lie above the second if it completes, and not below it if it
throws and the second completes.  Where the offsets increase, no call completes after one that threw. -/
def CompletesInOrder (calls : List CallOn) : Prop :=
  calls.Pairwise fun a b => a.2.partition = b.2.partition →
    (a.1 = .completes → a.2.offset ≤ b.2.offset) ∧
      (a.1 ≠ .completes → b.1 = .completes → b.2.offset ≤ a.2.offset)

/-- What a call does on its message. -/
def callEffects (consumer : KafkaTransactionConsumer) (call : CallOn) : List IngestEffect :=
  call.1.effects (messageEffects consumer call.2)

variable {consumer : KafkaTransactionConsumer} {message : RawKafkaMessage} {messages : List RawKafkaMessage}
  {command : TransactionCommand}

private theorem callEffects_begin (call : CallOn) : callEffects consumer call <+: messageEffects consumer call.2 :=
  List.takeWhile_prefix _

/-- The effects of a valid message. -/
private theorem messageEffects_publishable (h : publishable consumer message = some command) :
    messageEffects consumer message =
      [.delivered message, .savedReceived command, .cached command.transactionId "received", .published command,
        .savedProcessed command.transactionId (finalStatus command),
        .cached command.transactionId (finalStatus command), .committed message.position] := by
  obtain ⟨haccepted, hvalid⟩ := Option.filter_eq_some_iff.1 h
  obtain ⟨-, htopic, hpartition, hoffset⟩ := KafkaTransactionConsumer.commit_of_accepted haccepted
  have hcommit : KafkaTransactionConsumer.commit command = .committed message.position := by
    rw [KafkaTransactionConsumer.commit, htopic, hpartition, hoffset]
    rfl
  rw [messageEffects, haccepted]
  dsimp only
  rw [handle, if_pos hvalid, hcommit]
  rfl

/-- A call comes to the final status of a valid message exactly if it completes. -/
private theorem mem_callEffects_iff {call : CallOn} (h : publishable consumer call.2 = some command) :
    .savedProcessed command.transactionId (finalStatus command) ∈ callEffects consumer call ↔
      call.1 = .completes := by
  obtain ⟨outcome, message⟩ := call
  rw [callEffects, messageEffects_publishable h]
  cases outcome <;> simp [CallOutcome.effects, CallOutcome.throwsAt]

private theorem savedReceived_mem_callEffects {call : CallOn} (h : publishable consumer call.2 = some command) :
    .savedReceived command ∈ callEffects consumer call := by
  obtain ⟨outcome, message⟩ := call
  rw [callEffects, messageEffects_publishable h]
  cases outcome <;> simp [CallOutcome.effects, CallOutcome.throwsAt]

/-- Calls on accepted messages read one each. -/
private theorem runCalls_accepted (outcomes : List CallOutcome)
    (h : ∀ message ∈ messages, (consumer.accepted message).isSome) :
    runCalls consumer outcomes messages = (outcomes.zip messages).flatMap (callEffects consumer) := by
  induction outcomes generalizing messages with
  | nil => rfl
  | cons outcome outcomes ih =>
    cases messages with
    | nil =>
      rw [runCalls, List.zip_nil_right, List.flatMap_nil]
      exact (ih h).trans (by rw [List.zip_nil_right, List.flatMap_nil])
    | cons message messages =>
      obtain ⟨command, haccepted⟩ := Option.isSome_iff_exists.1 (h message (List.mem_cons_self ..))
      rw [runCalls, processNext_accepted haccepted, ih fun m hm => h m (List.mem_cons_of_mem _ hm)]
      rfl

private theorem zip_snd_prefix (outcomes : List CallOutcome) (messages : List RawKafkaMessage) :
    (outcomes.zip messages).map Prod.snd <+: messages := by
  induction outcomes generalizing messages with
  | nil => exact List.nil_prefix
  | cons outcome outcomes ih =>
    cases messages with
    | nil => exact List.nil_prefix
    | cons message messages => exact (List.prefix_cons_inj message).2 (ih messages)

/-! ### Parts that came to the final status -/

/-- The valid message of the part has its final status. -/
def Finished (consumer : KafkaTransactionConsumer) (part : RawKafkaMessage × List IngestEffect) : Prop :=
  ∃ command, publishable consumer part.1 = some command ∧
    .savedProcessed command.transactionId (finalStatus command) ∈ part.2

/-- The first part does not pass the second. -/
def Clear (consumer : KafkaTransactionConsumer) (a b : RawKafkaMessage × List IngestEffect) : Prop :=
  Finished consumer a → ¬Finished consumer b → a.1.partition = b.1.partition → a.1.offset ≤ b.1.offset

private theorem finished_of_committed {effects : List IngestEffect} {position : KafkaPosition}
    (h : publishable consumer message = some command) (hbegun : effects <+: messageEffects consumer message)
    (hcommitted : .committed position ∈ effects) :
    Finished consumer (message, effects) ∧ position = message.position := by
  have hlast : messageEffects consumer message = (messageEffects consumer message).dropLast ++
      [.committed message.position] := by rw [messageEffects_publishable h]; rfl
  rw [hlast, messageEffects_publishable h] at hbegun
  rcases List.prefix_concat_iff.1 hbegun with rfl | hbegun
  · exact ⟨⟨command, h, by simp⟩, by simpa using hcommitted⟩
  · exact absurd (hbegun.subset hcommitted) (by simp)

section Parts

variable {parts : List (RawKafkaMessage × List IngestEffect)} (hbegun : Begun consumer parts)
  (hids : DistinctIds consumer (parts.map Prod.fst))

include hbegun hids

/-- If no part passes another one, then nothing is passed. -/
private theorem nothingPassed_of_clear (hvalid : ∀ part ∈ parts, (publishable consumer part.1).isSome)
    (hclear : ∀ a ∈ parts, ∀ b ∈ parts, Clear consumer a b) :
    NothingPassed (({} : World).performAll (parts.flatMap Prod.snd)) := by
  intro id record hrecord hstatus
  obtain ⟨message, command, effects, hpart, h, -, hafter⟩ := part_of_record hbegun hids hrecord
  obtain ⟨command', hpublishable⟩ := Option.isSome_iff_exists.1 (hvalid _ hpart)
  obtain ⟨haccepted, hcommand⟩ := Option.filter_eq_some_iff.1 hpublishable
  obtain rfl : command = command' := Option.some.inj (h.symm.trans haccepted)
  obtain ⟨-, -, hpartition, hoffset⟩ := KafkaTransactionConsumer.commit_of_accepted h
  rcases recordAfter_cases hafter with ⟨-, rfl⟩ | ⟨hunfinished, -, rfl⟩
  · have hprocessed : finalStatus command = "processed" := if_pos hcommand
    exact absurd (hprocessed.symm.trans hstatus) (by decide)
  · have hopen : ¬Finished consumer (message, effects) := by
      rintro ⟨c, hc, hmem⟩
      cases hpublishable.symm.trans hc
      exact hunfinished hmem
    have hbelow : ∀ part ∈ parts, Finished consumer part → part.1.partition = command.kafkaPartition →
        part.1.offset ≤ command.kafkaOffset :=
      fun part hmem hfinished hsame => hoffset ▸ hclear part hmem _ hpart hfinished hopen (hsame.trans hpartition)
    constructor
    · intro position hposition _ hsame
      rw [commitLog_performAll, List.nil_append] at hposition
      obtain ⟨effect, heffect, hcommit⟩ := List.mem_filterMap.1 hposition
      obtain ⟨part, hmem, heffect⟩ := List.mem_flatMap.1 heffect
      obtain ⟨c, hc⟩ := Option.isSome_iff_exists.1 (hvalid part hmem)
      cases effect <;> cases hcommit
      obtain ⟨hfinished, rfl⟩ := finished_of_committed hc (hbegun part hmem) heffect
      exact hbelow part hmem hfinished hsame
    · intro service hservice iteration exchangeSnapshots checkpoint hcheckpoint _ hsame
      obtain ⟨m, c, e, hmem, hm, hprocessed, -, hcpartition, heq⟩ :=
        part_of_checkpoint hbegun hids hservice iteration exchangeSnapshots hcheckpoint
      obtain ⟨c', hc'⟩ := Option.isSome_iff_exists.1 (hvalid _ hmem)
      obtain rfl : c = c' := Option.some.inj (hm.symm.trans (Option.filter_eq_some_iff.1 hc').1)
      exact heq ▸ hbelow _ hmem ⟨c, hc', hprocessed⟩ (hcpartition.symm.trans hsame)

/-- A part with a commit does not lie above one that is only received. -/
private theorem offset_le_of_nothingPassed (hpassed : NothingPassed (({} : World).performAll (parts.flatMap Prod.snd)))
    {done effects : List IngestEffect} {m : RawKafkaMessage} (hdone : (m, done) ∈ parts)
    (hcommitted : .committed m.position ∈ done) (hpart : (message, effects) ∈ parts)
    (h : consumer.accepted message = some command) (htopic : m.topic = message.topic)
    (hpartition : m.partition = message.partition) (hreceived : .savedReceived command ∈ effects)
    (hunfinished : .savedProcessed command.transactionId (finalStatus command) ∉ effects) :
    m.offset ≤ message.offset := by
  have hrecord := record_of_part hbegun hids hpart h
  rw [recordAfter, if_neg hunfinished, if_pos hreceived] at hrecord
  obtain ⟨-, hctopic, hcpartition, hoffset⟩ := KafkaTransactionConsumer.commit_of_accepted h
  have hcommit : m.position ∈ (({} : World).performAll (parts.flatMap Prod.snd)).commitLog := by
    rw [commitLog_performAll, List.nil_append]
    exact List.mem_filterMap.2 ⟨_, List.mem_flatMap.2 ⟨_, hdone, hcommitted⟩, rfl⟩
  exact hoffset ▸
    (hpassed _ _ hrecord rfl).1 _ hcommit (htopic.trans hctopic.symm) (hpartition.trans hcpartition.symm)

end Parts

/-! ### The calls of a run -/

/-- The part that a call has done. -/
def partOf (consumer : KafkaTransactionConsumer) (call : CallOn) : RawKafkaMessage × List IngestEffect :=
  (call.2, callEffects consumer call)

/-- The parts of a run that stopped in a call. -/
def runParts (consumer : KafkaTransactionConsumer) (calls : List CallOn) (call : CallOn) (effects : List IngestEffect) :
    List (RawKafkaMessage × List IngestEffect) :=
  calls.map (partOf consumer) ++ [(call.2, effects)]

private theorem flatMap_runParts (calls : List CallOn) (call : CallOn) (effects : List IngestEffect) :
    (runParts consumer calls call effects).flatMap Prod.snd = calls.flatMap (callEffects consumer) ++ effects := by
  rw [runParts, List.flatMap_append, List.flatMap_map, List.flatMap_singleton]
  rfl

variable {calls : List CallOn} {call : CallOn} {effects : List IngestEffect}

private theorem map_fst_runParts :
    (runParts consumer calls call effects).map Prod.fst = (calls ++ [call]).map Prod.snd := by
  simp [runParts, partOf, Function.comp_def]

private theorem begun_runParts (hstopped : effects <+: callEffects consumer call) :
    Begun consumer (runParts consumer calls call effects) := by
  intro part hpart
  rcases List.mem_append.1 hpart with hpart | hpart
  · obtain ⟨call, -, rfl⟩ := List.mem_map.1 hpart
    exact callEffects_begin call
  · rw [List.mem_singleton.1 hpart]
    exact hstopped.trans (callEffects_begin call)

private theorem finished_partOf_iff (h : (publishable consumer call.2).isSome) :
    Finished consumer (partOf consumer call) ↔ call.1 = .completes := by
  obtain ⟨command, hcommand⟩ := Option.isSome_iff_exists.1 h
  constructor
  · rintro ⟨c, hc, hmem⟩
    exact (mem_callEffects_iff hc).1 hmem
  · exact fun hcompletes => ⟨command, hcommand, (mem_callEffects_iff hcommand).2 hcompletes⟩

private theorem completes_of_finished (hstopped : effects <+: callEffects consumer call)
    (h : Finished consumer (call.2, effects)) : call.1 = .completes := by
  obtain ⟨command, hcommand, hmem⟩ := h
  exact (mem_callEffects_iff hcommand).1 (hstopped.subset hmem)

/-- Calls that complete in order do not pass one another. -/
private theorem clear_runParts (hvalid : ∀ c ∈ calls ++ [call], (publishable consumer c.2).isSome)
    (horder : CompletesInOrder (calls ++ [call])) (hstopped : effects <+: callEffects consumer call) :
    ∀ a ∈ runParts consumer calls call effects, ∀ b ∈ runParts consumer calls call effects, Clear consumer a b := by
  obtain ⟨hcalls, -, hlast⟩ := List.pairwise_append.1 horder
  have hboth : (runParts consumer calls call effects).Pairwise fun a b => Clear consumer a b ∧ Clear consumer b a := by
    refine List.pairwise_append.2 ⟨List.pairwise_map.2 (hcalls.imp_of_mem ?_), List.pairwise_singleton _ _, ?_⟩
    · intro a b ha hb hab
      rw [Clear, Clear, finished_partOf_iff (hvalid a (List.mem_append_left _ ha)),
        finished_partOf_iff (hvalid b (List.mem_append_left _ hb))]
      exact ⟨fun h _ hsame => (hab hsame).1 h, fun h h' hsame => (hab hsame.symm).2 h' h⟩
    · intro a ha b hb
      obtain ⟨c, hc, rfl⟩ := List.mem_map.1 ha
      cases List.mem_singleton.1 hb
      have hclast := hlast c hc call (List.mem_singleton_self _)
      rw [Clear, Clear, finished_partOf_iff (hvalid c (List.mem_append_left _ hc))]
      exact ⟨fun h _ hsame => (hclast hsame).1 h,
        fun h h' hsame => (hclast hsame.symm).2 h' (completes_of_finished hstopped h)⟩
  exact List.Pairwise.forall_of_forall_of_flip (fun a _ hfinished hopen => absurd hfinished hopen)
    (hboth.imp And.left) (hboth.imp And.right)

/-- What holds of every element and every one before it holds of all pairs. -/
private theorem pairwise_of_splits {α : Type*} {R : α → α → Prop} {l : List α}
    (h : ∀ pre b post, l = pre ++ b :: post → ∀ a ∈ pre, R a b) : l.Pairwise R := by
  induction l using List.reverseRecOn with
  | nil => exact List.Pairwise.nil
  | append_singleton l x ih =>
    refine List.pairwise_append.2 ⟨ih ?_, List.pairwise_singleton _ _, ?_⟩
    · rintro pre b post rfl a ha
      exact h pre b (post ++ [x]) (by simp) a ha
    · intro a ha b hb
      cases List.mem_singleton.1 hb
      exact h l x [] rfl a ha

private theorem committed_mem_callEffects (h : (publishable consumer call.2).isSome)
    (hcompletes : call.1 = .completes) : .committed call.2.position ∈ callEffects consumer call := by
  obtain ⟨command, hcommand⟩ := Option.isSome_iff_exists.1 h
  rw [callEffects, hcompletes, effects_completes, messageEffects_publishable hcommand]
  simp

private theorem distinctIds_runParts (hids : DistinctIds consumer (calls.map Prod.snd)) {pre post : List CallOn}
    (hcalls : calls = pre ++ call :: post) (effects : List IngestEffect) :
    DistinctIds consumer ((runParts consumer pre call effects).map Prod.fst) := by
  rw [map_fst_runParts]
  have hsub : ((pre ++ [call]).map Prod.snd).Sublist (calls.map Prod.snd) := by
    rw [hcalls]
    exact (List.Sublist.append_left (by simp) pre).map _
  exact hids.sublist ((hsub.filterMap _).map _)

/-- If a run never passes a message that is only received, its calls complete in order. -/
private theorem completesInOrder_of_nothingPassed (hvalid : ∀ call ∈ calls, (publishable consumer call.2).isSome)
    (hids : DistinctIds consumer (calls.map Prod.snd))
    (hsafe : ∀ done, done <+: calls.flatMap (callEffects consumer) → NothingPassed (({} : World).performAll done)) :
    CompletesInOrder calls := by
  refine pairwise_of_splits ?_
  rintro pre b post rfl a ha hpartition
  have hvalidA := hvalid a (List.mem_append_left _ ha)
  obtain ⟨ca, hca⟩ := Option.isSome_iff_exists.1 hvalidA
  obtain ⟨cb, hcb⟩ := Option.isSome_iff_exists.1 (hvalid b (by simp))
  have hacceptedA := (Option.filter_eq_some_iff.1 hca).1
  have hacceptedB := (Option.filter_eq_some_iff.1 hcb).1
  have htopic : a.2.topic = b.2.topic := (KafkaTransactionConsumer.commit_of_accepted hacceptedA).1.trans
    (KafkaTransactionConsumer.commit_of_accepted hacceptedB).1.symm
  have hpassed : ∀ effects, effects <+: callEffects consumer b →
      NothingPassed (({} : World).performAll ((runParts consumer pre b effects).flatMap Prod.snd)) := by
    intro effects heffects
    refine hsafe _ ?_
    rw [flatMap_runParts, List.flatMap_append, List.flatMap_cons]
    exact (List.prefix_append_right_inj _).2 (heffects.trans (List.prefix_append _ _))
  have hmemA : ∀ effects, partOf consumer a ∈ runParts consumer pre b effects :=
    fun effects => List.mem_append_left _ (List.mem_map_of_mem ha)
  constructor
  · -- the run stops when the second message is received
    intro hcompletes
    have hreceived : [.delivered b.2, .savedReceived cb] <+: callEffects consumer b := by
      rw [callEffects, messageEffects_publishable hcb]
      cases b.1 <;> simp [CallOutcome.effects, CallOutcome.throwsAt]
    exact offset_le_of_nothingPassed (begun_runParts hreceived) (distinctIds_runParts hids rfl _) (hpassed _ hreceived)
      (hmemA _) (committed_mem_callEffects hvalidA hcompletes) (List.mem_append_right _ (List.mem_singleton_self _))
      hacceptedB htopic hpartition (by simp) (by simp)
  · -- the run stops when the second call has completed
    intro hthrows hcompletes
    exact offset_le_of_nothingPassed (begun_runParts List.prefix_rfl) (distinctIds_runParts hids rfl _)
      (hpassed _ List.prefix_rfl) (List.mem_append_right _ (List.mem_singleton_self _))
      (committed_mem_callEffects (hvalid b (by simp)) hcompletes) (hmemA _) hacceptedA htopic.symm
      hpartition.symm (savedReceived_mem_callEffects hca) fun hmem => hthrows ((mem_callEffects_iff hca).1 hmem)

/-- If the calls of a run complete in order, it never passes a message that is only received. -/
private theorem nothingPassed_of_completesInOrder (hvalid : ∀ call ∈ calls, (publishable consumer call.2).isSome)
    (hids : DistinctIds consumer (calls.map Prod.snd)) (horder : CompletesInOrder calls) {done : List IngestEffect}
    (hdone : done <+: calls.flatMap (callEffects consumer)) : NothingPassed (({} : World).performAll done) := by
  rcases prefix_flatMap hdone with rfl | ⟨pre, call, post, effects, rfl, hstopped, rfl⟩
  · exact fun id record hrecord => by simp [World.performAll] at hrecord
  · have hsub : (pre ++ [call]).Sublist (pre ++ call :: post) := List.Sublist.append_left (by simp) pre
    have hvalid' : ∀ c ∈ pre ++ [call], (publishable consumer c.2).isSome := fun c hc => hvalid c (hsub.subset hc)
    rw [← flatMap_runParts]
    refine nothingPassed_of_clear (begun_runParts hstopped) (distinctIds_runParts hids rfl _) ?_
      (clear_runParts hvalid' (horder.sublist hsub) hstopped)
    intro part hpart
    have hmem := List.mem_map_of_mem (f := Prod.fst) hpart
    rw [map_fst_runParts] at hmem
    obtain ⟨c, hc, heq⟩ := List.mem_map.1 hmem
    exact heq ▸ hvalid' c hc

/-- Calls on valid messages with distinct ids, any of which may throw: at no moment of the run has a commit or a
derived checkpoint passed a message that is only received, exactly if the calls complete in order. -/
theorem nothing_passed_iff (hvalid : ∀ message ∈ messages, (publishable consumer message).isSome)
    (hids : DistinctIds consumer messages) (outcomes : List CallOutcome) :
    (∀ done, done <+: runCalls consumer outcomes messages → NothingPassed (({} : World).performAll done)) ↔
      CompletesInOrder (outcomes.zip messages) := by
  have haccepted : ∀ message ∈ messages, (consumer.accepted message).isSome := by
    intro message hmessage
    obtain ⟨command, hcommand⟩ := Option.isSome_iff_exists.1 (hvalid message hmessage)
    rw [(Option.filter_eq_some_iff.1 hcommand).1]
    rfl
  have hsnd := zip_snd_prefix outcomes messages
  have hcalls : ∀ call ∈ outcomes.zip messages, (publishable consumer call.2).isSome :=
    fun call hcall => hvalid _ (hsnd.subset (List.mem_map_of_mem hcall))
  have hdistinct : DistinctIds consumer ((outcomes.zip messages).map Prod.snd) :=
    hids.sublist ((hsnd.sublist.filterMap _).map _)
  rw [runCalls_accepted outcomes haccepted]
  exact ⟨completesInOrder_of_nothingPassed hcalls hdistinct,
    fun horder _ => nothingPassed_of_completesInOrder hcalls hdistinct horder⟩

/-- Two messages of one partition. -/
def exampleMessages : List RawKafkaMessage := [exampleMessage 0 1 "t1", exampleMessage 0 2 "t2"]

private theorem publishable_exampleMessage {offset : Int} (hoffset : 0 ≤ offset) {id : String}
    (hid : id ∈ ["t1", "t2"]) :
    publishable exampleConsumer (exampleMessage 0 offset id) = some (exampleCommand 0 offset id) := by
  have hvalid : isValid (exampleCommand 0 offset id) = true := by
    rcases List.mem_pair.1 hid with rfl | rfl <;> simp [isValid, exampleCommand, hoffset]
  rw [publishable, accepted_exampleMessage 0 offset hid, Option.filter_some, if_pos hvalid]

private theorem accepted_exampleMessages : ∀ message ∈ exampleMessages, (exampleConsumer.accepted message).isSome := by
  intro message hmessage
  rcases List.mem_pair.1 hmessage with rfl | rfl <;> rw [accepted_exampleMessage _ _ (by decide)] <;> rfl

private theorem publishable_exampleMessages : ∀ message ∈ exampleMessages,
    (publishable exampleConsumer message).isSome := by
  intro message hmessage
  rcases List.mem_pair.1 hmessage with rfl | rfl <;> rw [publishable_exampleMessage (by decide) (by decide)] <;> rfl

private theorem distinctIds_exampleMessages : DistinctIds exampleConsumer exampleMessages := by
  rw [DistinctIds, exampleMessages, List.filterMap_cons_some (accepted_exampleMessage 0 1 (by decide)),
    List.filterMap_cons_some (accepted_exampleMessage 0 2 (by decide))]
  decide

/-- The second call throws and none follows. -/
theorem nothing_passed_iff_exampleMessages :
    NothingPassed (({} : World).performAll
      (runCalls exampleConsumer [.completes, .saveProcessedThrows] exampleMessages)) := by
  refine (nothing_passed_iff publishable_exampleMessages distinctIds_exampleMessages
    [.completes, .saveProcessedThrows]).2 ?_ _ List.prefix_rfl
  unfold CompletesInOrder
  decide +kernel

/-- The handler throws at the first message and the second call completes: its commit lies above the first message,
which is only received. -/
theorem received_passed_after_throw :
    (∀ message ∈ exampleMessages, (publishable exampleConsumer message).isSome) ∧
      DistinctIds exampleConsumer exampleMessages ∧
      ¬∀ done, done <+: runCalls exampleConsumer [.handlerThrows, .completes] exampleMessages →
        NothingPassed (({} : World).performAll done) := by
  refine ⟨publishable_exampleMessages, distinctIds_exampleMessages, fun h => ?_⟩
  have hcalls : runCalls exampleConsumer [.handlerThrows, .completes] exampleMessages =
      CallOutcome.handlerThrows.effects (messageEffects exampleConsumer (exampleMessage 0 1 "t1")) ++
        CallOutcome.completes.effects (messageEffects exampleConsumer (exampleMessage 0 2 "t2")) := by
    rw [runCalls_accepted _ accepted_exampleMessages]
    simp only [exampleMessages, List.zip_cons_cons, List.zip_nil_right, List.flatMap_cons, List.flatMap_nil,
      List.append_nil, callEffects]
  rw [messageEffects_publishable (publishable_exampleMessage (by decide) (by decide)),
    messageEffects_publishable (publishable_exampleMessage (by decide) (by decide))] at hcalls
  have hrecord : (({} : World).performAll (runCalls exampleConsumer [.handlerThrows, .completes]
      exampleMessages)).repository.records["t1"]? =
        some { transactionId := "t1", status := "received", kafkaTopic := "transactions", kafkaOffset := 1 } := by
    rw [hcalls]
    decide +kernel
  have hcommitted : ⟨"transactions", 0, 2⟩ ∈ (({} : World).performAll
      (runCalls exampleConsumer [.handlerThrows, .completes] exampleMessages)).commitLog := by
    rw [hcalls]
    decide +kernel
  exact absurd ((h _ List.prefix_rfl "t1" _ hrecord rfl).1 _ hcommitted rfl rfl) (by decide)

end TransactionIngestor

end Wall
