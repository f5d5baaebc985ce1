import Wall.TransactionIngestor

/-!
# Runs of the ingestor

Polling and handling together do the same to every message, whichever call reads it (`messageEffects`): a message
that is not accepted is committed, one that is accepted is recorded, published if it is valid, and committed.
-/

namespace Wall

namespace TransactionIngestor

/-- What a message causes. -/
def messageEffects (consumer : KafkaTransactionConsumer) (message : RawKafkaMessage) : List IngestEffect :=
  match consumer.accepted message with
  | none => [.delivered message, .committed message.position]
  | some command => .delivered message :: handle command

/-- The command that is published for a message: the message is accepted and its command valid. -/
def publishable (consumer : KafkaTransactionConsumer) (message : RawKafkaMessage) : Option TransactionCommand :=
  (consumer.accepted message).filter isValid

variable {consumer : KafkaTransactionConsumer} {message : RawKafkaMessage} {messages : List RawKafkaMessage}

theorem processNext_skipped (h : consumer.accepted message = none) :
    processNext consumer (message :: messages) =
      { processNext consumer messages with
        effects := messageEffects consumer message ++ (processNext consumer messages).effects } := by
  rw [processNext, processNext, KafkaTransactionConsumer.poll_cons, messageEffects, h]
  obtain ⟨effects, command, rest⟩ := consumer.poll messages
  cases command <;> rfl

theorem processNext_accepted {command : TransactionCommand} (h : consumer.accepted message = some command) :
    processNext consumer (message :: messages) =
      { effects := messageEffects consumer message, handled := true, rest := messages } := by
  rw [processNext, KafkaTransactionConsumer.poll_cons, messageEffects, h]
  rfl

/-! ### Draining a stream -/

private theorem drain_skipped (h : consumer.accepted message = none) (fuel : Nat) :
    drain consumer (fuel + 1) (message :: messages) =
      (drain consumer (fuel + 1) messages).map (messageEffects consumer message ++ ·) := by
  rw [drain, drain, processNext_skipped h]
  dsimp only
  split
  · rw [Option.map_map]
    exact congrArg (Option.map · _) (funext fun effects => List.append_assoc _ _ _)
  · rfl

private theorem drain_accepted {command : TransactionCommand} (h : consumer.accepted message = some command)
    (fuel : Nat) : drain consumer (fuel + 1) (message :: messages) =
      (drain consumer fuel messages).map (messageEffects consumer message ++ ·) := by
  rw [drain, processNext_accepted h]
  rfl

/-- Enough calls read the whole stream, each message once and in order. -/
theorem drain_eq {fuel : Nat} (hfuel : messages.length < fuel) :
    drain consumer fuel messages = some (messages.flatMap (messageEffects consumer)) := by
  induction messages generalizing fuel with
  | nil =>
    obtain ⟨fuel, rfl⟩ := Nat.exists_eq_add_one_of_ne_zero (Nat.ne_zero_of_lt hfuel)
    rfl
  | cons message messages ih =>
    obtain ⟨fuel, rfl⟩ := Nat.exists_eq_add_one_of_ne_zero (Nat.ne_zero_of_lt hfuel)
    rw [List.length_cons] at hfuel
    cases h : consumer.accepted message with
    | none =>
      rw [drain_skipped h, ih (Nat.lt_of_succ_lt hfuel)]
      rfl
    | some command =>
      rw [drain_accepted h, ih (Nat.lt_of_succ_lt_succ hfuel)]
      rfl

/-! ### Commits and publications -/

/-- The position that an effect commits. -/
def committedPosition : IngestEffect → Option KafkaPosition
  | .committed position => some position
  | _ => none

/-- The command that an effect publishes. -/
def publishedCommand : IngestEffect → Option TransactionCommand
  | .published command => some command
  | _ => none

theorem commitLog_performAll (world : World) (effects : List IngestEffect) :
    (world.performAll effects).commitLog = world.commitLog ++ effects.filterMap committedPosition := by
  induction effects generalizing world with
  | nil => simp
  | cons effect effects ih =>
    rw [World.performAll_cons, ih]
    cases effect <;> simp [World.perform, committedPosition, List.filterMap_cons]

theorem received_performAll (world : World) (effects : List IngestEffect) :
    (world.performAll effects).received = world.received ++ effects.filterMap publishedCommand := by
  induction effects generalizing world with
  | nil => simp
  | cons effect effects ih =>
    rw [World.performAll_cons, ih]
    cases effect <;> simp [World.perform, publishedCommand, List.filterMap_cons]

/-- A message is committed once, at its own position. -/
private theorem commits_messageEffects (message : RawKafkaMessage) :
    (messageEffects consumer message).filterMap committedPosition = [message.position] := by
  unfold messageEffects
  split
  · rfl
  · rename_i command h
    obtain ⟨-, htopic, hpartition, hoffset⟩ := KafkaTransactionConsumer.commit_of_accepted h
    have hcommit : KafkaTransactionConsumer.commit command = .committed message.position := by
      rw [KafkaTransactionConsumer.commit, htopic, hpartition, hoffset]
      rfl
    rw [handle, hcommit]
    split <;> rfl

theorem publications_messageEffects (message : RawKafkaMessage) :
    (messageEffects consumer message).filterMap publishedCommand = (publishable consumer message).toList := by
  unfold messageEffects publishable
  cases consumer.accepted message with
  | none => rfl
  | some command =>
    dsimp only
    rw [handle, Option.filter_some]
    split <;> rfl

/-- The publication of a valid command stands between its receipt and its final status. -/
private theorem messageEffects_valid {command : TransactionCommand} (h : consumer.accepted message = some command)
    (hvalid : isValid command = true) :
    ∃ first last, messageEffects consumer message = first ++ .published command :: last ∧
      first.filterMap committedPosition = [] ∧ first.filterMap publishedCommand = [] := by
  refine ⟨[.delivered message, .savedReceived command, .cached command.transactionId "received"],
    [.savedProcessed command.transactionId (finalStatus command),
      .cached command.transactionId (finalStatus command), KafkaTransactionConsumer.commit command], ?_, rfl, rfl⟩
  rw [messageEffects, h]
  dsimp only
  rw [handle, if_pos hvalid]
  rfl

theorem commits_flatMap (messages : List RawKafkaMessage) :
    (messages.flatMap (messageEffects consumer)).filterMap committedPosition =
      messages.map RawKafkaMessage.position := by
  rw [List.filterMap_flatMap, List.map_eq_flatMap]
  simp only [commits_messageEffects]

theorem publications_flatMap (messages : List RawKafkaMessage) :
    (messages.flatMap (messageEffects consumer)).filterMap publishedCommand =
      messages.filterMap (publishable consumer) := by
  rw [List.filterMap_flatMap]
  simp only [publications_messageEffects]
  exact (List.filterMap_eq_flatMap_toList _ _).symm

/-- Calling `process_next` until it returns false ends after at most one call more than there are messages.  It
commits the position of every message once, in stream order, and publishes exactly the commands of the valid
messages, once and in stream order; when a command is published, exactly the messages before its own have been
committed and exactly those before it published. -/
theorem drain_exactly_once (consumer : KafkaTransactionConsumer) (messages : List RawKafkaMessage) :
    ∃ effects, (∀ fuel, messages.length < fuel → drain consumer fuel messages = some effects) ∧
      (({} : World).performAll effects).commitLog = messages.map RawKafkaMessage.position ∧
      (({} : World).performAll effects).received = messages.filterMap (publishable consumer) ∧
      ∀ pre message post command, messages = pre ++ message :: post →
        publishable consumer message = some command →
        ∃ before after, effects = before ++ .published command :: after ∧
          (({} : World).performAll before).commitLog = pre.map RawKafkaMessage.position ∧
          (({} : World).performAll before).received = pre.filterMap (publishable consumer) ∧
          after.filterMap committedPosition = (message :: post).map RawKafkaMessage.position := by
  refine ⟨messages.flatMap (messageEffects consumer), fun fuel => drain_eq, ?_, ?_, ?_⟩
  · rw [commitLog_performAll, commits_flatMap]
    rfl
  · rw [received_performAll, publications_flatMap]
    rfl
  · rintro pre message post command rfl hpublishable
    obtain ⟨haccepted, hvalid⟩ := Option.filter_eq_some_iff.1 hpublishable
    obtain ⟨first, last, heffects, hfirst, hfirst'⟩ := messageEffects_valid haccepted hvalid
    have hown := @commits_messageEffects consumer message
    rw [heffects, List.filterMap_append, hfirst, List.nil_append] at hown
    refine ⟨pre.flatMap (messageEffects consumer) ++ first,
      last ++ post.flatMap (messageEffects consumer), ?_, ?_, ?_, ?_⟩
    · simp [heffects]
    · rw [commitLog_performAll, List.filterMap_append, commits_flatMap, hfirst]
      simp
    · rw [received_performAll, List.filterMap_append, publications_flatMap, hfirst']
      simp
    · have hlast : last.filterMap committedPosition = [message.position] := hown
      rw [List.filterMap_append, hlast, commits_flatMap]
      rfl

end TransactionIngestor

end Wall
