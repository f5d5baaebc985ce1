import Wall.DamagedFiles

/-!
# Torn writes

A crash during a rewrite leaves a prefix of the bytes that `flush` writes, since the file is truncated and then written
in place.  Every line of the prefix but the last is whole; the last one has too few fields to be read, unless the cut
lies behind its last tab (`RecordFormat.load_prefix`).  So a record comes back as it was written, but for the last
field of the last line, which is read from what is left of its digits (`torn_write`).
-/

namespace Wall

open KeyedMap ReplayService

namespace RecordFormat

variable {ρ : Type*} {format : RecordFormat ρ}

/-- The fields of the record are read back, in full, from a line. -/
structure Sound (format : RecordFormat ρ) (record : ρ) : Prop where
  length_fields : (format.fields record).length = format.fieldCount
  fieldCount_pos : 0 < format.fieldCount
  clean_fields : ∀ field ∈ format.fields record, Clean field
  last_ne_empty : (format.fields record).getLast? ≠ some ""
  parse_fields : format.parse (format.fields record) = some record

/-- The second record is read from the last line of the text, which is that of the first one with its last field
cut. -/
def CutFrom (format : RecordFormat ρ) (text : String) (record record' : ρ) : Prop :=
  ∃ front last cut, format.fields record = front ++ [last] ∧ cut ≠ "" ∧ cut.toList <+: last.toList ∧
    (linesOf (some text)).getLast? = some ("\t".intercalate (front ++ [cut])) ∧
    format.parse (front ++ [cut]) = some record'

/-- The fields of a line that is cut off: those before the one in which it is cut, and what is left of that. -/
private theorem splitTsv_of_prefix {fields : List String} (hclean : ∀ field ∈ fields, Clean field) (hne : fields ≠ [])
    {line : String} (h : line.toList <+: ("\t".intercalate fields).toList) :
    ∃ before field after cut, fields = before ++ field :: after ∧ cut.toList <+: field.toList ∧
      line = "\t".intercalate (before ++ [cut]) ∧ splitTsv line = before ++ if cut = "" then [] else [cut] := by
  rw [String.toList_intercalate] at h
  have htab : ∀ token ∈ fields.map String.toList, '\t' ∉ token := by
    intro token htoken
    obtain ⟨field, hfield, rfl⟩ := List.mem_map.1 htoken
    exact (hclean field hfield).1
  obtain ⟨before, token, after, cut, hfields, hcut, hjoin, htokens⟩ :=
    Getline.tokens_of_prefix htab (fun hnil => hne (List.map_eq_nil_iff.1 hnil)) h
  refine ⟨before.map String.ofList, String.ofList token, after.map String.ofList, String.ofList cut, ?_, ?_, ?_, ?_⟩
  · have hback := congrArg (List.map String.ofList) hfields
    simpa [Function.comp_def] using hback
  · simpa using hcut
  · refine String.toList_injective ?_
    rw [hjoin, String.toList_intercalate]
    simp [Function.comp_def]
  · rw [splitTsv, htokens, List.map_append]
    by_cases hnil : cut = []
    · simp [hnil]
    · have hcutne : String.ofList cut ≠ "" := fun heq => hnil (by simpa using congrArg String.toList heq)
      rw [if_neg hnil, if_neg hcutne, List.map_singleton]

/-- The lines of a file that is cut off: those of the first records, and what is left of the next one. -/
private theorem linesOf_of_prefix {records : List ρ}
    (hclean : ∀ record ∈ records, ∀ field ∈ format.fields record, Clean field)
    {text : String} (h : text.toList <+: (format.flush records).toList) :
    ∃ whole rest cut, records = whole ++ rest ∧
      linesOf (some text) = whole.map format.line ++ (if cut = "" then [] else [cut]) ∧
      (cut = "" ∨ ∃ record ∈ rest, cut.toList <+: (format.line record).toList) := by
  -- fields have no newline, so newlines stand between records only
  have hnewline : ∀ token ∈ (records.map fun record => (format.line record).toList) ++ [[]], '\n' ∉ token := by
    intro token htoken
    rcases List.mem_append.1 htoken with htoken | htoken
    · obtain ⟨record, hrecord, rfl⟩ := List.mem_map.1 htoken
      rw [line, String.toList_intercalate]
      refine not_mem_intercalate (by decide) ?_
      intro part hpart
      obtain ⟨field, hfield, rfl⟩ := List.mem_map.1 hpart
      exact (hclean record hrecord field hfield).2
    · rw [List.mem_singleton.1 htoken]
      exact List.not_mem_nil
  have hflush : (format.flush records).toList =
      ['\n'].intercalate ((records.map fun record => (format.line record).toList) ++ [[]]) := by
    rw [Getline.intercalate_append_nil, flush, String.toList_join, List.map_map, List.flatMap_map, List.flatMap_map]
    simp
  rw [hflush] at h
  obtain ⟨before, token, after, cut, hlines, hcut, -, htokens⟩ := Getline.tokens_of_prefix hnewline (by simp) h
  have hlinesOf : linesOf (some text) = before.map String.ofList ++
      if String.ofList cut = "" then [] else [String.ofList cut] := by
    rw [linesOf, htokens, List.map_append]
    by_cases hnil : cut = []
    · simp [hnil]
    · have hcutne : String.ofList cut ≠ "" := fun heq => hnil (by simpa using congrArg String.toList heq)
      rw [if_neg hnil, if_neg hcutne, List.map_singleton]
  rcases List.eq_nil_or_concat' after with rfl | ⟨after, final, rfl⟩
  · -- the cut is behind all lines
    obtain ⟨hbefore, htoken⟩ := List.append_inj' hlines rfl
    obtain rfl : [] = token := (List.cons.inj htoken).1
    rw [List.prefix_nil] at hcut
    refine ⟨records, [], "", (List.append_nil _).symm, ?_, .inl rfl⟩
    rw [hlinesOf, hcut, ← hbefore, List.map_map]
    simp [Function.comp_def]
  · rw [← List.cons_append, ← List.append_assoc] at hlines
    obtain ⟨hrecords, -⟩ := List.append_inj' hlines rfl
    obtain ⟨whole, rest, rfl, hwhole, hrest⟩ := List.map_eq_append_iff.1 hrecords
    obtain ⟨record, rest', rfl, hrecord, -⟩ := List.map_eq_cons_iff.1 hrest
    refine ⟨whole, record :: rest', String.ofList cut, rfl, ?_, .inr ⟨record, List.mem_cons_self .., ?_⟩⟩
    · rw [hlinesOf, ← hwhole, List.map_map]
      simp [Function.comp_def]
    · rw [hrecord]
      simpa using hcut

/-- The line of a record gives the record back. -/
private theorem Sound.recordOf_line {record : ρ} (h : format.Sound record) :
    format.recordOf (format.line record) = some record := by
  rw [recordOf, line, splitTsv_intercalate h.clean_fields h.last_ne_empty, if_neg (not_not_intro h.length_fields),
    h.parse_fields]

/-- What is left of a line is skipped or read with its last field cut. -/
private theorem Sound.recordOf_start {record record' : ρ} (h : format.Sound record) {text : String} {line : String}
    (hline : line.toList <+: (format.line record).toList) (hlast : (linesOf (some text)).getLast? = some line)
    (hread : format.recordOf line = some record') : format.CutFrom text record record' := by
  have hne : format.fields record ≠ [] := by
    have hpos := h.fieldCount_pos
    rw [← h.length_fields] at hpos
    exact List.length_pos_iff.1 hpos
  obtain ⟨before, field, after, cut, hfields, hcut, hjoin, hsplit⟩ := splitTsv_of_prefix h.clean_fields hne hline
  by_cases hlength : (splitTsv line).length = format.fieldCount
  · rw [recordOf, if_neg (not_not_intro hlength)] at hread
    rw [← h.length_fields, hsplit, hfields, List.length_append, List.length_append, List.length_cons] at hlength
    by_cases hempty : cut = ""
    · rw [if_pos hempty, List.length_nil] at hlength
      omega
    · rw [if_neg hempty] at hlength hsplit
      obtain rfl : after = [] := List.length_eq_zero_iff.1 (by rw [List.length_singleton] at hlength; omega)
      rw [hsplit] at hread
      exact ⟨before, field, cut, hfields, hempty, hcut, hjoin ▸ hlast, hread⟩
  · rw [recordOf, if_pos hlength] at hread
    cases hread

/-- What is loaded from a file that is cut off are records as they were written, and the last one perhaps with its last
field cut. -/
theorem load_prefix {records : List ρ} (hsound : ∀ record ∈ records, format.Sound record) {text : String}
    (h : text.toList <+: (format.flush records).toList) {loaded : List ρ}
    (hload : format.load (some text) = some loaded) :
    ∀ record' ∈ loaded, ∃ record ∈ records, record' = record ∨ format.CutFrom text record record' := by
  obtain ⟨whole, rest, cut, rfl, hlines, hcut⟩ :=
    linesOf_of_prefix (fun record hrecord => (hsound record hrecord).clean_fields) h
  rw [load_eq_readLines] at hload
  rw [eq_of_readLines hload, hlines]
  intro record' hrecord'
  obtain ⟨line, hline, hread⟩ := List.mem_filterMap.1 hrecord'
  rcases List.mem_append.1 hline with hline | hline
  · obtain ⟨record, hrecord, rfl⟩ := List.mem_map.1 hline
    have hwhole : record ∈ whole ++ rest := List.mem_append_left _ hrecord
    rw [(hsound record hwhole).recordOf_line] at hread
    exact ⟨record, hwhole, .inl (Option.some.inj hread).symm⟩
  · by_cases hempty : cut = ""
    · rw [if_pos hempty] at hline
      cases hline
    · rw [if_neg hempty, List.mem_singleton] at hline
      subst hline
      obtain ⟨record, hrecord, hstart⟩ := hcut.resolve_left hempty
      have hrest : record ∈ whole ++ rest := List.mem_append_right _ hrecord
      have hlast : (linesOf (some text)).getLast? = some line := by
        rw [hlines, if_neg hempty, List.getLast?_concat]
      exact ⟨record, hrest, .inr ((hsound record hrest).recordOf_start hstart hlast hread)⟩

/-- The same for records that are kept in a map, if the last field is not part of the key. -/
private theorem load_prefix_keyed {key : ρ → String} {records : StringMap ρ} {Storable : ρ → Prop} {Torn : ρ → ρ → Prop}
    {text : String} (hsound : ∀ record, Storable record → format.Sound record)
    (htorn : ∀ record record', Storable record → format.CutFrom text record record' → Torn record record')
    (hkey : ∀ record record', Torn record record' → key record' = key record)
    (hstored : ∀ (k : String) (record : ρ), records[k]? = some record → key record = k ∧ Storable record)
    (h : text.toList <+: (format.flush (records.toList.map Prod.snd)).toList) {loaded : List ρ}
    (hload : format.load (some text) = some loaded) {k : String} {record' : ρ}
    (hrecord' : (ofValues key loaded : StringMap ρ)[k]? = some record') :
    ∃ record, records[k]? = some record ∧ (record' = record ∨ Torn record record') := by
  have hvalues : ∀ record ∈ records.toList.map Prod.snd, records[key record]? = some record ∧ Storable record := by
    intro record hrecord
    obtain ⟨⟨a, r⟩, hmem, rfl⟩ := List.mem_map.1 hrecord
    have hget := Std.ExtTreeMap.mem_toList_iff_getElem?_eq_some.1 hmem
    obtain ⟨ha, hstorable⟩ := hstored a r hget
    exact ⟨ha.symm ▸ hget, hstorable⟩
  obtain ⟨hmem, rfl⟩ := mem_of_getElem?_ofValues hrecord'
  obtain ⟨record, hrecord, hsame⟩ :=
    load_prefix (fun record hrecord => hsound record (hvalues record hrecord).2) h hload record' hmem
  obtain ⟨hget, hstorable⟩ := hvalues record hrecord
  rcases hsame with rfl | hcut
  · exact ⟨record', hget, .inl rfl⟩
  · have hrecordTorn := htorn record record' hstorable hcut
    exact ⟨record, hkey record record' hrecordTorn ▸ hget, .inr hrecordTorn⟩

end RecordFormat

/-! ### The files -/

/-- The second balance is the first one with the available balance that is left of it in the last line. -/
def BalanceSnapshot.TornFrom (number : NumberText) (text : String) (balance balance' : BalanceSnapshot) : Prop :=
  ∃ cut, cut ≠ "" ∧ cut.toList <+: (number.precise balance.availableBalance).toList ∧
    (linesOf (some text)).getLast? = some ("\t".intercalate [balance.asset, number.precise balance.totalBalance, cut]) ∧
    number.stod cut = some balance'.availableBalance ∧
    balance' = { balance with availableBalance := balance'.availableBalance }

/-- The second record is the first one with the offset that is left of it in the last line. -/
def TransactionRecord.TornFrom (text : String) (record record' : TransactionRecord) : Prop :=
  ∃ cut, cut ≠ "" ∧ cut.toList <+: (Int.repr record.kafkaOffset).toList ∧
    (linesOf (some text)).getLast? = some ("\t".intercalate
      [record.transactionId, record.status, record.kafkaTopic, Int.repr record.kafkaPartition, cut]) ∧
    stoll cut = some record'.kafkaOffset ∧ record' = { record with kafkaOffset := record'.kafkaOffset }

/-- The second checkpoint is the first one with the offset that is left of it in the last line. -/
def KafkaCheckpoint.TornFrom (text : String) (checkpoint checkpoint' : KafkaCheckpoint) : Prop :=
  ∃ cut, cut ≠ "" ∧ cut.toList <+: (Int.repr checkpoint.offset).toList ∧
    (linesOf (some text)).getLast? =
      some ("\t".intercalate [checkpoint.topic, Int.repr checkpoint.partition, cut]) ∧
    stoll cut = some checkpoint'.offset ∧ checkpoint' = { checkpoint with offset := checkpoint'.offset }

/-! A torn record has the key of the record that was written. -/

theorem BalanceSnapshot.TornFrom.asset {number : NumberText} {text : String} {balance balance' : BalanceSnapshot}
    (h : balance.TornFrom number text balance') : balance'.asset = balance.asset := by
  obtain ⟨_, -, -, -, -, heq⟩ := h
  rw [heq]

theorem TransactionRecord.TornFrom.transactionId {text : String} {record record' : TransactionRecord}
    (h : record.TornFrom text record') : record'.transactionId = record.transactionId := by
  obtain ⟨_, -, -, -, -, heq⟩ := h
  rw [heq]

theorem KafkaCheckpoint.TornFrom.checkpointKey {text : String} {checkpoint checkpoint' : KafkaCheckpoint}
    (h : checkpoint.TornFrom text checkpoint') : PostgresTransactionRepository.checkpointKey checkpoint' =
      PostgresTransactionRepository.checkpointKey checkpoint := by
  obtain ⟨_, -, -, -, -, heq⟩ := h
  rw [heq]
  rfl

/-- The balance has a clean asset, and both its numbers are read back from their seventeen digits. -/
structure BalanceSnapshot.Storable (rnd : ℚ → ℚ) (balance : BalanceSnapshot) : Prop where
  asset : Clean balance.asset
  totalBalance : rnd balance.totalBalance = balance.totalBalance
  availableBalance : rnd balance.availableBalance = balance.availableBalance

/-- The texts of the record are clean and its numbers in the range of their types. -/
structure TransactionRecord.Storable (record : TransactionRecord) : Prop where
  texts : Clean record.transactionId ∧ Clean record.status ∧ Clean record.kafkaTopic
  kafkaPartition : -2 ^ 31 ≤ record.kafkaPartition ∧ record.kafkaPartition < 2 ^ 31
  kafkaOffset : -2 ^ 63 ≤ record.kafkaOffset ∧ record.kafkaOffset < 2 ^ 63

/-- The topic of the checkpoint is clean and its numbers in the range of their types. -/
structure KafkaCheckpoint.Storable (checkpoint : KafkaCheckpoint) : Prop where
  topic : Clean checkpoint.topic
  partition : -2 ^ 31 ≤ checkpoint.partition ∧ checkpoint.partition < 2 ^ 31
  offset : -2 ^ 63 ≤ checkpoint.offset ∧ checkpoint.offset < 2 ^ 63

section Files

variable {number : NumberText} {rnd : ℚ → ℚ} (hnumber : Numerals number.precise number.stod rnd)

include hnumber in
theorem PostgresBalanceRepository.sound {balance : BalanceSnapshot} (h : balance.Storable rnd) :
    (format number).Sound balance where
  length_fields := rfl
  fieldCount_pos := Nat.succ_pos _
  clean_fields := by
    simp only [format, List.forall_mem_cons]
    exact ⟨h.asset, hnumber.clean_text _, hnumber.clean_text _, by simp⟩
  last_ne_empty hlast := hnumber.ne_empty balance.availableBalance (Option.some.inj hlast)
  parse_fields := by simp [format, hnumber.reads, h.totalBalance, h.availableBalance]

theorem PostgresTransactionRepository.sound {record : TransactionRecord} (h : record.Storable) :
    format.Sound record where
  length_fields := rfl
  fieldCount_pos := Nat.succ_pos _
  clean_fields := by
    simp only [format, List.forall_mem_cons]
    exact ⟨h.texts.1, h.texts.2.1, h.texts.2.2, clean_repr _, clean_repr _, by simp⟩
  last_ne_empty hlast := repr_ne_empty record.kafkaOffset (Option.some.inj hlast)
  parse_fields := by simp [format, stoi_repr h.kafkaPartition, stoll_repr h.kafkaOffset]

private theorem PostgresTransactionRepository.checkpoint_sound {checkpoint : KafkaCheckpoint}
    (h : checkpoint.Storable) : checkpointFormat.Sound checkpoint where
  length_fields := rfl
  fieldCount_pos := Nat.succ_pos _
  clean_fields := by
    simp only [checkpointFormat, List.forall_mem_cons]
    exact ⟨h.topic, clean_repr _, clean_repr _, by simp⟩
  last_ne_empty hlast := repr_ne_empty checkpoint.offset (Option.some.inj hlast)
  parse_fields := by simp [checkpointFormat, stoi_repr h.partition, stoll_repr h.offset]

include hnumber in
private theorem PostgresBalanceRepository.tornFrom {text : String} {balance balance' : BalanceSnapshot}
    (h : balance.Storable rnd) (hcut : (format number).CutFrom text balance balance') :
    balance.TornFrom number text balance' := by
  obtain ⟨front, last, cut, hfields, hne, hstart, hlast, hparse⟩ := hcut
  obtain ⟨rfl, hlastField⟩ := @List.append_inj' _ [balance.asset, number.precise balance.totalBalance] _ _ _ hfields rfl
  cases hlastField
  simp only [format, List.cons_append, List.nil_append, hnumber.reads, h.totalBalance, Option.bind_eq_bind,
    Option.bind_some, Option.pure_def, Option.bind_eq_some_iff, Option.some.injEq] at hparse
  obtain ⟨available, havailable, rfl⟩ := hparse
  exact ⟨cut, hne, hstart, hlast, havailable, rfl⟩

private theorem PostgresTransactionRepository.tornFrom {text : String} {record record' : TransactionRecord}
    (h : record.Storable) (hcut : format.CutFrom text record record') : record.TornFrom text record' := by
  obtain ⟨front, last, cut, hfields, hne, hstart, hlast, hparse⟩ := hcut
  obtain ⟨rfl, hlastField⟩ := @List.append_inj' _ [record.transactionId, record.status, record.kafkaTopic,
    Int.repr record.kafkaPartition] _ _ _ hfields rfl
  cases hlastField
  simp only [format, List.cons_append, List.nil_append, stoi_repr h.kafkaPartition, Option.bind_eq_bind,
    Option.bind_some, Option.pure_def, Option.bind_eq_some_iff, Option.some.injEq] at hparse
  obtain ⟨offset, hoffset, rfl⟩ := hparse
  exact ⟨cut, hne, hstart, hlast, hoffset, rfl⟩

private theorem PostgresTransactionRepository.checkpoint_tornFrom {text : String}
    {checkpoint checkpoint' : KafkaCheckpoint}
    (h : checkpoint.Storable) (hcut : checkpointFormat.CutFrom text checkpoint checkpoint') :
    checkpoint.TornFrom text checkpoint' := by
  obtain ⟨front, last, cut, hfields, hne, hstart, hlast, hparse⟩ := hcut
  obtain ⟨rfl, hlastField⟩ := @List.append_inj' _ [checkpoint.topic, Int.repr checkpoint.partition] _ _ _ hfields rfl
  cases hlastField
  simp only [checkpointFormat, List.cons_append, List.nil_append, stoi_repr h.partition, Option.bind_eq_bind,
    Option.bind_some, Option.pure_def, Option.bind_eq_some_iff, Option.some.injEq] at hparse
  obtain ⟨offset, hoffset, rfl⟩ := hparse
  exact ⟨cut, hne, hstart, hlast, hoffset, rfl⟩

include hnumber in
/-- Whatever is loaded from a file of balances, transactions or checkpoints that a crash has cut off was written, but
for the last field of the last line, which may come back as the number that is left of it. -/
theorem torn_write (text : String) :
    (∀ repository loaded : InMemoryBalanceRepository,
      (∀ (k : String) (balance : BalanceSnapshot), repository.balances[k]? = some balance →
        balance.asset = k ∧ balance.Storable rnd) →
      text.toList <+: (PostgresBalanceRepository.flush number repository).toList →
      PostgresBalanceRepository.load number (some text) = some loaded →
      ∀ (k : String) (balance' : BalanceSnapshot), loaded.balances[k]? = some balance' →
        ∃ balance, repository.balances[k]? = some balance ∧
          (balance' = balance ∨ balance.TornFrom number text balance')) ∧
    (∀ (repository : PostgresTransactionRepository) (loaded : StringMap TransactionRecord),
      (∀ (k : String) (record : TransactionRecord), repository.records[k]? = some record →
        record.transactionId = k ∧ record.Storable) →
      text.toList <+: repository.flush.toList → PostgresTransactionRepository.load (some text) = some loaded →
      ∀ (k : String) (record' : TransactionRecord), loaded[k]? = some record' →
        ∃ record, repository.records[k]? = some record ∧ (record' = record ∨ record.TornFrom text record')) ∧
    (∀ (repository : PostgresTransactionRepository) (loaded : StringMap KafkaCheckpoint),
      (∀ (k : String) (checkpoint : KafkaCheckpoint), repository.checkpoints[k]? = some checkpoint →
        PostgresTransactionRepository.checkpointKey checkpoint = k ∧ checkpoint.Storable) →
      text.toList <+: repository.flushCheckpoints.toList →
      PostgresTransactionRepository.loadCheckpoints (some text) = some loaded →
      ∀ (k : String) (checkpoint' : KafkaCheckpoint), loaded[k]? = some checkpoint' →
        ∃ checkpoint, repository.checkpoints[k]? = some checkpoint ∧
          (checkpoint' = checkpoint ∨ checkpoint.TornFrom text checkpoint')) := by
  refine ⟨fun repository loaded hstored hstart hload k balance' hbalance' => ?_,
    fun repository loaded hstored hstart hload k record' hrecord' => ?_,
    fun repository loaded hstored hstart hload k checkpoint' hcheckpoint' => ?_⟩
  · simp only [PostgresBalanceRepository.load, Option.bind_eq_bind, Option.bind_eq_some_iff, Option.pure_def,
      Option.some.injEq] at hload
    obtain ⟨balances, hbalances, rfl⟩ := hload
    exact RecordFormat.load_prefix_keyed (fun _ => PostgresBalanceRepository.sound hnumber)
      (fun _ _ => PostgresBalanceRepository.tornFrom hnumber) (fun _ _ htorn => htorn.asset) hstored hstart hbalances
      hbalance'
  · simp only [PostgresTransactionRepository.load, Option.bind_eq_bind, Option.bind_eq_some_iff, Option.pure_def,
      Option.some.injEq] at hload
    obtain ⟨records, hrecords, rfl⟩ := hload
    exact RecordFormat.load_prefix_keyed (fun _ => PostgresTransactionRepository.sound)
      (fun _ _ => PostgresTransactionRepository.tornFrom) (fun _ _ htorn => htorn.transactionId) hstored hstart
      hrecords hrecord'
  · simp only [PostgresTransactionRepository.loadCheckpoints, Option.bind_eq_bind, Option.bind_eq_some_iff,
      Option.pure_def, Option.some.injEq] at hload
    obtain ⟨checkpoints, hcheckpoints, rfl⟩ := hload
    exact RecordFormat.load_prefix_keyed (fun _ => PostgresTransactionRepository.checkpoint_sound)
      (fun _ _ => PostgresTransactionRepository.checkpoint_tornFrom) (fun _ _ htorn => htorn.checkpointKey) hstored
      hstart hcheckpoints hcheckpoint'

end Files

/-- A processed transaction at this offset. -/
def exampleTransaction (kafkaOffset : Int) : TransactionRecord where
  transactionId := "tx-1"
  status := "processed"
  kafkaTopic := "transactions"
  kafkaOffset := kafkaOffset

/-- The file of one transaction at the offset 41, without its last two bytes. -/
def exampleTorn : String := "tx-1\tprocessed\ttransactions\t0\t4"

private theorem storable_exampleTransaction : (exampleTransaction 41).Storable :=
  ⟨by decide, by decide, by decide⟩

theorem torn_write_exampleTorn :
    ∃ record, (({} : StringMap TransactionRecord).insert "tx-1" (exampleTransaction 41))["tx-1"]? = some record ∧
      (exampleTransaction 4 = record ∨ record.TornFrom exampleTorn (exampleTransaction 4)) := by
  have hload : PostgresTransactionRepository.format.load (some exampleTorn) = some [exampleTransaction 4] := by
    decide +kernel
  have hprecise : Numerals decimalText.precise decimalText.stod _ := numerals_significant 17
  refine (torn_write hprecise exampleTorn).2.1
    { records := ({} : StringMap TransactionRecord).insert "tx-1" (exampleTransaction 41) } _ ?_
    (by decide +kernel) (by rw [PostgresTransactionRepository.load, hload]; rfl) "tx-1" (exampleTransaction 4)
    (by decide +kernel)
  intro k record hrecord
  rw [KeyedMap.getElem?_insert] at hrecord
  split at hrecord
  · rename_i hkey
    cases hrecord
    exact ⟨hkey, storable_exampleTransaction⟩
  · simp at hrecord

/-- The transaction comes back with the offset 4, which was not written. -/
theorem torn_offset :
    exampleTorn.toList <+: (PostgresTransactionRepository.flush
      { records := ({} : StringMap TransactionRecord).insert "tx-1" (exampleTransaction 41) }).toList ∧
    (∀ t ∈ ["tx-1", "processed", "transactions"], Clean t) ∧
    (PostgresTransactionRepository.load (some exampleTorn)).map (fun loaded => loaded["tx-1"]?) =
      some (some (exampleTransaction 4)) ∧
    exampleTransaction 4 ≠ exampleTransaction 41 := by
  decide +kernel

end Wall
