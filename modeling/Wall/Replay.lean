import Wall.ReplayService

/-!
# Replaying a log

What `serialize_event` writes is read back by `deserialize_event` up to the rounding of its doubles
(`deserialize_serialize`), although trailing empty fields get lost when a line is split: the last field of every line
is an integer.  So a replay gives the events of a log in order and skips the other lines (`replay_log`).
-/

namespace Wall

/-- The texts of a way to print doubles: not empty, without the characters that separate fields, lines, levels and
the two numbers of a level, and read back as the rounded double. -/
structure Numerals (print : ℚ → String) (stod : String → Option ℚ) (rnd : ℚ → ℚ) : Prop where
  ne_empty : ∀ x, print x ≠ ""
  clean : ∀ x, ∀ c ∈ (print x).toList, c ≠ '\t' ∧ c ≠ '\n' ∧ c ≠ ':' ∧ c ≠ ','
  reads : ∀ x, stod (print x) = some (rnd x)

def BookLevel.round (rnd : ℚ → ℚ) (level : BookLevel) : BookLevel where
  price := rnd level.price
  quantity := rnd level.quantity

/-- The event with every double rounded, the optional ones by the way in which those are printed. -/
def EngineEvent.round (rnd rndOptional : ℚ → ℚ) : EngineEvent → EngineEvent
  | .market event => .market { event with
      instrument := { event.instrument with
        tickSize := rnd event.instrument.tickSize
        lotSize := rnd event.instrument.lotSize }
      price := rnd event.price
      quantity := rnd event.quantity
      bidPrice := event.bidPrice.map rndOptional
      askPrice := event.askPrice.map rndOptional
      bidLevels := event.bidLevels.map (BookLevel.round rnd)
      askLevels := event.askLevels.map (BookLevel.round rnd) }
  | .transaction command => .transaction { command with
      quantity := rnd command.quantity
      price := command.price.map rndOptional }
  | .timer event => .timer event

/-- The text fields of an event. -/
def EngineEvent.texts : EngineEvent → List String
  | .market event => [event.eventId, event.instrument.instrumentId, event.instrument.exchange,
      event.instrument.symbol, event.instrument.baseAsset, event.instrument.quoteAsset]
  | .transaction command => [command.transactionId, command.userId, command.accountId, command.commandType,
      command.instrumentSymbol, command.kafkaTopic]
  | .timer event => [event.timerId]

/-- The fields of type `int`. -/
def EngineEvent.ints : EngineEvent → List Int
  | .transaction command => [command.kafkaPartition]
  | _ => []

/-- The fields of type `std::int64_t`. -/
def EngineEvent.longs : EngineEvent → List Int
  | .market event => [event.exchangeTimestamp, event.receiveTimestamp, event.processTimestamp]
  | .transaction command => [command.kafkaOffset]
  | .timer event => [event.timestamp]

/-- A text that stays within its field and its line. -/
def Clean (text : String) : Prop := '\t' ∉ text.toList ∧ '\n' ∉ text.toList

instance (text : String) : Decidable (Clean text) := inferInstanceAs (Decidable (_ ∧ _))

/-- The integers of the event are in the range of their types, and its texts have no tab and no newline. -/
structure Loggable (event : EngineEvent) : Prop where
  texts : ∀ text ∈ event.texts, Clean text
  ints : ∀ n ∈ event.ints, -2 ^ 31 ≤ n ∧ n < 2 ^ 31
  longs : ∀ n ∈ event.longs, -2 ^ 63 ≤ n ∧ n < 2 ^ 63

theorem Numerals.clean_text {print : ℚ → String} {stod : String → Option ℚ} {rnd : ℚ → ℚ}
    (h : Numerals print stod rnd) (x : ℚ) : Clean (print x) :=
  ⟨fun ht => (h.clean x _ ht).1 rfl, fun hn => (h.clean x _ hn).2.1 rfl⟩

namespace ReplayService

variable {service : ReplayService} {rnd rndOptional : ℚ → ℚ}

/-! ### Fields -/

theorem stoi_repr {n : Int} (h : -2 ^ 31 ≤ n ∧ n < 2 ^ 31) : stoi (Int.repr n) = some n := by
  rw [stoi, ← Int.toString_eq_repr, Decimal.integer_toString, Option.filter_some, if_pos (decide_eq_true h)]

theorem stoll_repr {n : Int} (h : -2 ^ 63 ≤ n ∧ n < 2 ^ 63) : stoll (Int.repr n) = some n := by
  rw [stoll, ← Int.toString_eq_repr, Decimal.integer_toString, Option.filter_some, if_pos (decide_eq_true h)]

private theorem code_range (type : MarketEventType) : -2 ^ 31 ≤ type.code ∧ type.code < 2 ^ 31 := by
  cases type <;> decide

theorem clean_repr (n : Int) : Clean (Int.repr n) := by
  rw [← Int.toString_eq_repr]
  constructor <;> intro h <;> rcases Decimal.isDigit_of_mem_toString h with h | h <;> exact absurd h (by decide)

theorem repr_ne_empty (n : Int) : Int.repr n ≠ "" := by
  rw [← Int.toString_eq_repr]
  intro h
  exact Decimal.toString_ne_nil n (by rw [h]; rfl)

theorem clean_encodeOptionalDouble (h : ∀ x, Clean (service.toString x)) (value : Option ℚ) :
    Clean (service.encodeOptionalDouble value) := by
  cases value with
  | none => exact ⟨by simp [encodeOptionalDouble], by simp [encodeOptionalDouble]⟩
  | some x => exact h x

theorem decode_encodeOptionalDouble (h : Numerals service.toString service.stod rndOptional) (value : Option ℚ) :
    service.decodeOptionalDouble (service.encodeOptionalDouble value) = some (value.map rndOptional) := by
  cases value with
  | none => rfl
  | some x =>
    rw [encodeOptionalDouble, decodeOptionalDouble, if_neg (h.ne_empty x), h.reads]
    rfl

/-- Characters of neither the separator nor a part are not in the joined text. -/
theorem not_mem_intercalate {separator : Char} {parts : List (List Char)} {c : Char} (hc : c ≠ separator)
    (h : ∀ part ∈ parts, c ∉ part) : c ∉ [separator].intercalate parts := by
  induction parts with
  | nil => exact List.not_mem_nil
  | cons part parts ih =>
    have hpart := h part (List.mem_cons_self ..)
    cases parts with
    | nil => rwa [List.intercalate_singleton]
    | cons next parts =>
      rw [List.intercalate_cons_cons, List.mem_append, List.mem_append, List.mem_singleton]
      rintro ((hmem | hmem) | hmem)
      · exact hpart hmem
      · exact hc hmem
      · exact ih (fun p hp => h p (List.mem_cons_of_mem _ hp)) hmem

/-! ### Book levels -/

/-- The text of one level. -/
def levelText (service : ReplayService) (level : BookLevel) : List Char :=
  (service.streamed level.price).toList ++ ':' :: (service.streamed level.quantity).toList

private theorem toList_encodeBookLevels (levels : List BookLevel) :
    (service.encodeBookLevels levels).toList = [','].intercalate (levels.map service.levelText) := by
  rw [encodeBookLevels, String.toList_intercalate, List.map_map]
  congr 2
  funext level
  simp [levelText]

private theorem decodeBookLevel_levelText (h : Numerals service.streamed service.stod rnd) (level : BookLevel) :
    service.decodeBookLevel (service.levelText level) = some (level.round rnd) := by
  have hprice : ∀ c ∈ (service.streamed level.price).toList, decide (c ≠ ':') = true :=
    fun c hc => decide_eq_true (h.clean _ c hc).2.2.1
  rw [decodeBookLevel, levelText, List.dropWhile_append_of_pos hprice, List.takeWhile_append_of_pos hprice]
  simp [h.reads, BookLevel.round]

private theorem mapM_decodeBookLevel (h : Numerals service.streamed service.stod rnd) (levels : List BookLevel) :
    (levels.map service.levelText).mapM service.decodeBookLevel = some (levels.map (BookLevel.round rnd)) := by
  induction levels with
  | nil => rfl
  | cons level levels ih =>
    rw [List.map_cons, List.mapM_cons, decodeBookLevel_levelText h, ih]
    rfl

private theorem not_mem_levelText (h : Numerals service.streamed service.stod rnd) (level : BookLevel) {c : Char}
    (hc : c = ',' ∨ c = '\t' ∨ c = '\n') : c ∉ service.levelText level := by
  intro hmem
  simp only [levelText, List.mem_append, List.mem_cons] at hmem
  rcases hmem with hmem | hmem | hmem
  · have hclean := h.clean _ c hmem
    rcases hc with rfl | rfl | rfl <;> simp at hclean
  · rcases hc with rfl | rfl | rfl <;> exact absurd hmem (by decide)
  · have hclean := h.clean _ c hmem
    rcases hc with rfl | rfl | rfl <;> simp at hclean

private theorem tokens_encodeBookLevels (h : Numerals service.streamed service.stod rnd) (levels : List BookLevel) :
    Getline.tokens ',' (service.encodeBookLevels levels).toList = levels.map service.levelText := by
  rw [toList_encodeBookLevels]
  refine Getline.tokens_intercalate ?_ ?_
  · intro token htoken
    obtain ⟨level, -, rfl⟩ := List.mem_map.1 htoken
    exact not_mem_levelText h level (.inl rfl)
  · rw [List.getLast?_map]
    cases levels.getLast? <;> simp [levelText]

private theorem decode_encodeBookLevels (h : Numerals service.streamed service.stod rnd) (levels : List BookLevel) :
    service.decodeBookLevels (service.encodeBookLevels levels) = some (levels.map (BookLevel.round rnd)) := by
  have htokens := tokens_encodeBookLevels h levels
  unfold decodeBookLevels
  split
  · -- only the empty list has the empty text
    rename_i hempty
    rw [hempty] at htokens
    have hnil : levels = [] := List.map_eq_nil_iff.1 htokens.symm
    rw [hnil]
    rfl
  · rw [htokens, mapM_decodeBookLevel h]

private theorem clean_encodeBookLevels (h : Numerals service.streamed service.stod rnd) (levels : List BookLevel) :
    Clean (service.encodeBookLevels levels) := by
  suffices ∀ c, c = '\t' ∨ c = '\n' → c ∉ (service.encodeBookLevels levels).toList from
    ⟨this _ (.inl rfl), this _ (.inr rfl)⟩
  intro c hc
  rw [toList_encodeBookLevels]
  refine not_mem_intercalate (by rcases hc with rfl | rfl <;> decide) ?_
  intro text htext
  obtain ⟨level, -, rfl⟩ := List.mem_map.1 htext
  exact not_mem_levelText h level (.inr hc)

/-! ### Lines -/

/-- Texts joined by a delimiter, the last of them not empty. -/
theorem tokens_intercalate {delimiter : Char} {texts : List String} (h : ∀ text ∈ texts, delimiter ∉ text.toList)
    (hlast : texts.getLast? ≠ some "") :
    Getline.tokens delimiter ([delimiter].intercalate (texts.map String.toList)) = texts.map String.toList := by
  refine Getline.tokens_intercalate (List.forall_mem_map.2 h) ?_
  rw [List.getLast?_map]
  cases htext : texts.getLast? with
  | none => simp
  | some last =>
    rw [Option.map_some]
    exact fun hnil => hlast (by rw [htext, String.toList_eq_nil_iff.1 (Option.some.inj hnil)])

/-- A line is split into the fields that it is made of. -/
theorem splitTsv_intercalate {fields : List String} (hclean : ∀ field ∈ fields, Clean field)
    (hlast : fields.getLast? ≠ some "") : splitTsv ("\t".intercalate fields) = fields := by
  have htokens : Getline.tokens '\t' ("\t".intercalate fields).toList = fields.map String.toList := by
    rw [String.toList_intercalate]
    exact tokens_intercalate (fun field hfield => (hclean field hfield).1) hlast
  rw [splitTsv, htokens, List.map_map]
  simp [Function.comp_def]

/-- The fields of a command are clean if its texts are and what is printed of a number is. -/
theorem clean_transactionFields (hstreamed : ∀ x, Clean (service.streamed x))
    (htoString : ∀ x, Clean (service.toString x)) {command : TransactionCommand}
    (htexts : ∀ text ∈ (EngineEvent.transaction command).texts, Clean text) :
    ∀ field ∈ service.fieldsOf (.transaction command), Clean field := by
  simp only [EngineEvent.texts, List.forall_mem_cons] at htexts
  obtain ⟨hid, huser, haccount, htype, hsymbol, htopic, -⟩ := htexts
  simp only [fieldsOf, List.forall_mem_cons]
  exact ⟨by decide, hid, huser, haccount, htype, hsymbol, hstreamed _, clean_encodeOptionalDouble htoString _, htopic,
    clean_repr _, clean_repr _, by simp⟩

/-- The line of clean fields has no newline in it. -/
theorem newline_not_mem_of_clean {event : EngineEvent} (h : ∀ field ∈ service.fieldsOf event, Clean field) :
    '\n' ∉ (service.serializeEvent event).toList := by
  rw [serializeEvent, String.toList_intercalate]
  refine not_mem_intercalate (by decide) ?_
  intro text htext
  obtain ⟨field, hfield, rfl⟩ := List.mem_map.1 htext
  exact (h field hfield).2

/-- The last field is an integer, so no field is lost when the line is split. -/
private theorem getLast?_fieldsOf (event : EngineEvent) : (service.fieldsOf event).getLast? ≠ some "" := by
  cases event <;> simp [fieldsOf, repr_ne_empty]

theorem splitTsv_serializeEvent {event : EngineEvent} (h : ∀ field ∈ service.fieldsOf event, Clean field) :
    splitTsv (service.serializeEvent event) = service.fieldsOf event :=
  splitTsv_intercalate h (getLast?_fieldsOf event)

section RoundTrip

variable (hstreamed : Numerals service.streamed service.stod rnd)
  (hoptional : Numerals service.toString service.stod rndOptional) {event : EngineEvent} (hevent : Loggable event)

include hstreamed hoptional hevent

private theorem clean_fieldsOf : ∀ field ∈ service.fieldsOf event, Clean field := by
  have htexts := hevent.texts
  cases event with
  | market event =>
    simp only [EngineEvent.texts, List.forall_mem_cons] at htexts
    obtain ⟨h1, h2, h3, h4, h5, h6, -⟩ := htexts
    simp only [fieldsOf, List.forall_mem_cons]
    exact ⟨by decide, h1, clean_repr _, h2, h3, h4, h5, h6, hstreamed.clean_text _, hstreamed.clean_text _,
      hstreamed.clean_text _, hstreamed.clean_text _, clean_encodeOptionalDouble hoptional.clean_text _,
      clean_encodeOptionalDouble hoptional.clean_text _, clean_encodeBookLevels hstreamed _,
      clean_encodeBookLevels hstreamed _,
      clean_repr _, clean_repr _, clean_repr _, by simp⟩
  | transaction command => exact clean_transactionFields hstreamed.clean_text hoptional.clean_text htexts
  | timer event =>
    simp only [EngineEvent.texts, List.forall_mem_cons] at htexts
    simp only [fieldsOf, List.forall_mem_cons]
    exact ⟨by decide, htexts.1, clean_repr _, by simp⟩

/-- A line that was written is read back, with its doubles rounded. -/
theorem deserialize_serialize :
    service.deserializeEvent (service.serializeEvent event) = some (event.round rnd rndOptional) := by
  rw [deserializeEvent, splitTsv_serializeEvent (clean_fieldsOf hstreamed hoptional hevent)]
  have hlongs := hevent.longs
  have hints := hevent.ints
  cases event with
  | market event =>
    simp only [EngineEvent.longs, List.forall_mem_cons] at hlongs
    obtain ⟨hexchange, hreceive, hprocess, -⟩ := hlongs
    simp [fieldsOf, deserializeMarket, EngineEvent.round, hstreamed.reads, stoi_repr (code_range _),
      stoll_repr hexchange, stoll_repr hreceive, stoll_repr hprocess, decode_encodeOptionalDouble hoptional,
      decode_encodeBookLevels hstreamed, MarketEventType.ofCode_code]
  | transaction command =>
    simp only [EngineEvent.longs, EngineEvent.ints, List.forall_mem_cons] at hlongs hints
    simp [fieldsOf, deserializeTransaction, EngineEvent.round, hstreamed.reads, stoi_repr hints.1,
      stoll_repr hlongs.1, decode_encodeOptionalDouble hoptional]
  | timer event =>
    simp only [EngineEvent.longs, List.forall_mem_cons] at hlongs
    simp [fieldsOf, deserializeTimer, EngineEvent.round, stoll_repr hlongs.1]

/-- The line of an event has no newline in it. -/
theorem newline_not_mem_serializeEvent : '\n' ∉ (service.serializeEvent event).toList :=
  newline_not_mem_of_clean (clean_fieldsOf hstreamed hoptional hevent)

end RoundTrip

/-! ### Logs -/

/-- A line of a log: that of an event, or another one. -/
inductive LogLine
  | event (event : EngineEvent)
  | other (line : String)

def LogLine.text (service : ReplayService) : LogLine → String
  | .event e => service.serializeEvent e
  | .other line => line

/-- The event of a line. -/
def LogLine.event? : LogLine → Option EngineEvent
  | .event e => some e
  | .other _ => none

def LogLine.other? : LogLine → Option String
  | .event _ => none
  | .other line => some line

/-- A line that may stand in a log: a loggable event, or a line that `deserialize_event` does not accept. -/
def LogLine.Allowed (service : ReplayService) : LogLine → Prop
  | .event e => Loggable e
  | .other line => '\n' ∉ line.toList ∧ service.deserializeEvent line = none

/-- The text of a log file: every line is ended by a newline, which the last one may lack. -/
def IsLog (lines : List String) (log : String) : Prop :=
  log = String.join (lines.map (· ++ "\n")) ∨ (log = "\n".intercalate lines ∧ lines.getLast? ≠ some "")

theorem tokens_of_isLog {lines : List String} {log : String} (hlines : ∀ line ∈ lines, '\n' ∉ line.toList)
    (hlog : IsLog lines log) : (Getline.tokens '\n' log.toList).map String.ofList = lines := by
  have hclean : ∀ token ∈ lines.map String.toList, '\n' ∉ token := by
    intro token htoken
    obtain ⟨line, hline, rfl⟩ := List.mem_map.1 htoken
    exact hlines line hline
  have htokens : Getline.tokens '\n' log.toList = lines.map String.toList := by
    rcases hlog with rfl | ⟨rfl, hlast⟩
    · have hflat := Getline.tokens_flatMap hclean []
      rw [Getline.tokens_nil, List.append_nil, List.append_nil, List.flatMap_map] at hflat
      rw [String.toList_join, List.flatMap_map, ← hflat]
      simp
    · rw [String.toList_intercalate]
      exact tokens_intercalate hlines hlast
  rw [htokens, List.map_map]
  simp [Function.comp_def]

theorem foldl_replayLine (hstreamed : Numerals service.streamed service.stod rnd)
    (hoptional : Numerals service.toString service.stod rndOptional) {lines : List LogLine}
    (hlines : ∀ line ∈ lines, line.Allowed service) (replayed : List EngineEvent × ReplayStats) :
    (lines.map (LogLine.text service)).foldl service.replayLine replayed =
      (replayed.1 ++ (lines.filterMap LogLine.event?).map (EngineEvent.round rnd rndOptional),
        { totalRecords := replayed.2.totalRecords + lines.length
          replayedRecords := replayed.2.replayedRecords + (lines.filterMap LogLine.event?).length
          skippedRecords := replayed.2.skippedRecords + (lines.filterMap LogLine.other?).length }) := by
  induction lines generalizing replayed with
  | nil => simp
  | cons line lines ih =>
    obtain ⟨hline, hrest⟩ := List.forall_mem_cons.1 hlines
    rw [List.map_cons, List.foldl_cons, ih hrest]
    cases line with
    | event event =>
      have hread := deserialize_serialize hstreamed hoptional hline
      simp only [LogLine.text, replayLine, hread, LogLine.event?, LogLine.other?, List.filterMap_cons, List.map_cons,
        List.append_assoc, List.singleton_append, List.length_cons]
      congr 2 <;> omega
    | other line =>
      simp only [LogLine.text, replayLine, hline.2, LogLine.event?, LogLine.other?, List.filterMap_cons,
        List.length_cons]
      congr 2 <;> omega

/-- A log of event lines and lines that `deserialize_event` does not accept: the handler is called with the events,
rounded, once each and in order, and the counters count all lines, the events and the other lines. -/
theorem replay_log (hstreamed : Numerals service.streamed service.stod rnd)
    (hoptional : Numerals service.toString service.stod rndOptional) (lines : List LogLine)
    (hlines : ∀ line ∈ lines, line.Allowed service) {log : String}
    (hlog : IsLog (lines.map (LogLine.text service)) log) :
    service.replay (some log) =
      ((lines.filterMap LogLine.event?).map (EngineEvent.round rnd rndOptional),
        { totalRecords := lines.length
          replayedRecords := (lines.filterMap LogLine.event?).length
          skippedRecords := (lines.filterMap LogLine.other?).length }) := by
  have htokens : (Getline.tokens '\n' log.toList).map String.ofList = lines.map (LogLine.text service) := by
    refine tokens_of_isLog ?_ hlog
    intro text htext
    obtain ⟨line, hline, rfl⟩ := List.mem_map.1 htext
    have hallowed := hlines line hline
    cases line with
    | event event => exact newline_not_mem_serializeEvent hstreamed hoptional hallowed
    | other line => exact hallowed.1
  rw [replay, htokens, foldl_replayLine hstreamed hoptional hlines]
  simp

/-- Numbers printed as their integral parts, by `std::to_string` with six zeros behind the point. -/
def exampleService : ReplayService where
  streamed x := Int.repr x.floor
  toString x := Int.repr x.floor ++ ".000000"
  stod text := (Decimal.integer text).map fun n : Int => (n : ℚ)

theorem numerals_exampleService :
    Numerals exampleService.streamed exampleService.stod (fun x => ((x.floor : Int) : ℚ)) ∧
      Numerals exampleService.toString exampleService.stod (fun x => ((x.floor : Int) : ℚ)) := by
  have hdigits : ∀ {n : Int} {c : Char}, c ∈ (Int.repr n).toList → c ≠ '\t' ∧ c ≠ '\n' ∧ c ≠ ':' ∧ c ≠ ',' := by
    intro n c hc
    refine ⟨?_, ?_, ?_, ?_⟩ <;> rintro rfl <;> rcases Decimal.isDigit_of_mem_toString hc with h | h <;>
      exact absurd h (by decide)
  constructor
  · refine ⟨fun x => repr_ne_empty _, fun x c hc => hdigits hc, fun x => ?_⟩
    simp only [exampleService, ← Int.toString_eq_repr, Decimal.integer_toString, Option.map_some]
  · refine ⟨fun x => ?_, fun x c hc => ?_, fun x => ?_⟩
    · exact fun h => repr_ne_empty _ (String.append_eq_empty_iff.1 h).1
    · rcases List.mem_append.1 (String.toList_append ▸ hc) with hc | hc
      · exact hdigits hc
      · have hrest : ∀ d ∈ ".000000".toList, d ≠ '\t' ∧ d ≠ '\n' ∧ d ≠ ':' ∧ d ≠ ',' := by simp
        exact hrest c hc
    · simp only [exampleService, ← Int.toString_eq_repr]
      rw [Decimal.integer_append _ (by simp), Option.map_some]

def exampleEvent : MarketEvent where
  eventId := "event-1"
  price := 5
  quantity := 2
  bidPrice := some 4
  askLevels := [{ price := 5, quantity := 2 }, { price := 6, quantity := 1 }]
  processTimestamp := 1000

/-- A record that does not parse, then a market event. -/
theorem replay_log_exampleEvent :
    exampleService.replay (some (exampleService.appendEvent "invalid\tbroken\trecord\n" (.market exampleEvent))) =
      ([.market exampleEvent], { totalRecords := 2, replayedRecords := 1, skippedRecords := 1 }) := by
  have hlines : ∀ line ∈ [LogLine.other "invalid\tbroken\trecord", .event (.market exampleEvent)],
      line.Allowed exampleService := by
    simp only [List.forall_mem_cons]
    refine ⟨⟨by decide, by decide +kernel⟩, ⟨by decide +kernel, by decide, by decide⟩, by simp⟩
  refine (replay_log numerals_exampleService.1 numerals_exampleService.2 _ hlines (.inl ?_)).trans (by decide +kernel)
  simp [appendEvent, LogLine.text, String.join, String.append_assoc]

end ReplayService

end Wall
