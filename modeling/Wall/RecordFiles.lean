import Wall.Replay
import Wall.Lib.FileStore

/-!
# Files of records

The repositories of `infrastructure/postgres_repositories.cpp` keep their records in files with one record a line, the
fields separated by tabs.  `load` skips a line with another number of fields, `flush` writes all records.  A record
whose last field is empty gets lost, since `split_tsv` makes no field of it; the others are read back with their
numbers rounded (`load_flush`).
-/

namespace Wall

open KeyedMap ReplayService

/-- How numbers are written and read: `streamed` is `stream << value`, `precise` the same after
`std::setprecision(17)`, `toString` is `std::to_string`, `stod` is `std::stod`, none where it throws. -/
structure NumberText where
  streamed : ℚ → String
  precise : ℚ → String
  toString : ℚ → String
  stod : String → Option ℚ

namespace NumberText

variable {text : NumberText} {rnd : ℚ → ℚ}

def encodeOptionalDouble (text : NumberText) : Option ℚ → String
  | some value => text.toString value
  | none => ""

/-- An optional number of a record: an empty field is none. -/
def decodeOptionalDouble (text : NumberText) (value : String) : Option (Option ℚ) :=
  if value = "" then some none else (text.stod value).map some

theorem decode_encodeOptionalDouble (h : Numerals text.toString text.stod rnd) (value : Option ℚ) :
    text.decodeOptionalDouble (text.encodeOptionalDouble value) = some (value.map rnd) := by
  cases value with
  | none => rfl
  | some x => rw [encodeOptionalDouble, decodeOptionalDouble, if_neg (h.ne_empty x), h.reads]; rfl

end NumberText

theorem NumberText.clean_encodeOptionalDouble {text : NumberText} {rnd : ℚ → ℚ}
    (h : Numerals text.toString text.stod rnd) (value : Option ℚ) : Clean (text.encodeOptionalDouble value) := by
  cases value with
  | none => exact (by decide : Clean "")
  | some x => exact h.clean_text x

/-- The number of fields of a record, what they are, and the record that `load` makes of them; none where it throws. -/
structure RecordFormat (ρ : Type*) where
  fieldCount : Nat
  fields : ρ → List String
  parse : List String → Option ρ

namespace RecordFormat

variable {ρ : Type*} (format : RecordFormat ρ)

/-- The record of a line, if it has one. -/
def readLine (line : String) : Option (Option ρ) :=
  let fields := splitTsv line
  if fields.length ≠ format.fieldCount then some none else (format.parse fields).map some

/-- The records of the lines of a file. -/
def readLines : List String → Option (List ρ)
  | [] => some []
  | line :: lines => do
    let record ← format.readLine line
    let records ← readLines lines
    return record.toList ++ records

/-- The records of a file, if there is one. -/
def load : Option String → Option (List ρ)
  | none => some []
  | some file => format.readLines ((Getline.tokens '\n' file.toList).map String.ofList)

def line (record : ρ) : String := "\t".intercalate (format.fields record)

def flush (records : List ρ) : String := String.join ((records.map format.line).map (· ++ "\n"))

/-- The last field of a record is empty. -/
def EndsEmpty (record : ρ) : Prop := (format.fields record).getLast? = some ""

instance (record : ρ) : Decidable (format.EndsEmpty record) := inferInstanceAs (Decidable (_ = _))

/-- What the fields of a record are read back as: the record with its numbers rounded.  The texts of a record are
fields of it. -/
structure Reads (texts : ρ → List String) (rnd : ρ → ρ) : Prop where
  length_fields : ∀ record, (format.fields record).length = format.fieldCount
  clean_fields : ∀ record, (∀ t ∈ texts record, Clean t) → ∀ field ∈ format.fields record, Clean field
  parse_fields : ∀ record, format.parse (format.fields record) = some (rnd record)
  texts_parse : ∀ fields record, format.parse fields = some record → ∀ t ∈ texts record, t ∈ fields

variable {format} {texts : ρ → List String} {rnd : ρ → ρ}

/-- The fields of a line whose last field is empty, without it. -/
private theorem splitTsv_intercalate_empty {fields : List String} (hclean : ∀ field ∈ fields, Clean field)
    (hlast : fields.getLast? = some "") : splitTsv ("\t".intercalate fields) = fields.dropLast := by
  obtain ⟨front, rfl⟩ := List.getLast?_eq_some_iff.1 hlast
  have htokens : Getline.tokens '\t' ("\t".intercalate (front ++ [""])).toList = front.map String.toList := by
    rw [String.toList_intercalate, List.map_append]
    refine Getline.tokens_intercalate_empty ?_
    intro token htoken
    obtain ⟨field, hfield, rfl⟩ := List.mem_map.1 htoken
    exact (hclean field (List.mem_append_left _ hfield)).1
  rw [splitTsv, htokens, List.map_map, List.dropLast_concat]
  simp [Function.comp_def]

/-- The fields of a line have no tab, and no newline if the line has none. -/
private theorem clean_of_mem_splitTsv {line field : String} (hline : '\n' ∉ line.toList)
    (hfield : field ∈ splitTsv line) : Clean field := by
  obtain ⟨token, htoken, rfl⟩ := List.mem_map.1 hfield
  rw [Clean, String.toList_ofList]
  exact ⟨fun h => (Getline.mem_of_mem_tokens htoken h).2 rfl, fun h => hline (Getline.mem_of_mem_tokens htoken h).1⟩

/-- The line of a record gives the record back, unless its last field is empty. -/
private theorem readLine_line (h : format.Reads texts rnd) {record : ρ} (hclean : ∀ t ∈ texts record, Clean t) :
    format.readLine (format.line record) =
      some (if format.EndsEmpty record then none else some (rnd record)) := by
  have hfields := h.clean_fields record hclean
  unfold readLine line
  by_cases hlast : format.EndsEmpty record
  · have hpos : 0 < (format.fields record).length :=
      List.length_pos_iff.2 fun hnil => by rw [EndsEmpty, hnil] at hlast; cases hlast
    have hlength : (format.fields record).dropLast.length ≠ format.fieldCount := by
      rw [List.length_dropLast, h.length_fields record] at *
      omega
    rw [splitTsv_intercalate_empty hfields hlast, if_pos hlength, if_pos hlast]
  · rw [splitTsv_intercalate hfields hlast, if_neg (not_not.2 (h.length_fields record)), h.parse_fields, if_neg hlast]
    rfl

private theorem newline_not_mem_line (h : format.Reads texts rnd) {record : ρ} (hclean : ∀ t ∈ texts record, Clean t) :
    '\n' ∉ (format.line record).toList := by
  rw [line, String.toList_intercalate]
  refine not_mem_intercalate (by decide) ?_
  intro part hpart
  obtain ⟨field, hfield, rfl⟩ := List.mem_map.1 hpart
  exact (h.clean_fields record hclean field hfield).2

/-- A file is read back as the records that were written, their numbers rounded, without those that end with an empty
field. -/
theorem load_flush (h : format.Reads texts rnd) {records : List ρ}
    (hclean : ∀ record ∈ records, ∀ t ∈ texts record, Clean t) :
    format.load (some (format.flush records)) =
      some ((records.filter fun record => ¬format.EndsEmpty record).map rnd) := by
  have htokens : (Getline.tokens '\n' (format.flush records).toList).map String.ofList = records.map format.line := by
    refine tokens_of_isLog ?_ (.inl rfl)
    intro line hline
    obtain ⟨record, hrecord, rfl⟩ := List.mem_map.1 hline
    exact newline_not_mem_line h (hclean record hrecord)
  have hlines : ∀ record ∈ records, format.readLine (format.line record) =
      some (if format.EndsEmpty record then none else some (rnd record)) :=
    fun record hrecord => readLine_line h (hclean record hrecord)
  rw [load, htokens]
  clear htokens hclean
  induction records with
  | nil => rfl
  | cons record records ih =>
    obtain ⟨hrecord, hrest⟩ := List.forall_mem_cons.1 hlines
    rw [List.map_cons, readLines, hrecord, ih hrest, List.filter_cons]
    by_cases hlast : format.EndsEmpty record <;> simp [hlast]

/-- The texts of the records of lines are fields of the lines. -/
private theorem clean_readLines (h : format.Reads texts rnd) {lines : List String}
    (hlines : ∀ line ∈ lines, '\n' ∉ line.toList) {records : List ρ} (hread : format.readLines lines = some records) :
    ∀ record ∈ records, ∀ t ∈ texts record, Clean t := by
  induction lines generalizing records with
  | nil =>
    cases hread
    simp
  | cons line lines ih =>
    obtain ⟨hline, hrest⟩ := List.forall_mem_cons.1 hlines
    simp only [readLines, Option.bind_eq_bind, Option.bind_eq_some_iff, Option.pure_def, Option.some.injEq] at hread
    obtain ⟨record, hrecord, rest, hread, rfl⟩ := hread
    refine List.forall_mem_append.2 ⟨?_, ih hrest hread⟩
    intro r hr t ht
    rw [Option.mem_toList] at hr
    subst hr
    simp only [readLine] at hrecord
    split at hrecord
    · cases hrecord
    · obtain ⟨r', hparse, heq⟩ := Option.map_eq_some_iff.1 hrecord
      cases heq
      exact clean_of_mem_splitTsv hline (h.texts_parse _ _ hparse t ht)

/-- The texts of the records in a file have no tab and no newline. -/
theorem clean_load (h : format.Reads texts rnd) {file : Option String} {records : List ρ}
    (hload : format.load file = some records) : ∀ record ∈ records, ∀ t ∈ texts record, Clean t := by
  cases file with
  | none =>
    cases hload
    simp
  | some file =>
    refine clean_readLines h ?_ hload
    intro line hline hnewline
    obtain ⟨token, htoken, rfl⟩ := List.mem_map.1 hline
    rw [String.toList_ofList] at hnewline
    exact (Getline.mem_of_mem_tokens htoken hnewline).2 rfl

/-! ### Keyed records -/

/-- A map that holds each record under its key, the records' texts without tab and newline. -/
structure Holds (key : ρ → String) (texts : ρ → List String) (records : StringMap ρ) : Prop where
  keyed : ∀ (k : String) (record : ρ), records[k]? = some record → key record = k
  clean : ∀ (k : String) (record : ρ), records[k]? = some record → ∀ t ∈ texts record, Clean t

variable {key : ρ → String}

theorem holds_empty : Holds key texts ∅ := ⟨by simp, by simp⟩

theorem Holds.insert {records : StringMap ρ} (h : Holds key texts records) {a : String} {record : ρ}
    (hkey : key record = a) (hclean : ∀ t ∈ texts record, Clean t) : Holds key texts (records.insert a record) :=
  ⟨forall_insert h.keyed hkey, forall_insert h.clean hclean⟩

theorem holds_ofValues {records : List ρ} (hclean : ∀ record ∈ records, ∀ t ∈ texts record, Clean t) :
    Holds key texts (ofValues key records) := by
  induction records using List.reverseRecOn with
  | nil => exact holds_empty
  | append_singleton records record ih =>
    rw [List.forall_mem_append, List.forall_mem_singleton] at hclean
    rw [ofValues_concat]
    exact (ih hclean.1).insert rfl hclean.2

/-- A map of records that is written by key and read back is the same exactly if its records are. -/
theorem load_flush_keyed (h : format.Reads texts rnd) (hends : ∀ record, ¬format.EndsEmpty record)
    (hkey : ∀ record, key (rnd record) = key record) {records : StringMap ρ} (hrecords : Holds key texts records) :
    (format.load (some (format.flush (records.toList.map Prod.snd)))).map (ofValues key) = some records ↔
      ∀ (k : String) (record : ρ), records[k]? = some record → rnd record = record := by
  have hclean : ∀ record ∈ records.toList.map Prod.snd, ∀ t ∈ texts record, Clean t := by
    intro record hrecord
    obtain ⟨⟨k, r⟩, hmem, rfl⟩ := List.mem_map.1 hrecord
    exact hrecords.clean k r (Std.ExtTreeMap.mem_toList_iff_getElem?_eq_some.1 hmem)
  have hfilter : (records.toList.map Prod.snd).filter (fun record => ¬format.EndsEmpty record) =
      records.toList.map Prod.snd := List.filter_eq_self.2 fun record _ => decide_eq_true (hends record)
  have hread : ∀ k : String,
      (ofValues key ((records.toList.map Prod.snd).map rnd) : StringMap ρ)[k]? = records[k]?.map rnd :=
    getElem?_ofValues key rnd fun k record hrecord => (hkey record).trans (hrecords.keyed k record hrecord)
  rw [load_flush h hclean, hfilter, Option.map_some, Option.some.injEq, Std.ExtTreeMap.ext_getElem?_iff]
  refine forall_congr' fun k => ?_
  rw [hread]
  cases records[k]? <;> simp

end RecordFormat

end Wall
