import Wall.StateFiles

/-!
# Damaged state files

A line is well formed if it has the right number of fields and every column can be read.  `load` skips a line with
another number of fields, but throws at a line whose number of fields is right and in which a column cannot be read: it
returns the well-formed lines exactly if there is no such line (`load_iff`).  A replay of the event log skips both.
-/

namespace Wall

open ReplayService

/-- The lines of a file, if there is one. -/
def linesOf : Option String → List String
  | none => []
  | some text => (Getline.tokens '\n' text.toList).map String.ofList

namespace RecordFormat

variable {ρ : Type*} {format : RecordFormat ρ}

/-- The record of a line that is well formed. -/
def recordOf (format : RecordFormat ρ) (line : String) : Option ρ :=
  if (splitTsv line).length ≠ format.fieldCount then none else format.parse (splitTsv line)

theorem load_eq_readLines (content : Option String) : format.load content = format.readLines (linesOf content) := by
  cases content <;> rfl

/-- The line is skipped or decoded. -/
def Decodes (format : RecordFormat ρ) (line : String) : Prop :=
  (splitTsv line).length = format.fieldCount → (format.parse (splitTsv line)).isSome = true

private theorem readLine_of_decodes {line : String} (h : format.Decodes line) :
    format.readLine line = some (format.recordOf line) := by
  unfold readLine recordOf
  by_cases hlength : (splitTsv line).length = format.fieldCount
  · obtain ⟨record, hrecord⟩ := Option.isSome_iff_exists.1 (h hlength)
    simp [hlength, hrecord]
  · simp [hlength]

private theorem readLine_of_not_decodes {line : String} (h : ¬ format.Decodes line) : format.readLine line = none := by
  unfold Decodes at h
  push Not at h
  obtain ⟨hlength, hparse⟩ := h
  have hnone : format.parse (splitTsv line) = none := Option.not_isSome_iff_eq_none.1 hparse
  simp [readLine, hlength, hnone]

/-- The records of the well-formed lines are read exactly if every line is skipped or decoded. -/
private theorem readLines_eq_iff (lines : List String) :
    format.readLines lines = some (lines.filterMap format.recordOf) ↔ ∀ line ∈ lines, format.Decodes line := by
  induction lines with
  | nil => simp [readLines]
  | cons line lines ih =>
    rw [List.forall_mem_cons, ← ih]
    by_cases hline : format.Decodes line
    · rw [readLines, readLine_of_decodes hline, List.filterMap_cons]
      cases format.readLines lines with
      | none => simp
      | some records => cases format.recordOf line <;> simp [hline]
    · rw [readLines, readLine_of_not_decodes hline]
      simp [hline]

private theorem readLines_eq_none {lines : List String} (h : ¬ ∀ line ∈ lines, format.Decodes line) :
    format.readLines lines = none := by
  induction lines with
  | nil => simp at h
  | cons line lines ih =>
    rw [List.forall_mem_cons, not_and_or] at h
    by_cases hline : format.Decodes line
    · rw [readLines, readLine_of_decodes hline, ih (h.resolve_left (not_not_intro hline))]
      rfl
    · rw [readLines, readLine_of_not_decodes hline]
      rfl

/-- What is read are the records of the well-formed lines. -/
theorem eq_of_readLines {lines : List String} {records : List ρ} (h : format.readLines lines = some records) :
    records = lines.filterMap format.recordOf := by
  by_cases hall : ∀ line ∈ lines, format.Decodes line
  · rw [(readLines_eq_iff lines).2 hall] at h
    exact (Option.some.inj h).symm
  · rw [readLines_eq_none hall] at h
    cases h

end RecordFormat

namespace StateFile

/-- The records of the well-formed lines. -/
def wellFormed (text : NumberText) (file : StateFile) (content : Option String) : List file.Record :=
  (linesOf content).filterMap (file.format text).recordOf

/-- Whatever the file holds, `load` returns and gives the well-formed lines, exactly if no line has the right number of
fields and a column that cannot be read. -/
theorem load_iff (text : NumberText) (file : StateFile) (content : Option String) :
    file.load text content = some (file.ofRecords (file.wellFormed text content)) ↔
      ∀ line ∈ linesOf content, (splitTsv line).length = (file.format text).fieldCount →
        ∀ entry ∈ file.columns.zip (splitTsv line), entry.1.Readable text entry.2 := by
  have hdecodes : (∀ line ∈ linesOf content, (file.format text).Decodes line) ↔
      ∀ line ∈ linesOf content, (splitTsv line).length = (file.format text).fieldCount →
        ∀ entry ∈ file.columns.zip (splitTsv line), entry.1.Readable text entry.2 :=
    forall₂_congr fun line _ => forall_congr' fun hlength => file.parse_isSome_iff text hlength
  rw [← hdecodes, load_eq, RecordFormat.load_eq_readLines]
  by_cases h : ∀ line ∈ linesOf content, (file.format text).Decodes line
  · rw [(RecordFormat.readLines_eq_iff _).2 h]
    exact iff_of_true rfl h
  · rw [RecordFormat.readLines_eq_none h]
    exact iff_of_false nofun h

/-- A file of balances, the second of which has a total that is not a number. -/
def exampleDamaged : String := "BTC\t2\t2\nETH\tmany\t1\nSOL\t3\t1\n"

/-- The two well-formed lines are not loaded, since `load` throws. -/
theorem load_throws :
    PostgresBalanceRepository.load decimalText (some exampleDamaged) = none ∧
    (linesOf (some exampleDamaged)).filterMap (PostgresBalanceRepository.format decimalText).recordOf =
      [{ asset := "BTC", totalBalance := 2, availableBalance := 2 },
        { asset := "SOL", totalBalance := 3, availableBalance := 1 }] ∧
    ¬ ∀ (file : StateFile) (content : Option String),
      file.load decimalText content = some (file.ofRecords (file.wellFormed decimalText content)) := by
  have hthrows : PostgresBalanceRepository.load decimalText (some exampleDamaged) = none := by
    have hnone : ((PostgresBalanceRepository.format decimalText).load (some exampleDamaged)).isNone = true := by
      decide +kernel
    rw [PostgresBalanceRepository.load, Option.isNone_iff_eq_none.1 hnone]
    rfl
  refine ⟨hthrows, by decide +kernel, fun hall => ?_⟩
  have hload := hall .balances (some exampleDamaged)
  rw [load, hthrows] at hload
  cases hload

end StateFile

end Wall
