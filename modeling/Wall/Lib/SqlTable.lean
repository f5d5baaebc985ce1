import Wall.Lib.KeyedList

/-!
# Tables with a primary key

A table is the list of its rows in the order of their insertion, no two with one key.  `INSERT … ON CONFLICT … DO
UPDATE SET …` overwrites columns of the row that has the key, or appends the row (`insertOrUpdate`); the columns that
are set are described by an `Assignment`, which leaves the key alone.

Over any statements a table and a map that is written in step hold the same rows (`Holds`).  As a log, a table is the
list of the rows that were written exactly if no key was written twice (`map_rows_insertAll_iff`).
-/

namespace SqlTable

open Std KeyedList

variable {κ ρ : Type*} [DecidableEq κ]

structure Table (key : ρ → κ) where
  rows : List ρ := []
  unique : (rows.map key).Nodup := by exact List.nodup_nil

/-- What `DO UPDATE SET` makes of a row, given the row that was to be inserted. -/
structure Assignment (key : ρ → κ) where
  set : ρ → ρ → ρ
  keeps : ∀ excluded old, key (set excluded old) = key old

namespace Table

variable {key : ρ → κ}

/-- `INSERT INTO … VALUES row ON CONFLICT (key) DO UPDATE SET assignment`. -/
def insertOrUpdate (table : Table key) (assignment : Assignment key) (row : ρ) : Table key where
  rows := upsert (fun old => decide (key old = key row)) (assignment.set row) row table.rows
  unique := by
    rw [map_key_upsert (assignment.set row) row (fun _ => decide_eq_true_iff)
      (fun old hold => (assignment.keeps row old).trans hold) rfl]
    split
    · exact table.unique
    · rename_i hnew
      rw [← List.concat_eq_append]
      exact (List.nodup_concat _ _).2 ⟨hnew, table.unique⟩

/-- `SELECT … WHERE key = k`. -/
def select (table : Table key) (k : κ) : Option ρ := table.rows.find? fun row => decide (key row = k)

/-! ### Tables and maps -/

section Maps

variable {cmp : κ → κ → Ordering} [TransCmp cmp] [LawfulEqCmp cmp] {m : ExtTreeMap κ ρ cmp}

/-- The table and the map hold the same rows. -/
def Holds (table : Table key) (m : ExtTreeMap κ ρ cmp) : Prop := Lists key table.rows m

omit [LawfulEqCmp cmp] [DecidableEq κ] in
theorem holds_empty : ({} : Table key).Holds (∅ : ExtTreeMap κ ρ cmp) := Lists.empty key

theorem Holds.insertOrUpdate {table : Table key} (h : table.Holds m) (assignment : Assignment key) (row : ρ) :
    (table.insertOrUpdate assignment row).Holds
      (m.insert (key row) ((m[key row]?.map (assignment.set row)).getD row)) :=
  Lists.upsert h (assignment.set row) row (fun _ => decide_eq_true_iff)
    (fun old hold => (assignment.keeps row old).trans hold) rfl

omit [LawfulEqCmp cmp] in
theorem Holds.select {table : Table key} (h : table.Holds m) (k : κ) : table.select k = m[k]? := by
  cases hfound : table.select k with
  | none =>
    refine (h.getElem?_eq_none fun hmem => ?_).symm
    obtain ⟨row, hrow, hk⟩ := List.mem_map.1 hmem
    have hnot := List.find?_eq_none.1 hfound row hrow
    exact hnot (decide_eq_true hk)
  | some row =>
    have hkey : decide (key row = k) = true := List.find?_some (p := fun row => decide (key row = k)) hfound
    exact ((h.get k row).2 ⟨List.mem_of_find?_eq_some hfound, of_decide_eq_true hkey⟩).symm

omit [DecidableEq κ] in
theorem Holds.perm {table : Table key} (h : table.Holds m) : table.rows.Perm (m.toList.map Prod.snd) := Lists.perm h

end Maps

/-! ### Tables as logs -/

/-- The table after these rows have been inserted. -/
def insertAll (table : Table key) (assignment : Assignment key) (written : List ρ) : Table key :=
  written.foldl (fun table row => table.insertOrUpdate assignment row) table

private theorem rows_insertOrUpdate_of_new {table : Table key} (assignment : Assignment key) {row : ρ}
    (hnew : key row ∉ table.rows.map key) : (table.insertOrUpdate assignment row).rows = table.rows ++ [row] := by
  rcases upsert_cases (assignment.set row) row (fun old => decide (key old = key row)) table.rows with
    ⟨l₁, old, l₂, hrows, hold, -, -⟩ | ⟨-, -, heq⟩
  · refine absurd (List.mem_map.2 ⟨old, ?_, of_decide_eq_true hold⟩) hnew
    rw [hrows]
    exact List.mem_append_right _ (List.mem_cons_self ..)
  · exact heq

/-- Rows with new and distinct keys are appended. -/
theorem rows_insertAll_of_nodup (assignment : Assignment key) {written : List ρ} {table : Table key}
    (h : ((table.rows ++ written).map key).Nodup) :
    (table.insertAll assignment written).rows = table.rows ++ written := by
  induction written generalizing table with
  | nil => exact (List.append_nil _).symm
  | cons row written ih =>
    have hnew : key row ∉ table.rows.map key := by
      rw [List.map_append, List.map_cons, List.nodup_middle, List.nodup_cons, List.mem_append, not_or] at h
      exact h.1.1
    have hrows := rows_insertOrUpdate_of_new assignment hnew
    have hrest : (((table.insertOrUpdate assignment row).rows ++ written).map key).Nodup := by
      rw [hrows, List.append_assoc]
      exact h
    show ((table.insertOrUpdate assignment row).insertAll assignment written).rows = _
    rw [ih hrest, hrows, List.append_assoc]
    rfl

/-- Every key of a table was there before or has been inserted. -/
theorem key_mem_insertAll (assignment : Assignment key) {written : List ρ} {table : Table key} {k : κ}
    (h : k ∈ (table.insertAll assignment written).rows.map key) : k ∈ table.rows.map key ∨ k ∈ written.map key := by
  induction written generalizing table with
  | nil => exact .inl h
  | cons row written ih =>
    rcases ih h with hold | hnew
    · have hkeys := map_key_upsert (p := fun old => decide (key old = key row)) (assignment.set row) row
        (fun _ => decide_eq_true_iff) (fun old hold => (assignment.keeps row old).trans hold) rfl table.rows
      change k ∈ (upsert (fun old => decide (key old = key row)) (assignment.set row) row table.rows).map key at hold
      rw [hkeys] at hold
      split at hold
      · exact .inl hold
      · rcases List.mem_append.1 hold with hold | hk
        · exact .inl hold
        · rw [List.mem_singleton.1 hk]
          exact .inr (List.mem_cons_self ..)
    · exact .inr (List.mem_cons_of_mem _ hnew)

/-- What an empty table holds after the records have been inserted as the rows that are written of them, read back,
is the list of the records exactly if no key occurs twice and each record is read back as it was. -/
theorem map_rows_insertAll_iff {τ : Type*} {write : τ → ρ} {read : ρ → τ} (assignment : Assignment key)
    (hread : ∀ row record, key row = key (write record) → key (write (read row)) = key row) (records : List τ) :
    (({} : Table key).insertAll assignment (records.map write)).rows.map read = records ↔
      (records.map fun record => key (write record)).Nodup ∧ ∀ record ∈ records, read (write record) = record := by
  have hkeys : (records.map write).map key = records.map fun record => key (write record) := List.map_map
  have hrows (h : (records.map fun record => key (write record)).Nodup) :
      (({} : Table key).insertAll assignment (records.map write)).rows = records.map write :=
    rows_insertAll_of_nodup assignment (hkeys ▸ h)
  constructor
  · intro h
    have hunique := (({} : Table key).insertAll assignment (records.map write)).unique
    have hheld : (records.map fun record => key (write record)) =
        (({} : Table key).insertAll assignment (records.map write)).rows.map key := by
      conv_lhs => rw [← h]
      rw [List.map_map]
      refine List.map_congr_left fun row hrow => ?_
      have hmem := (key_mem_insertAll assignment (List.mem_map_of_mem hrow)).resolve_left List.not_mem_nil
      rw [hkeys] at hmem
      obtain ⟨record, -, hk⟩ := List.mem_map.1 hmem
      exact hread row record hk.symm
    have hnodup : (records.map fun record => key (write record)).Nodup := hheld ▸ hunique
    rw [hrows hnodup, List.map_map] at h
    refine ⟨hnodup, fun record hrecord => ?_⟩
    have hid : records.map (read ∘ write) = records.map id := by rw [h, List.map_id]
    exact List.map_inj_left.1 hid record hrecord
  · rintro ⟨hnodup, hfixed⟩
    rw [hrows hnodup, List.map_map]
    exact (List.map_congr_left hfixed).trans (List.map_id records)

end Table

end SqlTable
