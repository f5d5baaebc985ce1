import Mathlib.Data.List.Nodup

/-!
# A log that takes each key once

`append key` adds an entry to a log unless the log has an entry with its key, as a table does that ignores the rows
whose key it holds.  What the log keeps of a list of entries is the whole list exactly if no two have one key.
-/

namespace DistinctLog

variable {α κ : Type*} [DecidableEq κ] (key : α → κ)

def append (log : List α) (a : α) : List α :=
  if key a ∈ log.map key then log else log ++ [a]

variable {key}

theorem nodup_append {log : List α} (h : (log.map key).Nodup) (a : α) : ((append key log a).map key).Nodup := by
  unfold append
  split
  · exact h
  · rename_i hnew
    rw [List.map_append, List.nodup_append]
    refine ⟨h, List.nodup_singleton _, ?_⟩
    rintro k hk _ hk' rfl
    rw [List.map_singleton, List.mem_singleton] at hk'
    exact hnew (hk' ▸ hk)

private theorem nodup_foldl {log : List α} (h : (log.map key).Nodup) (l : List α) :
    ((l.foldl (append key) log).map key).Nodup := by
  induction l generalizing log with
  | nil => exact h
  | cons a l ih => exact ih (nodup_append h a)

/-- Entries with new and distinct keys are all kept. -/
theorem foldl_eq {log l : List α} (h : ((log ++ l).map key).Nodup) : l.foldl (append key) log = log ++ l := by
  induction l generalizing log with
  | nil => exact (List.append_nil log).symm
  | cons a l ih =>
    have hnew : key a ∉ log.map key := by
      intro hmem
      rw [List.map_append, List.nodup_append] at h
      exact h.2.2 _ hmem _ (List.mem_cons_self ..) rfl
    rw [List.foldl_cons, append, if_neg hnew, ih (by rwa [List.append_assoc, List.singleton_append]),
      List.append_assoc, List.singleton_append]

private theorem mem_foldl {log l : List α} {a : α} (h : a ∈ l.foldl (append key) log) : a ∈ log ∨ a ∈ l := by
  induction l generalizing log with
  | nil => exact .inl h
  | cons b l ih =>
    rcases ih h with hlog | hl
    · unfold append at hlog
      split at hlog
      · exact .inl hlog
      · rcases List.mem_append.1 hlog with hlog | hb
        · exact .inl hlog
        · rw [List.mem_singleton.1 hb]
          exact .inr (List.mem_cons_self ..)
    · exact .inr (List.mem_cons_of_mem _ hl)

variable (key)

/-- Records that are written to an empty log are read back exactly if no two are written with one key and each one is
read as it was written. -/
theorem map_foldl_eq_iff {τ : Type*} {write : τ → α} {read : α → τ}
    (hread : ∀ t, key (write (read (write t))) = key (write t)) {l : List τ} :
    ((l.map write).foldl (append key) []).map read = l ↔
      (l.map fun t => key (write t)).Nodup ∧ ∀ t ∈ l, read (write t) = t := by
  have hkept (h : (l.map fun t => key (write t)).Nodup) : (l.map write).foldl (append key) [] = l.map write := by
    rw [foldl_eq, List.nil_append]
    rwa [List.nil_append, List.map_map]
  constructor
  · intro h
    have hkeys : l.map (fun t => key (write t)) = ((l.map write).foldl (append key) []).map key := by
      conv_lhs => rw [← h]
      rw [List.map_map]
      refine List.map_congr_left fun a ha => ?_
      obtain ⟨t, -, rfl⟩ := List.mem_map.1 ((mem_foldl ha).resolve_left List.not_mem_nil)
      exact hread t
    have hnodup : (l.map fun t => key (write t)).Nodup := by
      rw [hkeys]
      exact nodup_foldl (by simp) _
    rw [hkept hnodup, List.map_map] at h
    refine ⟨hnodup, fun t ht => ?_⟩
    have hid : l.map (read ∘ write) = l.map id := by rw [h, List.map_id]
    exact List.map_inj_left.1 hid t ht
  · rintro ⟨hnodup, hsame⟩
    rw [hkept hnodup, List.map_map]
    exact (List.map_congr_left hsame).trans (List.map_id l)

end DistinctLog
