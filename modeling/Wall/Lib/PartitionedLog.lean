import Wall.Lib.Interleaving

/-!
# Partitioned logs

A log of several partitions: each of its entries has a number in its own partition, from zero on and in the order that
they were appended in (`PartitionedLog.numbered`).  A reader gets the entries of one partition in their order and those
of different partitions in any (`Reads`).
-/

namespace PartitionedLog

open Interleaving

variable {κ α : Type*} [DecidableEq κ]

structure Entry (κ α : Type*) where
  partition : κ
  offset : Nat
  value : α

def Entry.map {β : Type*} (f : α → β) (entry : Entry κ α) : Entry κ β where
  partition := entry.partition
  offset := entry.offset
  value := f entry.value

theorem ofKey_map_entries {β : Type*} (f : α → β) (k : κ) (entries : List (Entry κ α)) :
    ofKey Entry.partition k (entries.map (Entry.map f)) = (ofKey Entry.partition k entries).map (Entry.map f) := by
  rw [ofKey, List.filter_map]
  rfl

/-- The entries of a partition have the numbers from zero on. -/
def Numbered (entries : List (Entry κ α)) : Prop :=
  ∀ k, (ofKey Entry.partition k entries).map Entry.offset =
    List.range (ofKey Entry.partition k entries).length

end PartitionedLog

open PartitionedLog Interleaving in
@[ext]
structure PartitionedLog (κ α : Type*) [DecidableEq κ] where
  entries : List (Entry κ α) := []
  numbered : Numbered entries := by exact fun _ => rfl

namespace PartitionedLog

open Interleaving

variable {κ α : Type*} [DecidableEq κ]

/-- Put a value at the end of a partition. -/
def append (log : PartitionedLog κ α) (k : κ) (a : α) : PartitionedLog κ α where
  entries := log.entries ++ [{
    partition := k
    offset := (ofKey Entry.partition k log.entries).length
    value := a }]
  numbered := by
    intro k'
    rw [ofKey, List.filter_append, ← ofKey, ← ofKey, ofKey_cons, ofKey_nil]
    by_cases hk : k = k'
    · rw [if_pos hk, List.map_append, log.numbered k', List.length_append, List.length_singleton, List.range_succ,
        ← hk]
      rfl
    · rw [if_neg hk, List.append_nil, log.numbered k']

def map {β : Type*} (f : α → β) (log : PartitionedLog κ α) : PartitionedLog κ β where
  entries := log.entries.map (Entry.map f)
  numbered := by
    intro k
    rw [ofKey_map_entries, List.map_map, List.length_map, ← log.numbered k]
    rfl

/-- The values in the order that they were appended in. -/
def values (log : PartitionedLog κ α) : List α := log.entries.map Entry.value

@[simp] theorem values_append (log : PartitionedLog κ α) (k : κ) (a : α) :
    (log.append k a).values = log.values ++ [a] := by
  unfold values append
  rw [List.map_append]
  rfl

theorem map_append {β : Type*} (f : α → β) (log : PartitionedLog κ α) (k : κ) (a : α) :
    (log.append k a).map f = (log.map f).append k (f a) := by
  have hlength : (ofKey Entry.partition k (log.map f).entries).length =
      (ofKey Entry.partition k log.entries).length := by
    show (ofKey Entry.partition k (log.entries.map (Entry.map f))).length = _
    rw [ofKey_map_entries, List.length_map]
  refine PartitionedLog.ext ?_
  show (log.entries ++ [_]).map (Entry.map f) = log.entries.map (Entry.map f) ++ [_]
  rw [List.map_append, hlength]
  rfl

/-- A reader has read the whole log. -/
def Reads (log : PartitionedLog κ α) (stream : List (Entry κ α)) : Prop :=
  ∀ k, ofKey Entry.partition k stream = ofKey Entry.partition k log.entries

end PartitionedLog
