import Mathlib.Data.List.Induction

/-!
# A store over a file

A store that is constructed from what its file holds, and that rewrites the file from its contents after every call
that concerns it.  Reading back what was written may change the contents or fail.  `reloads_iff`: after any calls a new
store on the file holds what the old one holds, exactly if no call has written the file or the contents survive one
round through it.
-/

/-- How a store reads and writes its file, and what the calls that concern it do to its contents. -/
structure FileStore (σ ι φ : Type*) where
  load : φ → Option σ
  flush : σ → φ
  update : ι → Option (σ → σ)

namespace FileStore

/-- A store in use: what it holds, and its file. -/
structure Opened (σ φ : Type*) where
  contents : σ
  file : φ

variable {σ ι φ : Type*} (S : FileStore σ ι φ)

/-- A new store on a file; none when it cannot be loaded. -/
def construct (file : φ) : Option (Opened σ φ) :=
  (S.load file).map fun contents => { contents := contents, file := file }

def call (store : Opened σ φ) (i : ι) : Opened σ φ :=
  match S.update i with
  | none => store
  | some f => { contents := f store.contents, file := S.flush (f store.contents) }

def calls (store : Opened σ φ) (is : List ι) : Opened σ φ := is.foldl S.call store

/-- A new store on the file holds what this one holds. -/
def Reloads (store : Opened σ φ) : Prop := (S.construct store.file).map Opened.contents = some store.contents

variable {S}

private theorem reloads_iff_load {store : Opened σ φ} : S.Reloads store ↔ S.load store.file = some store.contents := by
  rw [Reloads, construct, Option.map_map]
  cases S.load store.file <;> simp

/-- What the updates keep, the calls keep. -/
theorem calls_invariant {Inv : σ → Prop} {is : List ι}
    (hupdate : ∀ i ∈ is, ∀ f ∈ S.update i, ∀ contents, Inv contents → Inv (f contents)) {store : Opened σ φ}
    (h : Inv store.contents) : Inv (S.calls store is).contents := by
  induction is generalizing store with
  | nil => exact h
  | cons i is ih =>
    refine ih (fun j hj => hupdate j (List.mem_cons_of_mem _ hj)) ?_
    unfold call
    cases hi : S.update i with
    | none => exact h
    | some f => exact hupdate i (List.mem_cons_self ..) f hi _ h

/-- The file is as it was, or holds what the store holds now. -/
theorem calls_file (store : Opened σ φ) (is : List ι) :
    (∀ i ∈ is, S.update i = none) ∧ S.calls store is = store ∨
      (∃ i ∈ is, S.update i ≠ none) ∧ (S.calls store is).file = S.flush (S.calls store is).contents := by
  induction is using List.reverseRecOn with
  | nil => exact .inl ⟨by simp, rfl⟩
  | append_singleton is i ih =>
    have hcalls : S.calls store (is ++ [i]) = S.call (S.calls store is) i := by
      rw [calls, List.foldl_append, List.foldl_cons, List.foldl_nil, calls]
    rw [hcalls, call]
    cases hi : S.update i with
    | some f => exact .inr ⟨⟨i, List.mem_append_right _ (List.mem_singleton_self i), by simp [hi]⟩, rfl⟩
    | none =>
      rcases ih with ⟨hnone, heq⟩ | ⟨⟨j, hj, hne⟩, hfile⟩
      · exact .inl ⟨List.forall_mem_append.2 ⟨hnone, by simpa using hi⟩, heq⟩
      · exact .inr ⟨⟨j, List.mem_append_left _ hj, hne⟩, hfile⟩

/-- After calls a new store on the file holds what the old one holds exactly if no call has written the file, or the
contents survive being written and read. -/
theorem reloads_iff {Inv Survives : σ → Prop} {is : List ι}
    (hload : ∀ file contents, S.load file = some contents → Inv contents)
    (hupdate : ∀ i ∈ is, ∀ f ∈ S.update i, ∀ contents, Inv contents → Inv (f contents))
    (hflush : ∀ contents, Inv contents → (S.load (S.flush contents) = some contents ↔ Survives contents))
    {store : Opened σ φ} (hstore : S.Reloads store) :
    S.Reloads (S.calls store is) ↔ (∀ i ∈ is, S.update i = none) ∨ Survives (S.calls store is).contents := by
  have hinv := hload _ _ (reloads_iff_load.1 hstore)
  rcases calls_file (S := S) store is with ⟨hnone, heq⟩ | ⟨hsome, hfile⟩
  · rw [heq]
    exact iff_of_true hstore (.inl hnone)
  · have hwritten : ¬∀ i ∈ is, S.update i = none := by
      obtain ⟨i, hi, hne⟩ := hsome
      exact fun hnone => hne (hnone i hi)
    rw [reloads_iff_load, hfile, hflush _ (calls_invariant hupdate hinv), or_iff_right hwritten]

end FileStore
