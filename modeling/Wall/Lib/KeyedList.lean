import Mathlib.Data.List.Perm.Basic
import Wall.Lib.FirstMatch
import Wall.Lib.KeyedMap

/-!
# Lists that stand for maps

A table with one row for each key may be kept in a map or in a list, where a write overwrites the first row with its
key and appends a row when there is none (`upsert`).  `Lists key l m` says that the list and the map hold the same
rows; an `upsert` of the one and an insertion into the other keep it, and so does appending a row with a new key.
-/

namespace KeyedList

open Std FirstMatch

variable {κ α : Type*} {cmp : κ → κ → Ordering} [TransCmp cmp] [LawfulEqCmp cmp] [DecidableEq κ]

/-- Overwrite the first row that passes the test, or append a row. -/
def upsert (p : α → Bool) (f : α → α) (new : α) (l : List α) : List α :=
  match l.find? p with
  | some a => replaceFirst p (f a) l
  | none => l ++ [new]

section Upsert

variable {key : α → κ} {p : α → Bool} {k : κ} (f : α → α) (new : α)

theorem upsert_cases (p : α → Bool) (l : List α) :
    (∃ l₁ a l₂, l = l₁ ++ a :: l₂ ∧ p a = true ∧ l.find? p = some a ∧ upsert p f new l = l₁ ++ f a :: l₂) ∨
    (∀ a ∈ l, p a = false) ∧ l.find? p = none ∧ upsert p f new l = l ++ [new] := by
  unfold upsert
  cases hfind : l.find? p with
  | some a =>
    obtain ⟨l₁, l₂, hl, -, hreplace⟩ := find?_split hfind
    exact .inl ⟨l₁, a, l₂, hl, List.find?_some hfind, rfl, hreplace (f a)⟩
  | none => exact .inr ⟨fun a ha => Bool.eq_false_iff.2 (List.find?_eq_none.1 hfind a ha), rfl, rfl⟩

/-- An upsert adds its key at the end if the list does not have it. -/
theorem map_key_upsert (hp : ∀ a, p a = true ↔ key a = k) (hf : ∀ a, key a = k → key (f a) = k) (hnew : key new = k)
    (l : List α) : (upsert p f new l).map key = if k ∈ l.map key then l.map key else l.map key ++ [k] := by
  rcases upsert_cases f new p l with ⟨l₁, a, l₂, rfl, ha, -, heq⟩ | ⟨hnone, -, heq⟩
  · have hk := (hp a).1 ha
    have hmem : k ∈ (l₁ ++ a :: l₂).map key := by
      rw [← hk]
      exact List.mem_map_of_mem (List.mem_append_right _ (List.mem_cons_self ..))
    rw [heq, if_pos hmem, List.map_append, List.map_append, List.map_cons, List.map_cons, hf a hk, hk]
  · have hmem : k ∉ l.map key := by
      intro hk
      obtain ⟨a, ha, rfl⟩ := List.mem_map.1 hk
      exact Bool.false_ne_true ((hnone a ha).symm.trans ((hp a).2 rfl))
    rw [heq, if_neg hmem, List.map_append, List.map_singleton, hnew]

omit [TransCmp cmp] [LawfulEqCmp cmp] [DecidableEq κ] in
/-- An upsert does not show in a search for another key. -/
theorem find?_upsert_of_ne (hp : ∀ a, p a = true ↔ key a = k) (hf : ∀ a, key a = k → key (f a) = k)
    (hnew : key new = k) {q : α → Bool} (hq : ∀ a, q a = true → key a ≠ k) (l : List α) :
    (upsert p f new l).find? q = l.find? q := by
  have hnot : ∀ a, key a = k → q a = false := fun a ha => Bool.eq_false_iff.2 fun hqa => hq a hqa ha
  rcases upsert_cases f new p l with ⟨l₁, a, l₂, rfl, ha, -, heq⟩ | ⟨-, -, heq⟩
  · have hk := (hp a).1 ha
    rw [heq, List.find?_append, List.find?_append, List.find?_cons_of_neg (by simp [hnot _ (hf a hk)]),
      List.find?_cons_of_neg (by simp [hnot a hk])]
  · rw [heq, List.find?_append, List.find?_cons_of_neg (by simp [hnot new hnew]), List.find?_nil, Option.or_none]

theorem upsert_ne_nil (p : α → Bool) (l : List α) : upsert p f new l ≠ [] := by
  rcases upsert_cases f new p l with ⟨l₁, a, l₂, -, -, -, heq⟩ | ⟨-, -, heq⟩ <;> rw [heq] <;> simp

end Upsert

/-- The list holds the values of the map, one for each key. -/
structure Lists (key : α → κ) (l : List α) (m : ExtTreeMap κ α cmp) : Prop where
  nodup : (l.map key).Nodup
  get : ∀ (k : κ) (a : α), m[k]? = some a ↔ a ∈ l ∧ key a = k

namespace Lists

variable {key : α → κ} {l : List α} {m : ExtTreeMap κ α cmp}

omit [LawfulEqCmp cmp] [DecidableEq κ] in
theorem empty (key : α → κ) : Lists key [] (∅ : ExtTreeMap κ α cmp) :=
  ⟨.nil, fun k a => by simp⟩

variable (h : Lists key l m)
include h

omit [DecidableEq κ] in
theorem perm : l.Perm (m.toList.map Prod.snd) := by
  have hkey : ∀ (k : κ) (a : α), m[k]? = some a → key (id a) = k := fun k a ha => ((h.get k a).1 ha).2
  have hvalues : (m.toList.map Prod.snd).Nodup := by
    have hnodup := KeyedMap.nodup_map_key key id hkey
    rw [List.map_id] at hnodup
    exact hnodup.of_map key
  refine (List.perm_ext_iff_of_nodup (h.nodup.of_map key) hvalues).2 fun a => ?_
  constructor
  · intro ha
    exact List.mem_map.2 ⟨(key a, a), ExtTreeMap.mem_toList_iff_getElem?_eq_some.2 ((h.get _ a).2 ⟨ha, rfl⟩), rfl⟩
  · intro ha
    obtain ⟨⟨k, b⟩, hb, rfl⟩ := List.mem_map.1 ha
    exact ((h.get k b).1 (ExtTreeMap.mem_toList_iff_getElem?_eq_some.1 hb)).1

omit [LawfulEqCmp cmp] [DecidableEq κ] in
theorem getElem?_eq_none {k : κ} (hk : k ∉ l.map key) : m[k]? = none := by
  cases hm : m[k]? with
  | none => rfl
  | some a =>
    obtain ⟨ha, rfl⟩ := (h.get k a).1 hm
    exact absurd (List.mem_map_of_mem ha) hk

/-- Appending a row with a new key. -/
theorem append {a : α} (ha : key a ∉ l.map key) : Lists key (l ++ [a]) (m.insert (key a) a) := by
  refine ⟨?_, fun k b => ?_⟩
  · rw [List.map_append, List.map_singleton, ← List.concat_eq_append]
    exact (List.nodup_concat _ _).2 ⟨ha, h.nodup⟩
  · rw [KeyedMap.getElem?_insert, List.mem_append, List.mem_singleton]
    by_cases hk : key a = k
    · rw [if_pos hk, Option.some.injEq]
      constructor
      · rintro rfl
        exact ⟨.inr rfl, hk⟩
      · rintro ⟨hb | rfl, hbk⟩
        · exact absurd (hbk.trans hk.symm ▸ List.mem_map_of_mem hb) ha
        · rfl
    · rw [if_neg hk, h.get]
      refine and_congr_left fun hbk => (or_iff_left ?_).symm
      rintro rfl
      exact hk hbk

/-- Overwriting a row by one with the same key. -/
theorem replace {l₁ l₂ : List α} {a b : α} (hl : l = l₁ ++ a :: l₂) (hab : key b = key a) :
    Lists key (l₁ ++ b :: l₂) (m.insert (key a) b) := by
  subst hl
  have hnodup := h.nodup
  rw [List.map_append, List.map_cons] at hnodup
  refine ⟨by rwa [List.map_append, List.map_cons, hab], fun k c => ?_⟩
  have hothers : ∀ x ∈ l₁ ++ l₂, key x ≠ key a := by
    intro x hx hxa
    rw [List.nodup_middle, List.nodup_cons, ← List.map_append] at hnodup
    exact hnodup.1 (hxa ▸ List.mem_map_of_mem hx)
  have hmem : ∀ y, c ∈ l₁ ++ y :: l₂ ↔ c ∈ l₁ ++ l₂ ∨ c = y := fun y => by
    rw [List.mem_append, List.mem_append, List.mem_cons]
    tauto
  rw [KeyedMap.getElem?_insert, hmem]
  by_cases hk : key a = k
  · rw [if_pos hk, Option.some.injEq]
    constructor
    · rintro rfl
      exact ⟨.inr rfl, hab.trans hk⟩
    · rintro ⟨hc | rfl, hck⟩
      · exact absurd (hck.trans hk.symm) (hothers c hc)
      · rfl
  · rw [if_neg hk, h.get, hmem]
    refine and_congr_left fun hck => or_congr_right ?_
    constructor
    · rintro rfl
      exact absurd hck hk
    · rintro rfl
      exact absurd (hab.symm.trans hck) hk

/-- An upsert writes what an insertion writes. -/
theorem upsert (f : α → α) (new : α) {p : α → Bool} {k : κ} (hp : ∀ a, p a = true ↔ key a = k)
    (hf : ∀ a, key a = k → key (f a) = k) (hnew : key new = k) :
    Lists key (upsert p f new l) (m.insert k ((m[k]?.map f).getD new)) := by
  rcases upsert_cases f new p l with ⟨l₁, a, l₂, hl, ha, -, heq⟩ | ⟨hnone, -, heq⟩
  · have hk := (hp a).1 ha
    have hget : m[k]? = some a :=
      (h.get k a).2 ⟨by rw [hl]; exact List.mem_append_right _ (List.mem_cons_self ..), hk⟩
    rw [heq, hget, Option.map_some, Option.getD_some, ← hk]
    exact h.replace hl ((hf a hk).trans hk.symm)
  · have hmem : k ∉ l.map key := by
      intro hmem
      obtain ⟨a, ha, rfl⟩ := List.mem_map.1 hmem
      exact Bool.false_ne_true ((hnone a ha).symm.trans ((hp a).2 rfl))
    rw [heq, h.getElem?_eq_none hmem, Option.map_none, Option.getD_none, ← hnew]
    exact h.append (hnew ▸ hmem)

end Lists

end KeyedList
