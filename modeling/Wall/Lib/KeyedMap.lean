import Mathlib.Algebra.BigOperators.Group.Finset.Basic
import Mathlib.Algebra.BigOperators.Group.List.Basic
import Mathlib.Algebra.BigOperators.Group.Multiset.Basic
import Mathlib.Algebra.Order.BigOperators.Group.List

/-!
# Sums over a keyed map

`sumOver f m` adds `f v` over the values `v` of a map `m`, in any commutative monoid: numbers give totals and
counts, multisets give the contents of a map of lists.  Everything is derived from one fact, `sumOver_erase`:
taking a key out takes its value's summand out.

`modifyD m k f` is the update `m[k] = f(m[k])` of a container whose subscript operator creates a missing value.
-/

namespace KeyedMap

open Std

section Lookup

variable {κ : Type*} {α : Type*} {cmp : κ → κ → Ordering} [TransCmp cmp]

theorem getElem?_insert [LawfulEqCmp cmp] [DecidableEq κ] (m : ExtTreeMap κ α cmp) (k : κ) (v : α) (a : κ) :
    (m.insert k v)[a]? = if k = a then some v else m[a]? := by
  simp only [ExtTreeMap.getElem?_insert, LawfulEqCmp.compare_eq_iff_eq]

/-- What holds of every entry and of the one that is written holds of every entry afterwards. -/
theorem forall_insert [LawfulEqCmp cmp] [DecidableEq κ] {m : ExtTreeMap κ α cmp} {P : κ → α → Prop}
    (h : ∀ (k : κ) (v : α), m[k]? = some v → P k v) {a : κ} {b : α} (hb : P a b) (k : κ) (v : α)
    (hv : (m.insert a b)[k]? = some v) : P k v := by
  rw [getElem?_insert] at hv
  by_cases hk : a = k
  · rw [if_pos hk, Option.some.injEq] at hv
    exact hk ▸ hv ▸ hb
  · rw [if_neg hk] at hv
    exact h k v hv

theorem getElem?_erase [LawfulEqCmp cmp] [DecidableEq κ] (m : ExtTreeMap κ α cmp) (k a : κ) :
    (m.erase k)[a]? = if k = a then none else m[a]? := by
  simp only [ExtTreeMap.getElem?_erase, LawfulEqCmp.compare_eq_iff_eq]

theorem insert_insert [LawfulEqCmp cmp] (m : ExtTreeMap κ α cmp) (k : κ) (v w : α) :
    (m.insert k v).insert k w = m.insert k w := by
  refine ExtTreeMap.ext_getElem? fun a => ?_
  simp only [ExtTreeMap.getElem?_insert]
  split <;> rfl

theorem insert_comm [LawfulEqCmp cmp] [DecidableEq κ] (m : ExtTreeMap κ α cmp) {k k' : κ} (h : k ≠ k') (v w : α) :
    (m.insert k v).insert k' w = (m.insert k' w).insert k v := by
  refine ExtTreeMap.ext_getElem? fun a => ?_
  rw [getElem?_insert, getElem?_insert, getElem?_insert, getElem?_insert]
  by_cases hk : k = a
  · rw [if_pos hk, if_neg fun hk' => h (hk.trans hk'.symm), if_pos hk]
  · rw [if_neg hk, if_neg hk]

theorem insert_eq_self [LawfulEqCmp cmp] {m : ExtTreeMap κ α cmp} {k : κ} {v : α} (h : m[k]? = some v) :
    m.insert k v = m := by
  refine ExtTreeMap.ext_getElem? fun a => ?_
  rw [ExtTreeMap.getElem?_insert]
  split
  · rename_i hka
    rw [← ExtTreeMap.getElem?_congr hka, h]
  · rfl

/-- Two maps with the same keys are equal if one lookup answers for the entries of both. -/
theorem eq_of_lookup [LawfulEqCmp cmp] {m m' : ExtTreeMap κ α cmp} {lookup : κ → Option α}
    (hkeys : ∀ k : κ, m[k]?.isSome = m'[k]?.isSome) (h : ∀ (k : κ) (v : α), m[k]? = some v → lookup k = some v)
    (h' : ∀ (k : κ) (v : α), m'[k]? = some v → lookup k = some v) : m = m' := by
  refine ExtTreeMap.ext_getElem? fun k => ?_
  have hk := hkeys k
  cases hv : m[k]? with
  | none =>
    rw [hv, Option.isSome_none, eq_comm, Option.isSome_eq_false_iff, Option.isNone_iff_eq_none] at hk
    exact hk.symm
  | some v =>
    rw [hv, Option.isSome_some] at hk
    obtain ⟨w, hw⟩ := Option.isSome_iff_exists.1 hk.symm
    rw [hw, ← h' k w hw]
    exact (h k v hv).symm

theorem erase_of_none [LawfulEqCmp cmp] {m : ExtTreeMap κ α cmp} {k : κ} (h : m[k]? = none) : m.erase k = m := by
  refine ExtTreeMap.ext_getElem? fun a => ?_
  rw [ExtTreeMap.getElem?_erase]
  split
  · rename_i hka
    rw [← ExtTreeMap.getElem?_congr hka, h]
  · rfl

/-- Write `f` of the value at `k`, the default value standing for a missing one. -/
def modifyD [Inhabited α] (m : ExtTreeMap κ α cmp) (k : κ) (f : α → α) : ExtTreeMap κ α cmp :=
  m.insert k (f (m.getD k default))

theorem getElem?_modifyD [Inhabited α] [LawfulEqCmp cmp] [DecidableEq κ] (m : ExtTreeMap κ α cmp) (k a : κ)
    (f : α → α) : (modifyD m k f)[a]? = if k = a then some (f (m[k]?.getD default)) else m[a]? := by
  rw [modifyD, getElem?_insert, ExtTreeMap.getD_eq_getD_getElem?]

theorem forall_modifyD [Inhabited α] [LawfulEqCmp cmp] [DecidableEq κ] {m : ExtTreeMap κ α cmp} {P : κ → α → Prop}
    (h : ∀ (k : κ) (v : α), m[k]? = some v → P k v) {a : κ} {f : α → α} (hf : P a (f (m[a]?.getD default))) (k : κ)
    (v : α) (hv : (modifyD m a f)[k]? = some v) : P k v := by
  rw [modifyD, ExtTreeMap.getD_eq_getD_getElem?] at hv
  exact forall_insert h hf k v hv

theorem modifyD_of_some [Inhabited α] {m : ExtTreeMap κ α cmp} {k : κ} {v : α} (h : m[k]? = some v)
    (f : α → α) : modifyD m k f = m.insert k (f v) := by
  rw [modifyD, ExtTreeMap.getD_eq_getD_getElem?, h, Option.getD_some]

section Fold

variable {β : Type*} [LawfulEqCmp cmp] [DecidableEq κ] {key : β → κ} {value : β → α}

/-- Writing entries leaves the other keys as they are. -/
theorem getElem?_foldl_insert_of_ne {l : List β} {a : κ} (h : ∀ x ∈ l, key x ≠ a) (m : ExtTreeMap κ α cmp) :
    (l.foldl (fun m x => m.insert (key x) (value x)) m)[a]? = m[a]? := by
  induction l generalizing m with
  | nil => rfl
  | cons x l ih =>
    rw [List.foldl_cons, ih fun y hy => h y (List.mem_cons_of_mem _ hy), getElem?_insert,
      if_neg (h x (List.mem_cons_self ..))]

/-- Writing entries with distinct keys writes them all. -/
theorem getElem?_foldl_insert_of_mem {l : List β} (hl : (l.map key).Nodup) {x : β} (hx : x ∈ l)
    (m : ExtTreeMap κ α cmp) : (l.foldl (fun m x => m.insert (key x) (value x)) m)[key x]? = some (value x) := by
  induction l generalizing m with
  | nil => cases hx
  | cons y l ih =>
    rw [List.map_cons, List.nodup_cons] at hl
    rw [List.foldl_cons]
    rcases List.mem_cons.1 hx with rfl | hx
    · have hne : ∀ z ∈ l, key z ≠ key x := fun z hz heq => hl.1 (List.mem_map.2 ⟨z, hz, heq⟩)
      rw [getElem?_foldl_insert_of_ne hne, getElem?_insert, if_pos rfl]
    · exact ih hl.2 hx _

/-- Of the entries that are written with one key the last is kept. -/
theorem getElem?_foldl_insert (l : List β) (m : ExtTreeMap κ α cmp) (a : κ) :
    (l.foldl (fun m x => m.insert (key x) (value x)) m)[a]? =
      ((l.reverse.find? fun x => decide (key x = a)).map value).or m[a]? := by
  induction l generalizing m with
  | nil => rfl
  | cons x l ih =>
    rw [List.foldl_cons, ih, List.reverse_cons, List.find?_append, getElem?_insert]
    cases l.reverse.find? fun x => decide (key x = a) with
    | none => by_cases hx : key x = a <;> simp [hx]
    | some y => rfl

/-- Write a value, if there is one. -/
def insertSome (m : ExtTreeMap κ α cmp) (k : κ) : Option α → ExtTreeMap κ α cmp
  | some v => m.insert k v
  | none => m

theorem getElem?_insertSome (m : ExtTreeMap κ α cmp) (k : κ) (v : Option α) (a : κ) :
    (insertSome m k v)[a]? = (if k = a then v else none).or m[a]? := by
  cases v with
  | none => simp [insertSome]
  | some v => by_cases hk : k = a <;> simp [insertSome, getElem?_insert, hk]

/-- Every key of a list is written with the value that a source has for it, if it has one. -/
theorem getElem?_foldl_insertSome (source : κ → Option α) (l : List κ) (m : ExtTreeMap κ α cmp) (a : κ) :
    (l.foldl (fun m k => insertSome m k (source k)) m)[a]? = (if a ∈ l then source a else none).or m[a]? := by
  induction l generalizing m with
  | nil => rfl
  | cons k l ih =>
    rw [List.foldl_cons, ih, getElem?_insertSome]
    by_cases hk : k = a
    · subst hk
      rw [if_pos rfl, if_pos (List.mem_cons_self ..)]
      split
      · rw [← Option.or_assoc, Option.or_self]
      · rfl
    · have hmem : a ∈ k :: l ↔ a ∈ l := by simp [Ne.symm hk]
      simp only [hmem, if_neg hk, Option.none_or]

theorem getElem?_insertIfNew (m : ExtTreeMap κ α cmp) (k : κ) (v : α) (a : κ) :
    (m.insertIfNew k v)[a]? = m[a]?.or (if k = a then some v else none) := by
  simp only [ExtTreeMap.getElem?_insertIfNew, LawfulEqCmp.compare_eq_iff_eq, ExtTreeMap.mem_iff_isSome_getElem?]
  by_cases hk : k = a
  · subst hk
    cases m[k]? <;> simp
  · simp [hk]

/-- Writing entries whose keys are new keeps what is there, and of the entries of a key the first. -/
theorem getElem?_foldl_insertIfNew (l : List β) (m : ExtTreeMap κ α cmp) (a : κ) :
    (l.foldl (fun m x => m.insertIfNew (key x) (value x)) m)[a]? =
      m[a]?.or ((l.find? fun x => key x = a).map value) := by
  induction l generalizing m with
  | nil => simp
  | cons x l ih =>
    rw [List.foldl_cons, ih, getElem?_insertIfNew, Option.or_assoc]
    congr 1
    by_cases hx : key x = a
    · simp [hx]
    · simp [hx]

/-- If the keys are distinct, the first entry of a key is its only one. -/
theorem find?_eq_some_iff_of_nodup {l : List β} (hl : (l.map key).Nodup) {a : κ} {x : β} :
    (l.find? fun y => key y = a) = some x ↔ x ∈ l ∧ key x = a := by
  constructor
  · intro h
    exact ⟨List.mem_of_find?_eq_some h, by simpa using List.find?_some h⟩
  · rintro ⟨hx, rfl⟩
    induction l with
    | nil => cases hx
    | cons y l ih =>
      rw [List.map_cons, List.nodup_cons] at hl
      rcases List.mem_cons.1 hx with rfl | hx
      · simp
      · have hne : key y ≠ key x := fun heq => hl.1 (heq ▸ List.mem_map_of_mem hx)
        rw [List.find?_cons_of_neg (by simp [hne])]
        exact ih hl.2 hx

/-- Write values under their keys, the last value of a key winning. -/
def insertValues (key : α → κ) (m : ExtTreeMap κ α cmp) (values : List α) : ExtTreeMap κ α cmp :=
  values.foldl (fun m v => m.insert (key v) v) m

/-- The map of some values by their keys. -/
def ofValues (key : α → κ) (values : List α) : ExtTreeMap κ α cmp := insertValues key ∅ values

omit [LawfulEqCmp cmp] [DecidableEq κ] in
theorem ofValues_concat (key : α → κ) (values : List α) (v : α) :
    (ofValues key (values ++ [v]) : ExtTreeMap κ α cmp) = (ofValues key values).insert (key v) v := by
  rw [ofValues, insertValues, List.foldl_append]
  rfl

/-- Values that are written under their keys stand under them. -/
theorem key_insertValues {key : α → κ} {m : ExtTreeMap κ α cmp} (h : ∀ k v, m[k]? = some v → key v = k)
    (values : List α) (k : κ) (v : α) (hv : (insertValues key m values)[k]? = some v) : key v = k := by
  induction values generalizing m with
  | nil => exact h k v hv
  | cons w values ih =>
    exact ih (forall_insert h rfl) hv

/-- What stands in the map of some values is one of them. -/
theorem mem_of_getElem?_ofValues {key : α → κ} {values : List α} {k : κ} {v : α}
    (h : (ofValues key values : ExtTreeMap κ α cmp)[k]? = some v) : v ∈ values ∧ key v = k := by
  induction values using List.reverseRecOn with
  | nil => simp [ofValues, insertValues] at h
  | append_singleton values w ih =>
    rw [ofValues_concat, getElem?_insert] at h
    split at h
    · rename_i hkey
      cases h
      exact ⟨by simp, hkey⟩
    · exact (ih h).imp_left (List.mem_append_left _)

omit [DecidableEq κ] in
private theorem nodup_keys (m : ExtTreeMap κ α cmp) : (m.toList.map Prod.fst).Nodup := by
  refine List.pairwise_map.2 (m.distinct_keys_toList.imp ?_)
  exact fun hne heq => hne (LawfulEqCmp.compare_eq_iff_eq.2 heq)

section Values

variable {m : ExtTreeMap κ α cmp} (key : α → κ) (f : α → α) (hkey : ∀ k v, m[k]? = some v → key (f v) = k)

include hkey

omit [DecidableEq κ] in
private theorem map_key_values : ((m.toList.map Prod.snd).map f).map key = m.toList.map Prod.fst := by
  rw [List.map_map, List.map_map]
  refine List.map_congr_left ?_
  rintro ⟨a, v⟩ he
  exact hkey a v (ExtTreeMap.mem_toList_iff_getElem?_eq_some.1 he)

omit [DecidableEq κ] in
/-- No two values of the map have one key. -/
theorem nodup_map_key : (((m.toList.map Prod.snd).map f).map key).Nodup := by
  rw [map_key_values key f hkey]
  exact nodup_keys m

/-- Writing the values of a map, each changed without its key, into another map. -/
theorem getElem?_insertValues {k : κ} {v : α} (h : m[k]? = some v) (start : ExtTreeMap κ α cmp) :
    (insertValues key start ((m.toList.map Prod.snd).map f))[k]? = some (f v) := by
  have hmem : f v ∈ (m.toList.map Prod.snd).map f :=
    List.mem_map_of_mem (List.mem_map.2 ⟨(k, v), ExtTreeMap.mem_toList_iff_getElem?_eq_some.2 h, rfl⟩)
  have hget : (insertValues key start ((m.toList.map Prod.snd).map f))[key (f v)]? = some (f v) :=
    getElem?_foldl_insert_of_mem (nodup_map_key key f hkey) hmem start
  rwa [hkey k v h] at hget

/-- Rebuilding a map from its values, each changed without its key. -/
theorem getElem?_ofValues (k : κ) :
    (ofValues key ((m.toList.map Prod.snd).map f) : ExtTreeMap κ α cmp)[k]? = m[k]?.map f := by
  cases h : m[k]? with
  | some v => exact getElem?_insertValues key f hkey h ∅
  | none =>
    have hne : ∀ v ∈ (m.toList.map Prod.snd).map f, key v ≠ k := by
      intro v hv heq
      have hk : k ∈ m.toList.map Prod.fst := map_key_values key f hkey ▸ List.mem_map.2 ⟨v, hv, heq⟩
      obtain ⟨⟨a, w⟩, he, rfl⟩ := List.mem_map.1 hk
      rw [ExtTreeMap.mem_toList_iff_getElem?_eq_some, h] at he
      cases he
    exact (getElem?_foldl_insert_of_ne hne ∅).trans (by simp)

end Values

/-- Writing the values of a map, in any order, puts that map over another one. -/
theorem getElem?_insertValues_of_perm {m : ExtTreeMap κ α cmp} {key : α → κ} (hkey : ∀ k v, m[k]? = some v → key v = k)
    {l : List α} (hl : l.Perm (m.toList.map Prod.snd)) (start : ExtTreeMap κ α cmp) (k : κ) :
    (insertValues key start l)[k]? = m[k]?.or start[k]? := by
  have hmem : ∀ v, v ∈ l ↔ m[key v]? = some v := by
    intro v
    rw [hl.mem_iff, List.mem_map]
    constructor
    · rintro ⟨⟨a, w⟩, he, rfl⟩
      rw [ExtTreeMap.mem_toList_iff_getElem?_eq_some] at he
      rwa [hkey a w he]
    · intro hv
      exact ⟨(key v, v), ExtTreeMap.mem_toList_iff_getElem?_eq_some.2 hv, rfl⟩
  cases h : m[k]? with
  | some v =>
    have hnodup := nodup_map_key key id hkey
    rw [List.map_id] at hnodup
    have hv : v ∈ l := (hmem v).2 (by rw [hkey k v h, h])
    have hget : (insertValues key start l)[key v]? = some v :=
      getElem?_foldl_insert_of_mem ((hl.map key).nodup_iff.2 hnodup) hv start
    rwa [hkey k v h] at hget
  | none =>
    refine getElem?_foldl_insert_of_ne (fun v hv heq => ?_) start
    rw [hmem, heq, h] at hv
    cases hv

/-- Writing the values of a map over a map with no other keys, in any order, gives that map. -/
theorem insertValues_of_perm {m start : ExtTreeMap κ α cmp} {key : α → κ} (hkey : ∀ k v, m[k]? = some v → key v = k)
    {l : List α} (hl : l.Perm (m.toList.map Prod.snd)) (hstart : ∀ k : κ, m[k]? = none → start[k]? = none) :
    insertValues key start l = m := by
  refine ExtTreeMap.ext_getElem? fun k => ?_
  rw [getElem?_insertValues_of_perm hkey hl]
  cases h : m[k]? with
  | some v => rfl
  | none => exact hstart k h

end Fold

end Lookup

section Sum

variable {κ : Type*} {α : Type*} {cmp : κ → κ → Ordering} [TransCmp cmp] [LawfulEqCmp cmp]
variable {M : Type*} [AddCommMonoid M]

/-- The sum of `f v` over the values `v` of `m`. -/
def sumOver (f : α → M) (m : ExtTreeMap κ α cmp) : M :=
  (m.toList.map fun e => f e.2).sum

private theorem nodup_toList (m : ExtTreeMap κ α cmp) : m.toList.Nodup := by
  refine List.Pairwise.imp ?_ m.distinct_keys_toList
  rintro a b hne rfl
  exact hne ReflCmp.compare_self

private theorem toList_erase_perm {m : ExtTreeMap κ α cmp} {k : κ} {v : α} (h : m[k]? = some v) :
    m.toList.Perm ((k, v) :: (m.erase k).toList) := by
  have hk : (k, v) ∉ (m.erase k).toList := by
    rw [ExtTreeMap.mem_toList_iff_getElem?_eq_some, ExtTreeMap.getElem?_erase_self]
    simp
  refine (List.perm_ext_iff_of_nodup (nodup_toList m) (List.nodup_cons.2 ⟨hk, nodup_toList _⟩)).2 ?_
  rintro ⟨a, w⟩
  simp only [List.mem_cons, Prod.mk.injEq, ExtTreeMap.mem_toList_iff_getElem?_eq_some,
    ExtTreeMap.getElem?_erase, LawfulEqCmp.compare_eq_iff_eq]
  by_cases hka : k = a
  · subst hka
    simp [h, eq_comm]
  · simp [hka, Ne.symm hka]

omit [LawfulEqCmp cmp] in
@[simp] theorem sumOver_empty (f : α → M) : sumOver f (∅ : ExtTreeMap κ α cmp) = 0 := by
  have h : (∅ : ExtTreeMap κ α cmp).toList = [] := ExtTreeMap.toList_eq_nil_iff.2 rfl
  rw [sumOver, h, List.map_nil, List.sum_nil]

/-- Taking a key out takes its summand out. -/
theorem sumOver_erase (f : α → M) {m : ExtTreeMap κ α cmp} {k : κ} {v : α} (h : m[k]? = some v) :
    sumOver f m = f v + sumOver f (m.erase k) := by
  rw [sumOver, ((toList_erase_perm h).map _).sum_eq, List.map_cons, List.sum_cons, sumOver]

private theorem erase_insert (m : ExtTreeMap κ α cmp) (k : κ) (v : α) : (m.insert k v).erase k = m.erase k := by
  refine ExtTreeMap.ext_getElem? fun a => ?_
  simp only [ExtTreeMap.getElem?_erase, ExtTreeMap.getElem?_insert]
  split <;> rfl

private theorem sumOver_insert (f : α → M) (m : ExtTreeMap κ α cmp) (k : κ) (v : α) :
    sumOver f (m.insert k v) = f v + sumOver f (m.erase k) := by
  rw [sumOver_erase f (ExtTreeMap.getElem?_insert_self (t := m) (k := k) (v := v)), erase_insert]

/-- A new key adds its summand. -/
theorem sumOver_insert_new (f : α → M) {m : ExtTreeMap κ α cmp} {k : κ} (h : m[k]? = none) (v : α) :
    sumOver f (m.insert k v) = f v + sumOver f m := by
  rw [sumOver_insert, erase_of_none h]

/-- Overwriting a value trades the old summand for the new one. -/
theorem sumOver_insert_old (f : α → M) {m : ExtTreeMap κ α cmp} {k : κ} {w : α} (h : m[k]? = some w) (v : α) :
    sumOver f (m.insert k v) + f w = f v + sumOver f m := by
  rw [sumOver_insert, sumOver_erase f h, add_assoc, add_comm (sumOver f _) (f w)]

/-- Writing at a key trades the old summand, `0` for a missing value, for the new one. -/
theorem sumOver_insert_add (f : α → M) (m : ExtTreeMap κ α cmp) (k : κ) (v : α) :
    sumOver f (m.insert k v) + (m[k]?.elim 0 f) = f v + sumOver f m := by
  cases h : m[k]? with
  | none => rw [sumOver_insert_new f h, Option.elim_none, add_zero]
  | some w => rw [Option.elim_some, sumOver_insert_old f h]

theorem sumOver_erase_add (f : α → M) (m : ExtTreeMap κ α cmp) (k : κ) :
    sumOver f (m.erase k) + (m[k]?.elim 0 f) = sumOver f m := by
  cases h : m[k]? with
  | none => rw [erase_of_none h, Option.elim_none, add_zero]
  | some w => rw [Option.elim_some, sumOver_erase f h, add_comm]

theorem sumOver_congr {f g : α → M} {m : ExtTreeMap κ α cmp} (h : ∀ (k : κ) (v : α), m[k]? = some v → f v = g v) :
    sumOver f m = sumOver g m := by
  unfold sumOver
  congr 1
  refine List.map_congr_left ?_
  rintro ⟨k, v⟩ he
  exact h k v (ExtTreeMap.mem_toList_iff_getElem?_eq_some.1 he)

omit [LawfulEqCmp cmp] in
theorem sumOver_add (f g : α → M) (m : ExtTreeMap κ α cmp) :
    sumOver (fun v => f v + g v) m = sumOver f m + sumOver g m := by
  simp only [sumOver, List.sum_map_add]

/-- A sum over the values is a sum over the keys. -/
theorem sumOver_eq_sum [DecidableEq κ] {m : ExtTreeMap κ α cmp} {keys : Finset κ} {f : α → M} {g : κ → M}
    (hkeys : ∀ k, k ∈ keys ↔ ∃ v, m[k]? = some v) (h : ∀ (k : κ) (v : α), m[k]? = some v → f v = g k) :
    sumOver f m = ∑ k ∈ keys, g k := by
  have hfst : keys = (m.toList.map Prod.fst).toFinset := by
    ext k
    rw [hkeys, List.mem_toFinset, List.mem_map]
    constructor
    · rintro ⟨v, hv⟩
      exact ⟨(k, v), ExtTreeMap.mem_toList_iff_getElem?_eq_some.2 hv, rfl⟩
    · rintro ⟨⟨_, v⟩, hv, rfl⟩
      exact ⟨v, ExtTreeMap.mem_toList_iff_getElem?_eq_some.1 hv⟩
  rw [hfst, List.sum_toFinset _ (nodup_keys m), List.map_map]
  unfold sumOver
  congr 1
  refine List.map_congr_left ?_
  rintro ⟨k, v⟩ he
  exact h k v (ExtTreeMap.mem_toList_iff_getElem?_eq_some.1 he)

end Sum

section Contents

variable {κ : Type*} {β : Type*} {cmp : κ → κ → Ordering} [TransCmp cmp] [LawfulEqCmp cmp]

/-- The elements of all lists of a map of lists. -/
def contents (m : ExtTreeMap κ (List β) cmp) : Multiset β :=
  sumOver (fun q : List β => (q : Multiset β)) m

theorem mem_contents {m : ExtTreeMap κ (List β) cmp} {x : β} :
    x ∈ contents m ↔ ∃ (k : κ) (q : List β), m[k]? = some q ∧ x ∈ q := by
  have key : ∀ l : List (κ × List β),
      x ∈ (l.map fun e => (e.2 : Multiset β)).sum ↔ ∃ e ∈ l, x ∈ e.2 := by
    intro l
    induction l with
    | nil => simp
    | cons e l ih => simp [ih]
  unfold contents sumOver
  rw [key]
  constructor
  · rintro ⟨⟨k, q⟩, he, hx⟩
    exact ⟨k, q, ExtTreeMap.mem_toList_iff_getElem?_eq_some.1 he, hx⟩
  · rintro ⟨k, q, hq, hx⟩
    exact ⟨(k, q), ExtTreeMap.mem_toList_iff_getElem?_eq_some.2 hq, hx⟩

end Contents

end KeyedMap
