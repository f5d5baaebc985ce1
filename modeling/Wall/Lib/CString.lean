import Mathlib.Data.List.TakeWhile

/-!
# C strings

A string that is passed on by its address ends, for whoever reads it, at its first NUL.  What is left of it is the
string itself exactly if it has none (`cString_eq_iff`).
-/

namespace CString

/-- What is left of a string that is passed on by `c_str`. -/
def cString (text : String) : String := String.ofList (text.toList.takeWhile (· ≠ '\x00'))

private theorem toList_cString (text : String) : (cString text).toList = text.toList.takeWhile (· ≠ '\x00') :=
  String.toList_ofList

theorem cString_of_notMem {text : String} (h : '\x00' ∉ text.toList) : cString text = text := by
  have hall : text.toList.takeWhile (· ≠ '\x00') = text.toList := by
    refine List.takeWhile_eq_self_iff.2 fun c hc => decide_eq_true fun heq => h (heq ▸ hc)
  rw [cString, hall, String.ofList_toList]

private theorem notMem_cString (text : String) : '\x00' ∉ (cString text).toList := by
  intro h
  rw [toList_cString] at h
  simpa using List.mem_takeWhile_imp h

@[simp] theorem cString_cString (text : String) : cString (cString text) = cString text :=
  cString_of_notMem (notMem_cString text)

theorem cString_eq_iff {text : String} : cString text = text ↔ '\x00' ∉ text.toList := by
  refine ⟨fun h => ?_, cString_of_notMem⟩
  rw [← h]
  exact notMem_cString text

theorem cString_append {text : String} (h : '\x00' ∉ text.toList) (rest : String) :
    cString (text ++ rest) = text ++ cString rest := by
  have hall : ∀ c ∈ text.toList, (decide (c ≠ '\x00')) = true :=
    fun c hc => decide_eq_true fun heq => h (heq ▸ hc)
  refine String.toList_injective ?_
  rw [toList_cString, String.toList_append, String.toList_append, toList_cString,
    List.takeWhile_append_of_pos hall]

end CString
