import Mathlib.Data.Int.Notation
import Mathlib.Data.List.TakeWhile
import Wall.Lib.LongestPrefix

/-!
# Decimal integers

Reading an integer off the front of a text as `strtol` does: white space, a sign, digits; what follows is ignored, and
a text with no digit there gives nothing.  An integer is read back from its decimal text, and also from a longer text
that starts with it (`integer_append`).  So what is read is the longest numeral of the grammar `integers`
(`integer_eq_read`).
-/

namespace Decimal

def isSpace (c : Char) : Bool := c = ' ' || ('\t' ≤ c && c ≤ '\r')

def natural (cs : List Char) : Option Nat :=
  match cs.takeWhile Char.isDigit with
  | [] => none
  | digits => some (Nat.ofDigitChars 10 digits 0)

def signed : List Char → Option Int
  | '-' :: cs => (natural cs).map fun n : Nat => -(n : Int)
  | '+' :: cs => (natural cs).map fun n : Nat => (n : Int)
  | cs => (natural cs).map fun n : Nat => (n : Int)

/-- The integer that a text starts with. -/
def integer (text : String) : Option Int := signed (text.toList.dropWhile isSpace)

theorem repr_injective {m n : Nat} (h : m.repr = n.repr) : m = n := by
  have hdigits : Nat.toDigits 10 m = Nat.toDigits 10 n := by
    rw [← Nat.toList_repr, ← Nat.toList_repr, h]
  have hm := Nat.ofDigitChars_ten_toDigits (n := m)
  rw [hdigits, Nat.ofDigitChars_ten_toDigits] at hm
  exact hm.symm

private theorem natural_toDigits (n : Nat) {rest : List Char} (hrest : ∀ c ∈ rest.head?, c.isDigit = false) :
    natural (Nat.toDigits 10 n ++ rest) = some n := by
  have htake : (Nat.toDigits 10 n ++ rest).takeWhile Char.isDigit = Nat.toDigits 10 n := by
    rw [List.takeWhile_append_of_pos fun c hc => Nat.isDigit_of_mem_toDigits (by decide) (by decide) hc]
    cases rest with
    | nil => simp
    | cons c rest => rw [List.takeWhile_cons_of_neg (by simp [hrest c rfl]), List.append_nil]
  unfold natural
  rw [htake]
  split
  · rename_i hnil
    exact absurd hnil Nat.toDigits_ne_nil
  · rw [Nat.ofDigitChars_ten_toDigits]

private theorem signed_of_digit {c : Char} {cs : List Char} (h : c.isDigit = true) :
    signed (c :: cs) = (natural (c :: cs)).map fun n : Nat => (n : Int) := by
  unfold signed
  split
  · rename_i heq
    cases heq
    exact absurd h (by decide)
  · rename_i heq
    cases heq
    exact absurd h (by decide)
  · rfl

theorem not_isSpace_of_digit {c : Char} (h : c.isDigit = true) : isSpace c = false := by
  simp only [Char.isDigit, Bool.and_eq_true, decide_eq_true_eq] at h
  have hspace : ¬c = ' ' := by rintro rfl; exact absurd h.1 (by decide)
  have hle : ¬c ≤ '\r' := fun hc => absurd (UInt32.le_trans h.1 hc) (by decide)
  simp [isSpace, hspace, hle]

/-- The text of an integer: its digits, after a minus sign if it is negative. -/
theorem toList_toString (n : Int) :
    (toString n).toList = if 0 ≤ n then Nat.toDigits 10 n.toNat else '-' :: Nat.toDigits 10 (-n).toNat := by
  rw [Int.toString_eq_repr, Int.repr_eq_if]
  split
  · rw [Nat.toList_repr]
  · rw [String.toList_append, Nat.toList_repr]
    rfl

/-- The text of an integer has digits and minus signs only. -/
theorem isDigit_of_mem_toString {n : Int} {c : Char} (h : c ∈ (toString n).toList) : c = '-' ∨ c.isDigit = true := by
  rw [toList_toString] at h
  split at h
  · exact .inr (Nat.isDigit_of_mem_toDigits (by decide) (by decide) h)
  · exact (List.mem_cons.1 h).imp id (Nat.isDigit_of_mem_toDigits (by decide) (by decide))

theorem toString_ne_nil (n : Int) : (toString n).toList ≠ [] := by
  rw [toList_toString]
  split
  · exact Nat.toDigits_ne_nil
  · simp

/-- An integer is read back from a text that starts with it. -/
theorem integer_append (n : Int) {rest : String} (hrest : ∀ c ∈ rest.toList.head?, c.isDigit = false) :
    integer (toString n ++ rest) = some n := by
  unfold integer
  rw [String.toList_append, toList_toString]
  split
  · rename_i hn
    obtain ⟨c, cs, hdigits⟩ := List.exists_cons_of_ne_nil (@Nat.toDigits_ne_nil n.toNat 10)
    have hc : c.isDigit = true :=
      Nat.isDigit_of_mem_toDigits (by decide) (by decide) (hdigits ▸ List.mem_cons_self ..)
    have hnatural := natural_toDigits n.toNat hrest
    rw [hdigits, List.cons_append] at hnatural
    rw [hdigits, List.cons_append, List.dropWhile_cons_of_neg (by simp [not_isSpace_of_digit hc]), signed_of_digit hc,
      hnatural, Option.map_some, Int.toNat_of_nonneg hn]
  · rename_i hn
    rw [List.cons_append, List.dropWhile_cons_of_neg (by decide), signed, natural_toDigits _ hrest, Option.map_some]
    congr 1
    omega

theorem integer_toString (n : Int) : integer (toString n) = some n := by
  have h := @integer_append n "" (by simp)
  rwa [String.append_empty] at h

theorem toString_injective {m n : Int} (h : (toString m : String) = toString n) : m = n := by
  rw [← Option.some.injEq, ← integer_toString m, ← integer_toString n, h]

/-! ### The grammar of integers -/

def unsigned : List Char → List Char
  | '-' :: cs => cs
  | '+' :: cs => cs
  | cs => cs

/-- White space, perhaps a sign, and digits. -/
def isInteger (cs : List Char) : Bool :=
  let digits := unsigned (cs.dropWhile isSpace)
  !digits.isEmpty && digits.all Char.isDigit

def integers : NumeralGrammar Char Int where
  isNumeral := isInteger
  value cs := signed (cs.dropWhile isSpace)

private theorem isInteger_iff {cs : List Char} :
    isInteger cs = true ↔ unsigned (cs.dropWhile isSpace) ≠ [] ∧
      ∀ c ∈ unsigned (cs.dropWhile isSpace), c.isDigit = true := by
  simp [isInteger]

private theorem unsigned_append {cs : List Char} (h : unsigned cs ≠ []) (rest : List Char) :
    unsigned (cs ++ rest) = unsigned cs ++ rest := by
  cases cs with
  | nil => exact absurd rfl h
  | cons c cs =>
    by_cases hminus : c = '-'
    · subst hminus
      rfl
    · by_cases hplus : c = '+'
      · subst hplus
        rfl
      · simp [unsigned, hminus, hplus]

private theorem dropWhile_isSpace_append {cs : List Char} (h : unsigned (cs.dropWhile isSpace) ≠ [])
    (rest : List Char) : (cs ++ rest).dropWhile isSpace = cs.dropWhile isSpace ++ rest := by
  have hne : cs.dropWhile isSpace ≠ [] := by
    intro hnil
    rw [hnil] at h
    exact h rfl
  rw [List.dropWhile_append, if_neg (by simpa [List.isEmpty_iff] using hne)]

/-- An integer with one more digit. -/
theorem isInteger_concat {cs : List Char} (h : isInteger cs = true) {c : Char} (hc : c.isDigit = true) :
    isInteger (cs ++ [c]) = true := by
  rw [isInteger_iff] at h ⊢
  rw [dropWhile_isSpace_append h.1, unsigned_append h.1]
  refine ⟨by simp, ?_⟩
  intro d hd
  rcases List.mem_append.1 hd with hd | hd
  · exact h.2 d hd
  · exact List.mem_singleton.1 hd ▸ hc

private theorem natural_append {digits rest : List Char} (h : ∀ c ∈ digits, c.isDigit = true)
    (hrest : ∀ c ∈ rest.head?, c.isDigit = false) : natural (digits ++ rest) = natural digits := by
  have htake : (digits ++ rest).takeWhile Char.isDigit = digits.takeWhile Char.isDigit := by
    rw [List.takeWhile_append_of_pos h, List.takeWhile_eq_self_iff.2 h]
    cases rest with
    | nil => simp
    | cons c rest => rw [List.takeWhile_cons_of_neg (by simp [hrest c rfl]), List.append_nil]
  rw [natural, htake, natural]

private theorem signed_append {cs rest : List Char} (hne : unsigned cs ≠ []) (h : ∀ c ∈ unsigned cs, c.isDigit = true)
    (hrest : ∀ c ∈ rest.head?, c.isDigit = false) : signed (cs ++ rest) = signed cs := by
  cases cs with
  | nil => exact absurd rfl hne
  | cons c cs =>
    by_cases hminus : c = '-'
    · subst hminus
      exact congrArg (Option.map fun n : Nat => -(n : Int)) (natural_append h hrest)
    · by_cases hplus : c = '+'
      · subst hplus
        exact congrArg (Option.map fun n : Nat => (n : Int)) (natural_append h hrest)
      · have hunsigned : unsigned (c :: cs) = c :: cs := by simp [unsigned, hminus, hplus]
        rw [hunsigned] at h
        have hnatural := natural_append h hrest
        rw [List.cons_append] at hnatural
        simp [signed, hminus, hplus, hnatural]

private theorem takeWhile_isDigit_ne_nil {cs : List Char} (h : (natural cs).isSome = true) :
    cs.takeWhile Char.isDigit ≠ [] := by
  intro hnil
  rw [natural, hnil] at h
  cases h

private theorem isDigit_of_mem_takeWhile {cs : List Char} {c : Char} (h : c ∈ cs.takeWhile Char.isDigit) :
    c.isDigit = true :=
  List.mem_takeWhile_imp h

/-- A text that is read starts with a sign and digits, or with digits. -/
theorem exists_prefix_of_signed {cs : List Char} (h : (signed cs).isSome = true) :
    ∃ ds, ds <+: cs ∧ unsigned ds ≠ [] ∧ ∀ c ∈ unsigned ds, c.isDigit = true := by
  unfold signed at h
  split at h
  · rename_i cs
    rw [Option.isSome_map] at h
    exact ⟨'-' :: cs.takeWhile Char.isDigit, (List.prefix_cons_inj _).2 (List.takeWhile_prefix _),
      takeWhile_isDigit_ne_nil h, fun c hc => isDigit_of_mem_takeWhile hc⟩
  · rename_i cs
    rw [Option.isSome_map] at h
    exact ⟨'+' :: cs.takeWhile Char.isDigit, (List.prefix_cons_inj _).2 (List.takeWhile_prefix _),
      takeWhile_isDigit_ne_nil h, fun c hc => isDigit_of_mem_takeWhile hc⟩
  · rw [Option.isSome_map] at h
    have hne := takeWhile_isDigit_ne_nil h
    have hunsigned : unsigned (cs.takeWhile Char.isDigit) = cs.takeWhile Char.isDigit := by
      obtain ⟨c, ds, hcs⟩ := List.exists_cons_of_ne_nil hne
      have hc : c.isDigit = true := isDigit_of_mem_takeWhile (hcs ▸ List.mem_cons_self ..)
      have hminus : c ≠ '-' := by
        rintro rfl
        exact absurd hc (by decide)
      have hplus : c ≠ '+' := by
        rintro rfl
        exact absurd hc (by decide)
      rw [hcs]
      simp [unsigned, hminus, hplus]
    exact ⟨_, List.takeWhile_prefix _, hunsigned.symm ▸ hne, fun c hc => isDigit_of_mem_takeWhile (hunsigned ▸ hc)⟩

private theorem exists_isInteger_of_signed {cs : List Char} (h : (signed (cs.dropWhile isSpace)).isSome = true) :
    ∃ ds, ds <+: cs ∧ isInteger ds = true := by
  obtain ⟨ds, hstart, hne, hdigits⟩ := exists_prefix_of_signed h
  -- the numeral starts at the first character that is not white space
  have hdrop : (cs.takeWhile isSpace ++ ds).dropWhile isSpace = ds := by
    rw [List.dropWhile_append_of_pos fun c hc => List.mem_takeWhile_imp hc]
    obtain ⟨rest, hrest⟩ := hstart
    cases ds with
    | nil => exact absurd rfl hne
    | cons d ds =>
      have hhead := List.head?_dropWhile_not isSpace cs
      rw [← hrest] at hhead
      exact List.dropWhile_cons_of_neg (by simpa using hhead)
  refine ⟨cs.takeWhile isSpace ++ ds, ?_, ?_⟩
  · have hjoin := (List.prefix_append_right_inj (cs.takeWhile isSpace)).2 hstart
    rwa [List.takeWhile_append_dropWhile] at hjoin
  · rw [isInteger_iff, hdrop]
    exact ⟨hne, hdigits⟩

/-- Reading an integer is reading the longest numeral. -/
theorem integer_eq_read (text : String) : integer text = integers.read text.toList := by
  rw [integer, NumeralGrammar.read]
  split
  · rename_i hnumeral
    have hinteger := isInteger_iff.1 hnumeral
    -- no digit follows, for with it the numeral would be longer
    have hrest : ∀ c ∈ (integers.unread text.toList).head?, c.isDigit = false := by
      intro c hc
      rw [Bool.eq_false_iff]
      intro hdigit
      have hlt : integers.consumed text.toList < text.toList.length := by
        by_contra hle
        rw [NumeralGrammar.unread, List.drop_of_length_le (not_lt.1 hle)] at hc
        cases hc
      have hget : text.toList[integers.consumed text.toList]? = some c := by
        rw [← List.head?_drop]
        exact hc
      have htake : text.toList.take (integers.consumed text.toList + 1) =
          text.toList.take (integers.consumed text.toList) ++ [c] := by
        rw [List.take_add_one, hget]
        rfl
      have hlonger : isInteger (text.toList.take (integers.consumed text.toList + 1)) = true :=
        htake ▸ isInteger_concat hnumeral hdigit
      have hle := (@NumeralGrammar.isNumeral_consumed _ _ integers _ _ hlt hlonger).2
      omega
    have hsplit : text.toList = text.toList.take (integers.consumed text.toList) ++ integers.unread text.toList :=
      (List.take_append_drop _ _).symm
    conv_lhs => rw [hsplit, dropWhile_isSpace_append hinteger.1]
    exact signed_append hinteger.1 hinteger.2 hrest
  · rename_i hnone
    rw [← Option.not_isSome_iff_eq_none]
    intro hsome
    obtain ⟨ds, hstart, hds⟩ := exists_isInteger_of_signed hsome
    have hlength := hstart.length_le
    rw [List.prefix_iff_eq_take.1 hstart] at hds
    exact hnone (NumeralGrammar.isNumeral_consumed hlength hds).1

end Decimal
