import Wall.PortfolioAccounts

/-!
# Entry prices

A position is opened from flat or flipped through zero by one fill, and the fills of its instrument from that one on
are what it holds (`HeldSince`).  Extending averages the entry price with the fill's price and reducing keeps it, so
the entry price of an open position is within the prices of the fills that it holds.
-/

namespace Wall

open KeyedMap

namespace PortfolioService

/-- The position goes from flat or from the other side of zero to `net'`. -/
def Opens (net net' : ℚ) : Prop := net' ≠ 0 ∧ sign net ≠ sign net'

/-- `held` are the fills of instrument `i` since the last one that opened its position from flat or flipped its
sign. -/
inductive HeldSince (i : String) : List FillEvent → List FillEvent → Prop
  | opened {fills : List FillEvent} {fill : FillEvent} (hi : fill.instrument.instrumentId = i)
      (hopens : Opens (signedFills i fills) (signedFills i (fills ++ [fill]))) : HeldSince i (fills ++ [fill]) [fill]
  | joined {fills held : List FillEvent} {fill : FillEvent} (hi : fill.instrument.instrumentId = i)
      (hstays : ¬ Opens (signedFills i fills) (signedFills i (fills ++ [fill]))) (h : HeldSince i fills held) :
      HeldSince i (fills ++ [fill]) (held ++ [fill])
  | other {fills held : List FillEvent} {fill : FillEvent} (hi : fill.instrument.instrumentId ≠ i)
      (h : HeldSince i fills held) : HeldSince i (fills ++ [fill]) held

theorem HeldSince.subset {i : String} {fills held : List FillEvent} (h : HeldSince i fills held) :
    ∀ fill ∈ held, fill ∈ fills := by
  induction h with
  | opened => exact fun fill hfill => List.mem_append_right _ hfill
  | joined hi hstays h ih =>
    intro fill hfill
    rcases List.mem_append.1 hfill with hfill | hfill
    · exact List.mem_append_left _ (ih fill hfill)
    · exact List.mem_append_right _ hfill
  | other hi h ih => exact fun fill hfill => List.mem_append_left _ (ih fill hfill)

/-- The price lies between the smallest and the largest price of the fills. -/
def PricedWithin (price : ℚ) (held : List FillEvent) : Prop :=
  (∃ fill ∈ held, fill.price ≤ price) ∧ ∃ fill ∈ held, price ≤ fill.price

private theorem pricedWithin_self (fill : FillEvent) : PricedWithin fill.price [fill] :=
  ⟨⟨fill, List.mem_singleton_self _, le_rfl⟩, fill, List.mem_singleton_self _, le_rfl⟩

theorem PricedWithin.mono {price : ℚ} {held held' : List FillEvent} (h : PricedWithin price held)
    (hsub : held ⊆ held') : PricedWithin price held' := by
  obtain ⟨⟨low, hlow, hle⟩, high, hhigh, hle'⟩ := h
  exact ⟨⟨low, hsub hlow, hle⟩, high, hsub hhigh, hle'⟩

/-! ### The average -/

private theorem weighted_le {a b x y m : ℚ} (ha : 0 < a) (hb : 0 < b) (hx : x ≤ m) (hy : y ≤ m) :
    (a * x + b * y) / (a + b) ≤ m := by
  have hax := mul_le_mul_of_nonneg_left hx ha.le
  have hby := mul_le_mul_of_nonneg_left hy hb.le
  rw [div_le_iff₀ (add_pos ha hb)]
  linarith

private theorem le_weighted {a b x y m : ℚ} (ha : 0 < a) (hb : 0 < b) (hx : m ≤ x) (hy : m ≤ y) :
    m ≤ (a * x + b * y) / (a + b) := by
  have hax := mul_le_mul_of_nonneg_left hx ha.le
  have hby := mul_le_mul_of_nonneg_left hy hb.le
  rw [le_div_iff₀ (add_pos ha hb)]
  linarith

/-- Averaging in a fill stays within the prices, that of the fill included. -/
private theorem PricedWithin.average {price : ℚ} {held : List FillEvent} (h : PricedWithin price held)
    (fill : FillEvent)
    {a b : ℚ} (ha : 0 < a) (hb : 0 < b) : PricedWithin ((a * price + b * fill.price) / (a + b)) (held ++ [fill]) := by
  obtain ⟨⟨low, hlow, hle⟩, high, hhigh, hle'⟩ := h
  have hlast : fill ∈ held ++ [fill] := List.mem_append_right _ (List.mem_singleton_self _)
  constructor
  · rcases le_total low.price fill.price with hcase | hcase
    · exact ⟨low, List.mem_append_left _ hlow, le_weighted ha hb hle hcase⟩
    · exact ⟨fill, hlast, le_weighted ha hb (hcase.trans hle) le_rfl⟩
  · rcases le_total high.price fill.price with hcase | hcase
    · exact ⟨fill, hlast, weighted_le ha hb (hle'.trans hcase) le_rfl⟩
    · exact ⟨high, List.mem_append_left _ hhigh, weighted_le ha hb hle' hcase⟩

section Quantities

variable {q s : ℚ}

private theorem abs_add_of_mul_pos (h : 0 < q * s) : |q + s| = |q| + |s| := by
  rcases pos_and_pos_or_neg_and_neg_of_mul_pos h with ⟨hq, hs⟩ | ⟨hq, hs⟩
  · rw [abs_of_pos hq, abs_of_pos hs, abs_of_pos (add_pos hq hs)]
  · rw [abs_of_neg hq, abs_of_neg hs, abs_of_neg (add_neg hq hs), neg_add]

private theorem sign_add_of_mul_pos (h : 0 < q * s) : sign (q + s) = sign q := by
  rcases pos_and_pos_or_neg_and_neg_of_mul_pos h with ⟨hq, hs⟩ | ⟨hq, hs⟩
  · rw [sign_of_pos hq, sign_of_pos (add_pos hq hs)]
  · rw [sign_of_neg hq, sign_of_neg (add_neg hq hs)]

/-- The divisor of the averaging branch is never zero. -/
private theorem divisor_pos (hs : s ≠ 0) (h : q = 0 ∨ sign q = sign s) : 0 < |q + s| := by
  rcases same_sign h with h | rfl
  · rw [abs_add_of_mul_pos h]
    exact add_pos_of_pos_of_nonneg (abs_pos.2 (left_ne_zero_of_mul h.ne')) (abs_nonneg s)
  · rw [zero_add]
    exact abs_pos.2 hs

end Quantities

private theorem average_of_flat {position : Position} {fill : FillEvent} (hflat : position.netQuantity = 0)
    (hs : fill.side.signed fill.quantity ≠ 0) : (executeFill position fill).averageEntryPrice = fill.price := by
  have hpos : 0 < |fill.side.signed fill.quantity| := abs_pos.2 hs
  unfold executeFill
  dsimp only
  rw [if_pos (.inl hflat)]
  dsimp only
  rw [hflat, zero_add, if_pos hpos, abs_zero, zero_mul, zero_add, mul_div_cancel_left₀ _ hpos.ne']

private theorem average_of_extending {position : Position} {fill : FillEvent}
    (h : 0 < position.netQuantity * fill.side.signed fill.quantity)
    (hsign : sign position.netQuantity = sign (fill.side.signed fill.quantity)) :
    (executeFill position fill).averageEntryPrice =
      (|position.netQuantity| * position.averageEntryPrice + |fill.side.signed fill.quantity| * fill.price) /
        (|position.netQuantity| + |fill.side.signed fill.quantity|) := by
  have hpos := divisor_pos (right_ne_zero_of_mul h.ne') (.inr hsign)
  unfold executeFill
  dsimp only
  rw [if_pos (.inr hsign)]
  dsimp only
  rw [if_pos hpos, abs_add_of_mul_pos h]

private theorem average_of_closing {position : Position} {fill : FillEvent} (hopen : position.netQuantity ≠ 0)
    (hsign : sign position.netQuantity ≠ sign (fill.side.signed fill.quantity)) :
    (executeFill position fill).averageEntryPrice =
      if (executeFill position fill).netQuantity = 0 then 0
      else if sign position.netQuantity ≠ sign (executeFill position fill).netQuantity then fill.price
      else position.averageEntryPrice := by
  have hno : ¬(position.netQuantity = 0 ∨ sign position.netQuantity = sign (fill.side.signed fill.quantity)) :=
    not_or.2 ⟨hopen, hsign⟩
  rw [executeFill_netQuantity]
  unfold executeFill
  dsimp only
  rw [if_neg hno]

/-! ### One fill -/

/-- What is known of the position of instrument `i` after the fills. -/
structure EntryOk (i : String) (fills : List FillEvent) (position : Position) : Prop where
  net_eq : position.netQuantity = signedFills i fills
  flat : position.netQuantity = 0 → position.averageEntryPrice = 0
  within : position.netQuantity ≠ 0 → ∃ held, HeldSince i fills held ∧ PricedWithin position.averageEntryPrice held

theorem EntryOk.executeFill {fills : List FillEvent} {position : Position} {fill : FillEvent}
    (h : EntryOk fill.instrument.instrumentId fills position) (hquantity : 0 < fill.quantity) :
    EntryOk fill.instrument.instrumentId (fills ++ [fill]) (executeFill position fill) := by
  have hs : fill.side.signed fill.quantity ≠ 0 := by
    rw [← abs_pos, OrderSide.abs_signed, abs_of_pos hquantity]
    exact hquantity
  have hnet : (PortfolioService.executeFill position fill).netQuantity =
      signedFills fill.instrument.instrumentId (fills ++ [fill]) := by
    rw [executeFill_netQuantity, h.net_eq, signedFills_append]
    simp [signedFills]
  have hnet' := executeFill_netQuantity position fill
  -- a fill that opens or flips the position is held alone
  have halone : sign position.netQuantity ≠ sign (PortfolioService.executeFill position fill).netQuantity →
      (PortfolioService.executeFill position fill).netQuantity ≠ 0 →
      HeldSince fill.instrument.instrumentId (fills ++ [fill]) [fill] := by
    intro hsign hne
    rw [hnet] at hsign hne
    rw [h.net_eq] at hsign
    exact .opened rfl ⟨hne, hsign⟩
  -- any other fill joins those that are held
  have hjoins : sign position.netQuantity = sign (PortfolioService.executeFill position fill).netQuantity →
      ∀ held, HeldSince fill.instrument.instrumentId fills held →
        HeldSince fill.instrument.instrumentId (fills ++ [fill]) (held ++ [fill]) := by
    intro hsign held hheld
    rw [hnet, h.net_eq] at hsign
    exact .joined rfl (fun hopens => hopens.2 hsign) hheld
  by_cases hflat : position.netQuantity = 0
  · rw [hflat, zero_add] at hnet'
    have hne : (PortfolioService.executeFill position fill).netQuantity ≠ 0 := hnet' ▸ hs
    have hsign : sign position.netQuantity ≠ sign (PortfolioService.executeFill position fill).netQuantity := by
      rw [hflat, sign_zero]
      rcases lt_or_gt_of_ne hne with hlt | hgt
      · rw [sign_of_neg hlt]
        norm_num
      · rw [sign_of_pos hgt]
        norm_num
    refine ⟨hnet, fun hzero => absurd hzero hne, fun _ => ⟨[fill], halone hsign hne, ?_⟩⟩
    rw [average_of_flat hflat hs]
    exact pricedWithin_self fill
  · obtain ⟨held, hheld, hwithin⟩ := h.within hflat
    by_cases hsame : sign position.netQuantity = sign (fill.side.signed fill.quantity)
    · have hmul := (same_sign (.inr hsame)).resolve_right hflat
      have hsign := sign_add_of_mul_pos hmul
      rw [← hnet'] at hsign
      have hne : (PortfolioService.executeFill position fill).netQuantity ≠ 0 :=
        hnet' ▸ abs_pos.1 (divisor_pos hs (.inr hsame))
      refine ⟨hnet, fun hzero => absurd hzero hne, fun _ => ⟨held ++ [fill], hjoins hsign.symm held hheld, ?_⟩⟩
      rw [average_of_extending hmul hsame]
      exact hwithin.average fill (abs_pos.2 hflat) (abs_pos.2 hs)
    · have haverage := average_of_closing hflat hsame
      refine ⟨hnet, fun hzero => by rw [haverage, if_pos hzero], fun hne => ?_⟩
      rw [if_neg hne] at haverage
      by_cases hsign : sign position.netQuantity = sign (PortfolioService.executeFill position fill).netQuantity
      · rw [if_neg (not_not.2 hsign)] at haverage
        refine ⟨held ++ [fill], hjoins hsign held hheld, ?_⟩
        rw [haverage]
        exact hwithin.mono (List.subset_append_left _ _)
      · rw [if_pos hsign] at haverage
        refine ⟨[fill], halone hsign hne, ?_⟩
        rw [haverage]
        exact pricedWithin_self fill

theorem EntryOk.congr {i : String} {fills : List FillEvent} {position position' : Position}
    (h : EntryOk i fills position) (hnet : position'.netQuantity = position.netQuantity)
    (haverage : position'.averageEntryPrice = position.averageEntryPrice) : EntryOk i fills position' :=
  ⟨hnet ▸ h.net_eq, hnet ▸ haverage ▸ h.flat, hnet ▸ haverage ▸ h.within⟩

/-- A fill of another instrument is held by another position. -/
theorem EntryOk.other {i : String} {fills : List FillEvent} {position : Position} (h : EntryOk i fills position)
    {fill : FillEvent} (hi : fill.instrument.instrumentId ≠ i) : EntryOk i (fills ++ [fill]) position := by
  refine ⟨?_, h.flat, fun hne => ?_⟩
  · rw [h.net_eq, signedFills_append]
    simp [signedFills, hi]
  · obtain ⟨held, hheld, hwithin⟩ := h.within hne
    exact ⟨held, .other hi hheld, hwithin⟩

/-! ### Whole histories -/

private theorem entryOk_foldl {fills : List FillEvent} (hquantity : ∀ fill ∈ fills, 0 < fill.quantity) (i : String) :
    EntryOk i fills (((fills.foldl applyFill {}).getPosition i).getD default) := by
  induction fills using List.reverseRecOn generalizing i with
  | nil =>
    have hnone : (({} : PortfolioService).getPosition i).getD default = default := by simp [getPosition]
    rw [List.foldl_nil, hnone]
    exact ⟨rfl, fun _ => rfl, fun hne => absurd rfl hne⟩
  | append_singleton fills fill ih =>
    have hbefore := ih fun f hf => hquantity f (List.mem_append_left _ hf)
    have hfill := hquantity fill (List.mem_append_right _ (List.mem_singleton_self _))
    rw [List.foldl_append, List.foldl_cons, List.foldl_nil, getPosition, applyFill, getElem?_modifyD]
    by_cases hi : fill.instrument.instrumentId = i
    · subst hi
      rw [if_pos rfl, Option.getD_some, applyFillToPosition_eq, updateUnrealized_eq]
      have hopened : EntryOk fill.instrument.instrumentId fills
          (openPosition (((fills.foldl applyFill {}).getPosition fill.instrument.instrumentId).getD default) fill) := by
        refine (hbefore _).congr (openPosition_netQuantity _ _) ?_
        unfold openPosition
        split <;> rfl
      exact (hopened.executeFill hfill).congr rfl rfl
    · rw [if_neg hi]
      exact (hbefore i).other hi

/-- After every sequence of fills with positive prices and quantities: the entry price of each position is zero
exactly if it is flat, and otherwise lies within the prices of the fills that the position has held since it was last
opened or flipped.  And wherever a fill is averaged in, the quantity divided by is not zero. -/
theorem entry_price_within_held (fills : List FillEvent)
    (hpos : ∀ fill ∈ fills, 0 < fill.price ∧ 0 < fill.quantity) :
    (∀ i position, (fills.foldl applyFill {}).getPosition i = some position →
      (position.averageEntryPrice = 0 ↔ position.netQuantity = 0) ∧
      (position.netQuantity ≠ 0 → ∃ held, HeldSince i fills held ∧ PricedWithin position.averageEntryPrice held)) ∧
    ∀ pre fill post, fills = pre ++ fill :: post →
      let net := ((pre.foldl applyFill {}).getPosition fill.instrument.instrumentId).elim 0 Position.netQuantity
      let signed := fill.side.signed fill.quantity
      (net = 0 ∨ sign net = sign signed) → 0 < |net + signed| := by
  refine ⟨fun i position hposition => ?_, ?_⟩
  · have h := entryOk_foldl (fun fill hfill => (hpos fill hfill).2) i
    rw [hposition, Option.getD_some] at h
    refine ⟨⟨fun hzero => ?_, h.flat⟩, h.within⟩
    by_contra hne
    obtain ⟨held, hheld, ⟨low, hlow, hle⟩, -⟩ := h.within hne
    rw [hzero] at hle
    exact absurd (hpos low (hheld.subset low hlow)).1 (not_lt.2 hle)
  · rintro pre fill post rfl net signed hbranch
    have hfill := (hpos fill (List.mem_append_right _ (List.mem_cons_self ..))).2
    refine divisor_pos (abs_pos.1 ?_) hbranch
    rw [OrderSide.abs_signed, abs_of_pos hfill]
    exact hfill

/-- A position that is opened, extended and flipped. -/
def exampleFlip : List FillEvent :=
  [{ price := 100, quantity := 2 }, { price := 110, quantity := 2 }, { side := .sell, price := 120, quantity := 5 }]

theorem entry_price_within_held_exampleFlip : (∀ fill ∈ exampleFlip, 0 < fill.price ∧ 0 < fill.quantity) ∧
    ∃ position, (exampleFlip.foldl applyFill {}).getPosition "" = some position ∧ position.netQuantity = -1 ∧
      ∃ held, HeldSince "" exampleFlip held ∧ PricedWithin position.averageEntryPrice held := by
  have hpos : ∀ fill ∈ exampleFlip, 0 < fill.price ∧ 0 < fill.quantity := by decide +kernel
  have hopen : ((exampleFlip.foldl applyFill {}).getPosition "").map Position.netQuantity = some (-1) := by
    decide +kernel
  obtain ⟨position, hposition, hnet⟩ := Option.map_eq_some_iff.1 hopen
  have hheld := ((entry_price_within_held exampleFlip hpos).1 "" position hposition).2
  exact ⟨hpos, position, hposition, hnet, hheld (by rw [hnet]; norm_num)⟩

end PortfolioService

end Wall
