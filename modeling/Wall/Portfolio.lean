import Wall.Types
import Wall.Lib.Machine
import Mathlib.Tactic.FieldSimp

/-!
# The portfolio

`portfolio/portfolio_service.cpp`: positions, balances and marks built from fills.  A fill either extends a position
at the weighted average price or closes it, in part, in full or through zero, against the average price.
-/

namespace Wall

open KeyedMap

structure PortfolioService where
  positions : StringMap Position := ∅
  balances : StringMap BalanceSnapshot := ∅
  markPrices : StringMap ℚ := ∅

namespace PortfolioService

def getPosition (portfolio : PortfolioService) (instrumentId : String) : Option Position :=
  portfolio.positions[instrumentId]?

/-- The snapshot stored for an asset, or an empty one. -/
def balanceOf (balances : StringMap BalanceSnapshot) (asset : String) : BalanceSnapshot :=
  balances[asset]?.getD { asset := asset, totalBalance := 0, availableBalance := 0 }

def getBalance (portfolio : PortfolioService) (asset : String) : BalanceSnapshot :=
  balanceOf portfolio.balances asset

def sign (value : ℚ) : ℚ := if value > 0 then 1 else if value < 0 then -1 else 0

def updateUnrealized (position : Position) (markPrice : ℚ) : Position :=
  if position.netQuantity = 0 then { position with unrealizedPnl := 0 }
  else { position with unrealizedPnl := (markPrice - position.averageEntryPrice) * position.netQuantity }

/-- The part of `apply_fill_to_position` before the unrealized result: quantity, average price, realized result. -/
def executeFill (position : Position) (fill : FillEvent) : Position :=
  let signedFillQuantity := fill.side.signed fill.quantity
  let previousQuantity := position.netQuantity
  if previousQuantity = 0 ∨ sign previousQuantity = sign signedFillQuantity then
    let newQuantity := previousQuantity + signedFillQuantity
    let weightedNotional :=
      |previousQuantity| * position.averageEntryPrice + |signedFillQuantity| * fill.price
    { position with
      netQuantity := newQuantity
      averageEntryPrice := if |newQuantity| > 0 then weightedNotional / |newQuantity| else 0 }
  else
    let closingQuantity := min |previousQuantity| |signedFillQuantity|
    let netQuantity := previousQuantity + signedFillQuantity
    { position with
      realizedPnl := position.realizedPnl +
        closingQuantity * (fill.price - position.averageEntryPrice) * sign previousQuantity
      netQuantity := netQuantity
      averageEntryPrice :=
        if netQuantity = 0 then 0
        else if sign previousQuantity ≠ sign netQuantity then fill.price
        else position.averageEntryPrice }

def applyFillToPosition (markPrices : StringMap ℚ) (position : Position) (fill : FillEvent) : Position :=
  match markPrices[fill.instrument.instrumentId]? with
  | some markPrice => updateUnrealized (executeFill position fill) markPrice
  | none => updateUnrealized (executeFill position fill) fill.price

/-- Write a balance; the available balance follows the total. -/
def moveBalance (balances : StringMap BalanceSnapshot) (asset : String) (amount : ℚ) : StringMap BalanceSnapshot :=
  modifyD balances asset fun balance =>
    { asset := asset
      totalBalance := balance.totalBalance + amount
      availableBalance := balance.totalBalance + amount }

/-- The base balance first, then the quote balance: the two may be one entry. -/
def applyFillToBalances (balances : StringMap BalanceSnapshot) (fill : FillEvent) : StringMap BalanceSnapshot :=
  let notional := fill.quantity * fill.price
  match fill.side with
  | .buy =>
    moveBalance (moveBalance balances fill.instrument.baseAsset fill.quantity) fill.instrument.quoteAsset
      (-(notional + fill.fee))
  | .sell =>
    moveBalance (moveBalance balances fill.instrument.baseAsset (-fill.quantity)) fill.instrument.quoteAsset
      (notional - fill.fee)

/-- A position that has no id yet takes the fill's instrument. -/
def openPosition (position : Position) (fill : FillEvent) : Position :=
  if position.positionId = "" then
    { position with
      positionId := "position-" ++ fill.instrument.instrumentId
      instrument := fill.instrument }
  else position

def applyFill (portfolio : PortfolioService) (fill : FillEvent) : PortfolioService :=
  { portfolio with
    positions := modifyD portfolio.positions fill.instrument.instrumentId fun position =>
      applyFillToPosition portfolio.markPrices (openPosition position fill) fill
    balances := applyFillToBalances portfolio.balances fill }

def setMarkPrice (portfolio : PortfolioService) (instrumentId : String) (price : ℚ) : PortfolioService :=
  { portfolio with
    markPrices := portfolio.markPrices.insert instrumentId price
    positions :=
      match portfolio.positions[instrumentId]? with
      | some position => portfolio.positions.insert instrumentId (updateUnrealized position price)
      | none => portfolio.positions }

def allPositions (portfolio : PortfolioService) : List Position := portfolio.positions.toList.map Prod.snd

def allBalances (portfolio : PortfolioService) : List BalanceSnapshot := portfolio.balances.toList.map Prod.snd

/-! ### One fill -/

theorem sign_of_pos {value : ℚ} (h : 0 < value) : sign value = 1 := if_pos h

theorem sign_of_neg {value : ℚ} (h : value < 0) : sign value = -1 := by
  rw [sign, if_neg (not_lt.2 h.le), if_pos h]

theorem sign_zero : sign 0 = 0 := rfl

@[simp] theorem executeFill_netQuantity (position : Position) (fill : FillEvent) :
    (executeFill position fill).netQuantity = position.netQuantity + fill.side.signed fill.quantity := by
  unfold executeFill
  dsimp only
  split <;> rfl

/-- What a position has cost so far: the cost of what is held, less what closing has earned. -/
def cost (position : Position) : ℚ := position.netQuantity * position.averageEntryPrice - position.realizedPnl

/-- The weighted average of two prices, weighted by quantities of one sign. -/
private theorem weighted_average {a b x y : ℚ} (h : 0 < a * b ∨ a = 0) :
    (a + b) * (if |a + b| > 0 then (|a| * x + |b| * y) / |a + b| else 0) = a * x + b * y := by
  rcases h with h | rfl
  · rcases pos_and_pos_or_neg_and_neg_of_mul_pos h with ⟨ha, hb⟩ | ⟨ha, hb⟩
    · have hab : 0 < a + b := add_pos ha hb
      rw [abs_of_pos hab, abs_of_pos ha, abs_of_pos hb, if_pos hab]
      field_simp
    · have hab : a + b < 0 := add_neg ha hb
      rw [abs_of_neg hab, abs_of_neg ha, abs_of_neg hb, if_pos (neg_pos.2 hab)]
      have hne : a + b ≠ 0 := hab.ne
      field_simp
      ring
  · rcases eq_or_ne b 0 with rfl | hb
    · simp
    · have hpos : 0 < |b| := abs_pos.2 hb
      rw [zero_add, abs_zero, zero_mul, zero_add, if_pos hpos]
      field_simp
      ring

theorem same_sign {q s : ℚ} (h : q = 0 ∨ sign q = sign s) : 0 < q * s ∨ q = 0 := by
  rcases h with h | h
  · exact .inr h
  · rcases lt_trichotomy q 0 with hq | hq | hq
    · rcases lt_trichotomy s 0 with hs | hs | hs
      · exact .inl (mul_pos_of_neg_of_neg hq hs)
      · rw [sign_of_neg hq, hs, sign_zero] at h
        norm_num at h
      · rw [sign_of_neg hq, sign_of_pos hs] at h
        norm_num at h
    · exact .inr hq
    · rcases lt_trichotomy s 0 with hs | hs | hs
      · rw [sign_of_pos hq, sign_of_neg hs] at h
        norm_num at h
      · rw [sign_of_pos hq, hs, sign_zero] at h
        norm_num at h
      · exact .inl (mul_pos hq hs)

/-- Closing against the average price: what is left keeps it, and what goes through zero takes the fill's price. -/
private theorem closing_cost {q s a x : ℚ} (hq : q ≠ 0) (h : sign q ≠ sign s) :
    (q + s) * (if q + s = 0 then 0 else if sign q ≠ sign (q + s) then x else a) -
      min |q| |s| * (x - a) * sign q = q * a + s * x := by
  rcases lt_or_gt_of_ne hq with hq | hq
  · have hs : 0 ≤ s := not_lt.1 fun hs => h (by rw [sign_of_neg hq, sign_of_neg hs])
    rw [abs_of_neg hq, abs_of_nonneg hs, sign_of_neg hq]
    rcases lt_trichotomy (q + s) 0 with hqs | hqs | hqs
    · rw [if_neg hqs.ne, if_neg (not_not.2 (sign_of_neg hqs).symm), min_eq_right (by linarith)]
      ring
    · rw [if_pos hqs, min_eq_left (by linarith), eq_neg_of_add_eq_zero_right hqs]
      ring
    · rw [if_neg hqs.ne', sign_of_pos hqs, if_pos (by norm_num), min_eq_left (by linarith)]
      ring
  · have hs : s ≤ 0 := not_lt.1 fun hs => h (by rw [sign_of_pos hq, sign_of_pos hs])
    rw [abs_of_pos hq, abs_of_nonpos hs, sign_of_pos hq]
    rcases lt_trichotomy (q + s) 0 with hqs | hqs | hqs
    · rw [if_neg hqs.ne, sign_of_neg hqs, if_pos (by norm_num), min_eq_left (by linarith)]
      ring
    · rw [if_pos hqs, min_eq_left (by linarith), eq_neg_of_add_eq_zero_right hqs]
      ring
    · rw [if_neg hqs.ne', if_neg (not_not.2 (sign_of_pos hqs).symm), min_eq_right (by linarith)]
      ring

/-- A fill adds its signed notional to the cost, whether it opens, extends, reduces, closes or flips. -/
theorem cost_executeFill (position : Position) (fill : FillEvent) :
    cost (executeFill position fill) = cost position + fill.side.signed fill.quantity * fill.price := by
  unfold executeFill cost
  dsimp only
  split
  · rename_i h
    rw [weighted_average (same_sign h)]
    ring
  · rename_i h
    rw [not_or] at h
    have hclose := closing_cost (a := position.averageEntryPrice) (x := fill.price) h.1 h.2
    dsimp only
    linarith

/-! ### Net quantities -/

/-- The net quantity of an instrument, `0` where there is no position. -/
def netOf (portfolio : PortfolioService) (i : String) : ℚ :=
  (portfolio.getPosition i).elim 0 Position.netQuantity

@[simp] theorem updateUnrealized_netQuantity (position : Position) (markPrice : ℚ) :
    (updateUnrealized position markPrice).netQuantity = position.netQuantity := by
  unfold updateUnrealized
  split <;> rfl

@[simp] theorem applyFillToPosition_netQuantity (markPrices : StringMap ℚ) (position : Position) (fill : FillEvent) :
    (applyFillToPosition markPrices position fill).netQuantity =
      position.netQuantity + fill.side.signed fill.quantity := by
  unfold applyFillToPosition
  split <;> simp

@[simp] theorem openPosition_netQuantity (position : Position) (fill : FillEvent) :
    (openPosition position fill).netQuantity = position.netQuantity := by
  unfold openPosition
  split <;> rfl

private theorem netOf_applyFill (portfolio : PortfolioService) (fill : FillEvent) (i : String) :
    (portfolio.applyFill fill).netOf i = portfolio.netOf i + signedFills i [fill] := by
  unfold netOf getPosition applyFill
  dsimp only
  rw [getElem?_modifyD]
  by_cases hi : fill.instrument.instrumentId = i
  · subst hi
    cases hp : portfolio.positions[fill.instrument.instrumentId]? with
    | none =>
      have hdefault : (default : Position).netQuantity = 0 := rfl
      simp [signedFills, hdefault]
    | some position => simp [signedFills]
  · simp [signedFills, hi]

theorem netOf_applyFills (fills : List FillEvent) (portfolio : PortfolioService) (i : String) :
    (fills.foldl applyFill portfolio).netOf i = portfolio.netOf i + signedFills i fills := by
  induction fills generalizing portfolio with
  | nil => simp
  | cons fill fills ih =>
    rw [List.foldl_cons, ih, netOf_applyFill, add_assoc, ← signedFills_append, List.singleton_append]

@[simp] theorem netOf_setMarkPrice (portfolio : PortfolioService) (j i : String) (price : ℚ) :
    (portfolio.setMarkPrice j price).netOf i = portfolio.netOf i := by
  unfold netOf getPosition setMarkPrice
  dsimp only
  split
  · rename_i position hposition
    rw [KeyedMap.getElem?_insert]
    split
    · rename_i hji
      rw [← hji, hposition]
      simp
    · rfl
  · rfl

end PortfolioService

end Wall
