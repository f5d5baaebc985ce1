import Wall.PortfolioAccounts
import Wall.Lib.Interleaving

/-!
# Only the order within each instrument matters

A call of the portfolio changes the position and the mark of its own instrument, by themselves, and it moves balances,
which instruments share.  Moves of balances commute, also when base and quote are one asset (`moveBalance_comm`).  So
calls that are interleaved in another way, but in the same order within each instrument, leave the same portfolio.
-/

namespace Wall

open KeyedMap Interleaving

/-- The instrument that a call is for. -/
def PortfolioCall.instrumentId : PortfolioCall → String
  | .applyFill fill => fill.instrument.instrumentId
  | .setMarkPrice instrumentId _ => instrumentId

/-- The calls for one instrument, in their order. -/
def callsFor (i : String) (calls : List PortfolioCall) : List PortfolioCall := ofKey PortfolioCall.instrumentId i calls

namespace PortfolioService

private theorem run_eq_foldl (portfolio : PortfolioService) (calls : List PortfolioCall) :
    machine.run portfolio calls = calls.foldl call portfolio := by
  induction calls generalizing portfolio with
  | nil => rfl
  | cons c calls ih => exact ih _

/-! ### Positions and marks -/

/-- What the portfolio holds for one instrument: the position and the mark. -/
def viewOf (i : String) (portfolio : PortfolioService) : Option Position × Option ℚ :=
  (portfolio.positions[i]?, portfolio.markPrices[i]?)

/-- What a call for an instrument makes of its position and mark. -/
def stepView (view : Option Position × Option ℚ) : PortfolioCall → Option Position × Option ℚ
  | .applyFill fill =>
    (some (updateUnrealized (executeFill (openPosition (view.1.getD default) fill) fill) (view.2.getD fill.price)),
      view.2)
  | .setMarkPrice _ price => (view.1.map fun position => updateUnrealized position price, some price)

/-- A call changes the position and the mark of its own instrument only. -/
private theorem viewOf_call (portfolio : PortfolioService) (c : PortfolioCall) (i : String) : viewOf i
    (portfolio.call c) = if c.instrumentId = i then stepView (viewOf i portfolio) c else viewOf i portfolio := by
  cases c with
  | applyFill fill =>
    have hposition : (portfolio.applyFill fill).positions[i]? =
        if fill.instrument.instrumentId = i then
          some (applyFillToPosition portfolio.markPrices
            (openPosition (portfolio.positions[fill.instrument.instrumentId]?.getD default) fill) fill)
        else portfolio.positions[i]? := getElem?_modifyD ..
    show ((portfolio.applyFill fill).positions[i]?, portfolio.markPrices[i]?) = _
    rw [hposition]
    by_cases hi : fill.instrument.instrumentId = i
    · subst hi
      rw [if_pos rfl, applyFillToPosition_eq]
      exact (if_pos rfl).symm
    · rw [if_neg hi]
      exact (if_neg hi).symm
  | setMarkPrice j price =>
    show ((portfolio.setMarkPrice j price).positions[i]?, (portfolio.markPrices.insert j price)[i]?) = _
    rw [getElem?_setMarkPrice, getElem?_insert]
    by_cases hi : j = i
    · rw [if_pos hi, if_pos hi]
      exact (if_pos hi).symm
    · rw [if_neg hi, if_neg hi]
      exact (if_neg hi).symm

/-! ### Balances -/

/-- Two moves may be swapped, also on one asset. -/
theorem moveBalance_comm (balances : StringMap BalanceSnapshot) (asset asset' : String) (amount amount' : ℚ) :
    moveBalance (moveBalance balances asset amount) asset' amount' =
      moveBalance (moveBalance balances asset' amount') asset amount := by
  refine Std.ExtTreeMap.ext_getElem? fun a => ?_
  simp only [moveBalance, getElem?_modifyD]
  by_cases hsame : asset = asset'
  · subst hsame
    by_cases ha : asset = a
    · simp only [ha, ↓reduceIte, Option.getD_some]
      rw [add_right_comm]
    · simp only [if_neg ha]
  · rw [if_neg (Ne.symm hsame), if_neg hsame]
    by_cases ha : asset = a
    · rw [if_pos ha, if_pos ha, if_neg fun ha' => hsame (ha.trans ha'.symm)]
    · rw [if_neg ha, if_neg ha]

private theorem applyFillToBalances_comm (balances : StringMap BalanceSnapshot) (fill fill' : FillEvent) :
    applyFillToBalances (applyFillToBalances balances fill) fill' =
      applyFillToBalances (applyFillToBalances balances fill') fill := by
  simp only [applyFillToBalances_eq]
  -- the first fill's quote moves past both of the second fill's, then its base does
  rw [moveBalance_comm _ fill.instrument.quoteAsset fill'.instrument.baseAsset,
    moveBalance_comm _ fill.instrument.quoteAsset fill'.instrument.quoteAsset,
    moveBalance_comm _ fill.instrument.baseAsset fill'.instrument.baseAsset,
    moveBalance_comm _ fill.instrument.baseAsset fill'.instrument.quoteAsset]

/-- What a call does to the balances. -/
def moveBalances (balances : StringMap BalanceSnapshot) : PortfolioCall → StringMap BalanceSnapshot
  | .applyFill fill => applyFillToBalances balances fill
  | .setMarkPrice _ _ => balances

private theorem moveBalances_comm (balances : StringMap BalanceSnapshot) (c c' : PortfolioCall) :
    moveBalances (moveBalances balances c) c' = moveBalances (moveBalances balances c') c := by
  cases c with
  | setMarkPrice => rfl
  | applyFill fill =>
    cases c' with
    | setMarkPrice => rfl
    | applyFill fill' => exact applyFillToBalances_comm balances fill fill'

private theorem balances_foldl (portfolio : PortfolioService) (calls : List PortfolioCall) :
    (calls.foldl call portfolio).balances = calls.foldl moveBalances portfolio.balances := by
  induction calls generalizing portfolio with
  | nil => rfl
  | cons c calls ih =>
    have hcall : (portfolio.call c).balances = moveBalances portfolio.balances c := by cases c <;> rfl
    rw [List.foldl_cons, ih, hcall, List.foldl_cons]

/-! ### Two interleavings -/

/-- From every portfolio, two sequences of calls with the same calls for each instrument in the same order, however
the instruments are interleaved, leave the same positions, the same marks and the same balances. -/
theorem interleaving_irrelevant (portfolio : PortfolioService) (calls calls' : List PortfolioCall)
    (h : ∀ i, callsFor i calls = callsFor i calls') :
    (machine.run portfolio calls).positions = (machine.run portfolio calls').positions ∧
      (machine.run portfolio calls).markPrices = (machine.run portfolio calls').markPrices ∧
      (machine.run portfolio calls).balances = (machine.run portfolio calls').balances := by
  rw [run_eq_foldl, run_eq_foldl]
  have hview : ∀ i, viewOf i (calls.foldl call portfolio) = viewOf i (calls'.foldl call portfolio) := by
    intro i
    have hrun : ∀ calls,
        viewOf i (calls.foldl call portfolio) = (callsFor i calls).foldl stepView (viewOf i portfolio) :=
      fun calls => view_foldl viewOf_call calls portfolio i
    rw [hrun calls, hrun calls', h i]
  refine ⟨Std.ExtTreeMap.ext_getElem? fun i => congrArg Prod.fst (hview i),
    Std.ExtTreeMap.ext_getElem? fun i => congrArg Prod.snd (hview i), ?_⟩
  rw [balances_foldl, balances_foldl]
  exact foldl_eq_of_ofKey moveBalances_comm h portfolio.balances

/-- A fill that pays in an asset, and one of an instrument that has this asset as its base and as its quote. -/
def exampleBuy : FillEvent where
  instrument := { instrumentId := "btc-usdt", baseAsset := "BTC", quoteAsset := "USDT" }
  price := 100
  quantity := 2
  fee := 1

def exampleSell : FillEvent where
  instrument := { instrumentId := "usdt-usdt", baseAsset := "USDT", quoteAsset := "USDT" }
  side := .sell
  price := 2
  quantity := 3

theorem interleaving_irrelevant_exampleFills :
    (∀ i, callsFor i [.applyFill exampleBuy, .applyFill exampleSell] =
      callsFor i [.applyFill exampleSell, .applyFill exampleBuy]) ∧
    (machine.run {} [.applyFill exampleBuy, .applyFill exampleSell]).balances =
      (machine.run {} [.applyFill exampleSell, .applyFill exampleBuy]).balances := by
  have hne : PortfolioCall.instrumentId (.applyFill exampleBuy) ≠
      PortfolioCall.instrumentId (.applyFill exampleSell) := by decide
  have hsame : ∀ i, callsFor i [.applyFill exampleBuy, .applyFill exampleSell] =
      callsFor i [.applyFill exampleSell, .applyFill exampleBuy] := fun i => ofKey_swap hne i []
  exact ⟨hsame, (interleaving_irrelevant {} _ _ hsame).2.2⟩

end PortfolioService

end Wall
