import Wall.Portfolio

/-!
# The portfolio's accounts

What the portfolio holds after any calls, in terms of the calls: quantities are the sums of the fills, the realized
result is what closing has earned, the unrealized result is at the last mark, and balances are flows.  The invariant
is `Accounts`; a fill changes one position, whose cost it moves by the fill's signed notional
(`cost_executeFill`), and two balances.
-/

namespace Wall

open KeyedMap

inductive PortfolioCall
  | applyFill (fill : FillEvent)
  | setMarkPrice (instrumentId : String) (price : ℚ)

namespace PortfolioService

def call (portfolio : PortfolioService) : PortfolioCall → PortfolioService
  | .applyFill fill => portfolio.applyFill fill
  | .setMarkPrice instrumentId price => portfolio.setMarkPrice instrumentId price

/-- The portfolio as a machine that reads calls. -/
def machine : Machine PortfolioService PortfolioCall Unit where
  step portfolio c := (portfolio.call c, ())

/-! ### The calls so far -/

/-- The fills among the calls. -/
def fillsOf (calls : List PortfolioCall) : List FillEvent :=
  calls.filterMap fun
    | .applyFill fill => some fill
    | .setMarkPrice _ _ => none

/-- The last mark set for an instrument. -/
def lastMark (i : String) (calls : List PortfolioCall) : Option ℚ :=
  (calls.filterMap fun
    | .applyFill _ => none
    | .setMarkPrice j price => if j = i then some price else none).getLast?

/-- The price of the last fill of an instrument. -/
def lastFillPrice (i : String) (fills : List FillEvent) : Option ℚ :=
  ((fills.filter fun fill => fill.instrument.instrumentId = i).map FillEvent.price).getLast?

/-- The price an instrument is valued at: its last mark, or its last fill price if no mark was ever set. -/
def valuation (i : String) (calls : List PortfolioCall) : ℚ :=
  (lastMark i calls).getD ((lastFillPrice i (fillsOf calls)).getD 0)

/-- The signed notional of an instrument's fills. -/
def notionalFills (i : String) (fills : List FillEvent) : ℚ :=
  (fills.map fun f => if f.instrument.instrumentId = i then f.side.signed f.quantity * f.price else 0).sum

/-- What the fills put into an asset as their base. -/
def baseFlow (asset : String) (fills : List FillEvent) : ℚ :=
  (fills.map fun f => if f.instrument.baseAsset = asset then f.side.signed f.quantity else 0).sum

/-- What the fills put into an asset as their quote: sale notional less purchase notional less fees. -/
def quoteFlow (asset : String) (fills : List FillEvent) : ℚ :=
  (fills.map fun f =>
    if f.instrument.quoteAsset = asset then -f.side.signed (f.quantity * f.price) - f.fee else 0).sum

section Calls

variable (i : String) (calls : List PortfolioCall) (fill : FillEvent) (price : ℚ)

@[simp] theorem fillsOf_fill : fillsOf (calls ++ [.applyFill fill]) = fillsOf calls ++ [fill] := by
  simp [fillsOf]

@[simp] theorem fillsOf_mark : fillsOf (calls ++ [.setMarkPrice i price]) = fillsOf calls := by
  simp [fillsOf]

@[simp] theorem lastMark_fill : lastMark i (calls ++ [.applyFill fill]) = lastMark i calls := by
  simp [lastMark]

private theorem lastMark_mark (j : String) :
    lastMark i (calls ++ [.setMarkPrice j price]) = if j = i then some price else lastMark i calls := by
  unfold lastMark
  rw [List.filterMap_append]
  split
  · rename_i h
    simp [h]
  · rename_i h
    simp [h]

private theorem lastFillPrice_fill (fills : List FillEvent) : lastFillPrice i (fills ++ [fill]) =
    if fill.instrument.instrumentId = i then some fill.price else lastFillPrice i fills := by
  unfold lastFillPrice
  rw [List.filter_append, List.map_append]
  split
  · rename_i h
    simp [h]
  · rename_i h
    simp [h]

end Calls

/-! ### One call -/

theorem updateUnrealized_eq (position : Position) (markPrice : ℚ) : updateUnrealized position markPrice =
    { position with unrealizedPnl := (markPrice - position.averageEntryPrice) * position.netQuantity } := by
  unfold updateUnrealized
  split
  · rename_i h
    rw [h, mul_zero]
  · rfl

/-- The unrealized result of the position is that at this price. -/
def ValuedAt (position : Position) (price : ℚ) : Prop :=
  position.unrealizedPnl = (price - position.averageEntryPrice) * position.netQuantity

private theorem updateUnrealized_eq_self_iff (position : Position) (price : ℚ) :
    updateUnrealized position price = position ↔ ValuedAt position price := by
  rw [updateUnrealized_eq, ValuedAt]
  cases position
  simp [eq_comm]

/-- A mark values the position of its instrument if there is one, and opens none. -/
theorem getElem?_setMarkPrice (portfolio : PortfolioService) (j : String) (price : ℚ) (i : String) :
    (portfolio.setMarkPrice j price).positions[i]? =
      if j = i then portfolio.positions[i]?.map fun position => updateUnrealized position price
      else portfolio.positions[i]? := by
  unfold setMarkPrice
  dsimp only
  by_cases hi : j = i
  · subst hi
    rw [if_pos rfl]
    cases h : portfolio.positions[j]? with
    | none => simp [h]
    | some position => simp
  · rw [if_neg hi]
    split
    · rw [getElem?_insert, if_neg hi]
    · rfl

/-- A mark leaves the positions as they are exactly if that of its instrument is valued at it. -/
theorem setMarkPrice_positions_iff (portfolio : PortfolioService) (i : String) (price : ℚ) :
    (portfolio.setMarkPrice i price).positions = portfolio.positions ↔
      ∀ position ∈ portfolio.getPosition i, ValuedAt position price := by
  simp only [getPosition, ← updateUnrealized_eq_self_iff]
  rw [Std.ExtTreeMap.ext_getElem?_iff]
  constructor
  · intro heq position hposition
    have hi := heq i
    rwa [getElem?_setMarkPrice, if_pos rfl, hposition, Option.map_some, Option.some.injEq] at hi
  · intro hvalued j
    rw [getElem?_setMarkPrice]
    split
    · rename_i hij
      subst hij
      cases hposition : portfolio.positions[i]? with
      | none => rfl
      | some position => rw [Option.map_some, hvalued position hposition]
    · rfl

/-- What is known of the position of instrument `i` after the calls. -/
structure PositionOk (calls : List PortfolioCall) (i : String) (p : Position) : Prop where
  opened : p.positionId ≠ ""
  instrument_eq : p.instrument.instrumentId = i
  net_eq : p.netQuantity = signedFills i (fillsOf calls)
  cost_eq : cost p = notionalFills i (fillsOf calls)
  unrealized_eq : p.unrealizedPnl = (valuation i calls - p.averageEntryPrice) * p.netQuantity

structure Accounts (calls : List PortfolioCall) (portfolio : PortfolioService) : Prop where
  marks : ∀ i, portfolio.markPrices[i]? = lastMark i calls
  position : ∀ i p, portfolio.positions[i]? = some p → PositionOk calls i p
  opened : ∀ i, (∃ p, portfolio.positions[i]? = some p) ↔ ∃ fill ∈ fillsOf calls, fill.instrument.instrumentId = i
  balance : ∀ asset, (portfolio.getBalance asset).totalBalance =
      baseFlow asset (fillsOf calls) + quoteFlow asset (fillsOf calls) ∧
    (portfolio.getBalance asset).availableBalance = (portfolio.getBalance asset).totalBalance
  cost_eq : sumOver cost portfolio.positions =
    ((fillsOf calls).map fun f => f.side.signed f.quantity * f.price).sum

private theorem empty_accounts : Accounts [] {} := by
  refine ⟨fun i => by simp [lastMark], fun i p hp => by simp at hp, fun i => by simp [fillsOf], fun asset => ?_, ?_⟩
  · simp [getBalance, balanceOf, fillsOf, baseFlow, quoteFlow]
  · simp [fillsOf]

private theorem balanceOf_moveBalance (balances : StringMap BalanceSnapshot) (asset a : String) (amount : ℚ) :
    (balanceOf (moveBalance balances asset amount) a).totalBalance =
        (balanceOf balances a).totalBalance + (if asset = a then amount else 0) ∧
      ((balanceOf balances a).availableBalance = (balanceOf balances a).totalBalance →
        (balanceOf (moveBalance balances asset amount) a).availableBalance =
          (balanceOf (moveBalance balances asset amount) a).totalBalance) := by
  by_cases h : asset = a
  · subst h
    have htotal : (balances[asset]?.getD default).totalBalance = (balanceOf balances asset).totalBalance := by
      unfold balanceOf
      cases balances[asset]? <;> rfl
    have hafter : balanceOf (moveBalance balances asset amount) asset =
        { asset := asset
          totalBalance := (balances[asset]?.getD default).totalBalance + amount
          availableBalance := (balances[asset]?.getD default).totalBalance + amount } := by
      rw [balanceOf, moveBalance, getElem?_modifyD, if_pos rfl, Option.getD_some]
    rw [hafter, htotal, if_pos rfl]
    exact ⟨rfl, fun _ => rfl⟩
  · have hafter : balanceOf (moveBalance balances asset amount) a = balanceOf balances a := by
      rw [balanceOf, moveBalance, getElem?_modifyD, if_neg h, ← balanceOf]
    rw [hafter, if_neg h, add_zero]
    exact ⟨rfl, id⟩

/-- A fill moves its base asset and its quote asset. -/
theorem applyFillToBalances_eq (balances : StringMap BalanceSnapshot) (fill : FillEvent) :
    applyFillToBalances balances fill =
      moveBalance (moveBalance balances fill.instrument.baseAsset (fill.side.signed fill.quantity))
        fill.instrument.quoteAsset (-fill.side.signed (fill.quantity * fill.price) - fill.fee) := by
  unfold applyFillToBalances
  cases hs : fill.side with
  | buy =>
    simp only [OrderSide.signed]
    rw [neg_add, sub_eq_add_neg]
  | sell => simp only [OrderSide.signed, neg_neg]

/-- A fill moves the base asset by its signed quantity and the quote asset by its signed notional and its fee. -/
private theorem getBalance_applyFill (portfolio : PortfolioService) (fill : FillEvent) (a : String) :
    ((portfolio.applyFill fill).getBalance a).totalBalance = (portfolio.getBalance a).totalBalance +
        (if fill.instrument.baseAsset = a then fill.side.signed fill.quantity else 0) +
        (if fill.instrument.quoteAsset = a then -fill.side.signed (fill.quantity * fill.price) - fill.fee else 0) ∧
      ((portfolio.getBalance a).availableBalance = (portfolio.getBalance a).totalBalance →
        ((portfolio.applyFill fill).getBalance a).availableBalance =
          ((portfolio.applyFill fill).getBalance a).totalBalance) := by
  have hbase := balanceOf_moveBalance portfolio.balances fill.instrument.baseAsset a (fill.side.signed fill.quantity)
  have hquote := balanceOf_moveBalance
    (moveBalance portfolio.balances fill.instrument.baseAsset (fill.side.signed fill.quantity))
    fill.instrument.quoteAsset a (-fill.side.signed (fill.quantity * fill.price) - fill.fee)
  rw [← applyFillToBalances_eq] at hquote
  refine ⟨?_, fun h => hquote.2 (hbase.2 h)⟩
  show (balanceOf (applyFillToBalances portfolio.balances fill) a).totalBalance = _
  rw [hquote.1, hbase.1, getBalance]

theorem applyFillToPosition_eq (markPrices : StringMap ℚ) (position : Position) (fill : FillEvent) :
    applyFillToPosition markPrices position fill = updateUnrealized (executeFill position fill)
      (markPrices[fill.instrument.instrumentId]?.getD fill.price) := by
  unfold applyFillToPosition
  cases markPrices[fill.instrument.instrumentId]? <;> rfl

@[simp] theorem cost_updateUnrealized (position : Position) (markPrice : ℚ) :
    cost (updateUnrealized position markPrice) = cost position := by
  rw [updateUnrealized_eq]
  rfl

private theorem cost_default : cost default = 0 := by
  show (0 : ℚ) * 0 - 0 = 0
  norm_num

/-- Opening, filling and valuing leave the identity of a position alone. -/
theorem applyFillToPosition_same (markPrices : StringMap ℚ) (position : Position) (fill : FillEvent) :
    (applyFillToPosition markPrices position fill).positionId = position.positionId ∧
      (applyFillToPosition markPrices position fill).instrument = position.instrument := by
  rw [applyFillToPosition_eq, updateUnrealized_eq]
  unfold executeFill
  dsimp only
  split <;> exact ⟨rfl, rfl⟩

/-- What a fill writes to has an id and the fill's instrument, if the position that it finds has them. -/
theorem openPosition_getD {old : Option Position} {fill : FillEvent} (h : ∀ position ∈ old,
    position.positionId ≠ "" ∧ position.instrument.instrumentId = fill.instrument.instrumentId) :
    (openPosition (old.getD default) fill).positionId ≠ "" ∧
      (openPosition (old.getD default) fill).instrument.instrumentId = fill.instrument.instrumentId := by
  cases old with
  | none =>
    have hempty : (default : Position).positionId = "" := rfl
    rw [Option.getD_none, openPosition, if_pos hempty]
    exact ⟨by simp, rfl⟩
  | some position =>
    obtain ⟨hopened, hinstrument⟩ := h position rfl
    rw [Option.getD_some, openPosition, if_neg hopened]
    exact ⟨hopened, hinstrument⟩

@[simp] theorem cost_openPosition (position : Position) (fill : FillEvent) :
    cost (openPosition position fill) = cost position := by
  unfold openPosition
  split <;> rfl

private theorem cost_applyFillToPosition (markPrices : StringMap ℚ) (position : Position) (fill : FillEvent) :
    cost (applyFillToPosition markPrices (openPosition position fill) fill) =
      cost position + fill.side.signed fill.quantity * fill.price := by
  rw [applyFillToPosition_eq, cost_updateUnrealized, cost_executeFill, cost_openPosition]

/-- A call leaves the accounts of the other instruments as they are. -/
private theorem PositionOk.other_fill {calls : List PortfolioCall} {i : String} {p : Position}
    (h : PositionOk calls i p)
    {fill : FillEvent} (hi : fill.instrument.instrumentId ≠ i) : PositionOk (calls ++ [.applyFill fill]) i p := by
  refine ⟨h.opened, h.instrument_eq, ?_, ?_, ?_⟩
  · rw [h.net_eq, fillsOf_fill, signedFills_append]
    simp [signedFills, hi]
  · rw [h.cost_eq, fillsOf_fill]
    simp [notionalFills, hi]
  · rw [h.unrealized_eq, valuation, valuation, lastMark_fill, fillsOf_fill, lastFillPrice_fill, if_neg hi]

/-- A mark values the position of its instrument. -/
theorem PositionOk.marked {calls : List PortfolioCall} {i : String} {p : Position} (h : PositionOk calls i p)
    (j : String) (price : ℚ) : PositionOk (calls ++ [.setMarkPrice j price]) i
      (if j = i then updateUnrealized p price else p) := by
  by_cases hi : j = i
  · have hvalue : valuation i (calls ++ [.setMarkPrice j price]) = price := by
      rw [valuation, lastMark_mark, if_pos hi, Option.getD_some]
    rw [if_pos hi]
    refine ⟨?_, ?_, ?_, by rw [cost_updateUnrealized, fillsOf_mark, h.cost_eq], ?_⟩
    · rw [updateUnrealized_eq]
      exact h.opened
    · rw [updateUnrealized_eq]
      exact h.instrument_eq
    · rw [updateUnrealized_netQuantity, fillsOf_mark]
      exact h.net_eq
    · rw [updateUnrealized_eq, hvalue]
  · rw [if_neg hi]
    refine ⟨h.opened, h.instrument_eq, by rw [fillsOf_mark, h.net_eq], by rw [fillsOf_mark, h.cost_eq], ?_⟩
    rw [h.unrealized_eq, valuation, valuation, lastMark_mark, if_neg hi, fillsOf_mark]

/-! ### The invariant -/

/-- The position that a fill changes, as it stands before: a missing one counts as empty. -/
private theorem Accounts.before_fill {calls : List PortfolioCall} {portfolio : PortfolioService}
    (h : Accounts calls portfolio)
    (i : String) : (portfolio.positions[i]?.getD default).netQuantity = signedFills i (fillsOf calls) ∧
      cost (portfolio.positions[i]?.getD default) = notionalFills i (fillsOf calls) := by
  cases hp : portfolio.positions[i]? with
  | some p => exact ⟨(h.position i p hp).net_eq, (h.position i p hp).cost_eq⟩
  | none =>
    have hnone : ∀ fill ∈ fillsOf calls, fill.instrument.instrumentId ≠ i := by
      intro fill hfill hi
      obtain ⟨p, hp'⟩ := (h.opened i).2 ⟨fill, hfill, hi⟩
      rw [hp] at hp'
      cases hp'
    constructor
    · refine (List.sum_eq_zero fun x hx => ?_).symm
      obtain ⟨fill, hfill, rfl⟩ := List.mem_map.1 hx
      exact if_neg (hnone fill hfill)
    · refine cost_default.trans (List.sum_eq_zero fun x hx => ?_).symm
      obtain ⟨fill, hfill, rfl⟩ := List.mem_map.1 hx
      exact if_neg (hnone fill hfill)

/-- A position that is written has an id and the fill's instrument, whether the fill opens it or finds it. -/
private theorem Accounts.opened_by_fill {calls : List PortfolioCall} {portfolio : PortfolioService}
    (h : Accounts calls portfolio) (fill : FillEvent) :
    let position := openPosition (portfolio.positions[fill.instrument.instrumentId]?.getD default) fill
    position.positionId ≠ "" ∧ position.instrument.instrumentId = fill.instrument.instrumentId := by
  refine openPosition_getD fun p hp => ?_
  have hok := h.position _ p hp
  exact ⟨hok.opened, hok.instrument_eq⟩

/-- The position of the fill's instrument after the fill. -/
private theorem Accounts.filled_position {calls : List PortfolioCall} {portfolio : PortfolioService}
    (h : Accounts calls portfolio) (fill : FillEvent) :
    PositionOk (calls ++ [.applyFill fill]) fill.instrument.instrumentId (applyFillToPosition portfolio.markPrices
      (openPosition (portfolio.positions[fill.instrument.instrumentId]?.getD default) fill) fill) := by
  obtain ⟨hnet, hcost⟩ := h.before_fill fill.instrument.instrumentId
  obtain ⟨hopened, hinstrument⟩ := h.opened_by_fill fill
  set old := portfolio.positions[fill.instrument.instrumentId]?.getD default
  obtain ⟨hid, hinst⟩ := applyFillToPosition_same portfolio.markPrices (openPosition old fill) fill
  refine ⟨hid ▸ hopened, hinst ▸ hinstrument, ?_, ?_, ?_⟩
  · rw [applyFillToPosition_netQuantity, openPosition_netQuantity, hnet, fillsOf_fill, signedFills_append]
    simp [signedFills]
  · rw [cost_applyFillToPosition, hcost, fillsOf_fill]
    simp [notionalFills]
  · have hvalue : portfolio.markPrices[fill.instrument.instrumentId]?.getD fill.price =
        valuation fill.instrument.instrumentId (calls ++ [.applyFill fill]) := by
      rw [valuation, lastMark_fill, h.marks, fillsOf_fill, lastFillPrice_fill, if_pos rfl, Option.getD_some]
    rw [applyFillToPosition_eq, hvalue, updateUnrealized_eq]

/-- A fill adds its signed notional to what all positions have cost. -/
private theorem sumOver_cost_applyFill (portfolio : PortfolioService) (fill : FillEvent) :
    sumOver cost (portfolio.applyFill fill).positions =
      sumOver cost portfolio.positions + fill.side.signed fill.quantity * fill.price := by
  have hpositions : (portfolio.applyFill fill).positions = portfolio.positions.insert fill.instrument.instrumentId
      (applyFillToPosition portfolio.markPrices
        (openPosition (portfolio.positions[fill.instrument.instrumentId]?.getD default) fill) fill) := by
    unfold PortfolioService.applyFill
    dsimp only
    rw [modifyD, Std.ExtTreeMap.getD_eq_getD_getElem?]
  set old := portfolio.positions[fill.instrument.instrumentId]?.getD default with hold
  have hsum := sumOver_insert_add cost portfolio.positions fill.instrument.instrumentId
    (applyFillToPosition portfolio.markPrices (openPosition old fill) fill)
  have hzero : portfolio.positions[fill.instrument.instrumentId]?.elim 0 cost = cost old := by
    rw [hold]
    cases portfolio.positions[fill.instrument.instrumentId]? with
    | none => exact cost_default.symm
    | some p => rfl
  rw [hzero, cost_applyFillToPosition] at hsum
  rw [hpositions]
  linarith

theorem Accounts.applyFill {calls : List PortfolioCall} {portfolio : PortfolioService} (h : Accounts calls portfolio)
    (fill : FillEvent) : Accounts (calls ++ [.applyFill fill]) (portfolio.applyFill fill) := by
  have hget : ∀ i, (portfolio.applyFill fill).positions[i]? =
      if fill.instrument.instrumentId = i then
        some (applyFillToPosition portfolio.markPrices
          (openPosition (portfolio.positions[fill.instrument.instrumentId]?.getD default) fill) fill)
      else portfolio.positions[i]? := fun i => getElem?_modifyD ..
  refine ⟨fun i => ?_, fun i p hp => ?_, fun i => ?_, fun asset => ?_, ?_⟩
  · rw [lastMark_fill]
    exact h.marks i
  · rw [hget] at hp
    by_cases hi : fill.instrument.instrumentId = i
    · rw [if_pos hi] at hp
      cases hp
      exact hi ▸ h.filled_position fill
    · rw [if_neg hi] at hp
      exact (h.position i p hp).other_fill hi
  · rw [hget, fillsOf_fill]
    by_cases hi : fill.instrument.instrumentId = i
    · simp [hi]
    · simp [hi, h.opened i]
  · obtain ⟨htotal, havailable⟩ := getBalance_applyFill portfolio fill asset
    refine ⟨?_, havailable (h.balance asset).2⟩
    rw [htotal, (h.balance asset).1, fillsOf_fill, baseFlow, baseFlow, quoteFlow, quoteFlow, List.map_append,
      List.map_append, List.sum_append, List.sum_append, List.map_singleton, List.map_singleton, List.sum_singleton,
      List.sum_singleton]
    ring
  · rw [sumOver_cost_applyFill, h.cost_eq, fillsOf_fill, List.map_append, List.sum_append, List.map_singleton,
      List.sum_singleton]

theorem Accounts.setMarkPrice {calls : List PortfolioCall} {portfolio : PortfolioService} (h : Accounts calls portfolio)
    (j : String) (price : ℚ) : Accounts (calls ++ [.setMarkPrice j price]) (portfolio.setMarkPrice j price) := by
  have hget : ∀ i p, (portfolio.setMarkPrice j price).positions[i]? = some p ↔ ∃ p₀, portfolio.positions[i]? = some p₀ ∧
      p = if j = i then updateUnrealized p₀ price else p₀ := by
    intro i p
    rw [getElem?_setMarkPrice]
    split <;> simp [eq_comm]
  refine ⟨fun i => ?_, fun i p hp => ?_, fun i => ?_, fun asset => ?_, ?_⟩
  · rw [lastMark_mark]
    show (portfolio.markPrices.insert j price)[i]? = _
    rw [KeyedMap.getElem?_insert, h.marks]
  · obtain ⟨p₀, hp₀, rfl⟩ := (hget i p).1 hp
    exact (h.position i p₀ hp₀).marked j price
  · rw [fillsOf_mark, ← h.opened i]
    constructor
    · rintro ⟨p, hp⟩
      obtain ⟨p₀, hp₀, -⟩ := (hget i p).1 hp
      exact ⟨p₀, hp₀⟩
    · rintro ⟨p₀, hp₀⟩
      exact ⟨_, (hget i _).2 ⟨p₀, hp₀, rfl⟩⟩
  · rw [fillsOf_mark]
    exact h.balance asset
  · rw [fillsOf_mark, ← h.cost_eq]
    unfold PortfolioService.setMarkPrice
    dsimp only
    split
    · rename_i p hp
      have hsum := sumOver_insert_old cost hp (updateUnrealized p price)
      rw [cost_updateUnrealized] at hsum
      linarith
    · rfl

theorem machine_run_accounts (calls : List PortfolioCall) : Accounts calls (machine.run {} calls) := by
  have hok : machine.Admissible (fun _ _ => True) {} calls := Machine.admissible_of_forall (fun _ _ _ => trivial) _
  refine Machine.invariant_history (P := fun calls portfolio _ => Accounts calls portfolio) ?_ hok empty_accounts
  intro calls portfolio _ c _ h
  cases c with
  | applyFill fill => exact Accounts.applyFill h fill
  | setMarkPrice i price => exact Accounts.setMarkPrice h i price

/-- With one quote asset, apart from all base assets, the quote balance is what the positions have cost and the fees. -/
private theorem quote_balance {fills : List FillEvent} {quote : String}
    (h : ∀ fill ∈ fills, fill.instrument.quoteAsset = quote ∧ fill.instrument.baseAsset ≠ quote) :
    baseFlow quote fills + quoteFlow quote fills =
      -(fills.map fun f => f.side.signed f.quantity * f.price).sum - (fills.map FillEvent.fee).sum := by
  induction fills with
  | nil => simp [baseFlow, quoteFlow]
  | cons f fills ih =>
    have hrest := ih fun fill hfill => h fill (List.mem_cons_of_mem _ hfill)
    obtain ⟨hquote, hbase⟩ := h f (List.mem_cons_self ..)
    simp only [baseFlow, quoteFlow, List.map_cons, List.sum_cons, hquote, hbase, ↓reduceIte,
      OrderSide.signed_mul] at hrest ⊢
    linarith

/-- After any calls on an empty portfolio: an instrument's position holds the sum of its signed fills, has realized
what its fills' notional and the average price say, and is valued at the last mark, or at the last fill price when no
mark was set; every balance is the sum of its flows and wholly available; and with one quote asset the quote balance
and the positions at their valuation make up the realized and unrealized results less the fees. -/
theorem reachable_portfolio_accounts (calls : List PortfolioCall) :
    let portfolio := machine.run {} calls
    let fills := fillsOf calls
    (∀ i, (∃ fill ∈ fills, fill.instrument.instrumentId = i) → ∃ p, portfolio.getPosition i = some p ∧
      p.instrument.instrumentId = i ∧ p.netQuantity = signedFills i fills ∧
      p.realizedPnl = -notionalFills i fills + p.netQuantity * p.averageEntryPrice ∧
      p.unrealizedPnl = (valuation i calls - p.averageEntryPrice) * p.netQuantity) ∧
    (∀ asset, (portfolio.getBalance asset).totalBalance = baseFlow asset fills + quoteFlow asset fills ∧
      (portfolio.getBalance asset).availableBalance = (portfolio.getBalance asset).totalBalance) ∧
    ∀ quote, (∀ fill ∈ fills, fill.instrument.quoteAsset = quote ∧ fill.instrument.baseAsset ≠ quote) →
      (portfolio.getBalance quote).totalBalance +
          (portfolio.allPositions.map fun p => p.netQuantity * valuation p.instrument.instrumentId calls).sum =
        (portfolio.allPositions.map fun p => p.realizedPnl + p.unrealizedPnl).sum - (fills.map FillEvent.fee).sum := by
  intro portfolio fills
  have h : Accounts calls portfolio := machine_run_accounts calls
  refine ⟨fun i hi => ?_, h.balance, fun quote hquote => ?_⟩
  · obtain ⟨p, hp⟩ := (h.opened i).2 hi
    have hok := h.position i p hp
    have hcost := hok.cost_eq
    rw [cost] at hcost
    exact ⟨p, hp, hok.instrument_eq, hok.net_eq, by linarith, hok.unrealized_eq⟩
  · have hall : ∀ f : Position → ℚ, (portfolio.allPositions.map f).sum = sumOver f portfolio.positions := by
      intro f
      rw [allPositions, List.map_map]
      rfl
    have hvalue : sumOver (fun p : Position => p.realizedPnl + p.unrealizedPnl) portfolio.positions +
        sumOver cost portfolio.positions =
        sumOver (fun p : Position => p.netQuantity * valuation p.instrument.instrumentId calls)
          portfolio.positions := by
      rw [← sumOver_add]
      refine sumOver_congr fun i p hp => ?_
      have hok := h.position i p hp
      rw [hok.unrealized_eq, hok.instrument_eq, cost]
      ring
    rw [hall, hall, (h.balance quote).1, quote_balance hquote, ← h.cost_eq, ← hvalue]
    ring

theorem reachable_portfolio_accounts_exampleCalls :
    let instrument : Instrument := { instrumentId := "btc-usdt", baseAsset := "BTC", quoteAsset := "USDT" }
    let calls : List PortfolioCall :=
      [.applyFill { instrument := instrument, side := .buy, price := 100, quantity := 2, fee := 1 },
        .setMarkPrice "btc-usdt" 110,
        .applyFill { instrument := instrument, side := .sell, price := 120, quantity := 3 }]
    let portfolio := machine.run {} calls
    (portfolio.getBalance "USDT").totalBalance +
        (portfolio.allPositions.map fun p => p.netQuantity * valuation p.instrument.instrumentId calls).sum =
      (portfolio.allPositions.map fun p => p.realizedPnl + p.unrealizedPnl).sum -
        ((fillsOf calls).map FillEvent.fee).sum := by
  intro instrument calls portfolio
  refine (reachable_portfolio_accounts calls).2.2 "USDT" ?_
  decide

end PortfolioService

end Wall
