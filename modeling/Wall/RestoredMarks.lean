import Wall.PortfolioAccounts
import Wall.Restarts

/-!
# The marks after a restart

Without exchange snapshots `recover` writes a snapshot for every position into the market cache: the average entry
price for the last price, no quotes, the timestamp zero.  It does so whether the cache has a snapshot or not, and
`restore_runtime` reads back what it has written.  So the last known mark of a position survives a restart exactly if
the snapshot that held it said no more than the one that takes its place (`marks_kept_iff`).
-/

namespace Wall

open KeyedMap

/-- The instrument id that a position is stored and restored under. -/
def Position.key (position : Position) : String := position.instrument.instrumentId

/-- What a recovery without exchange snapshots makes of a position: one with an entry price is valued at it. -/
def Position.revalued (position : Position) : Position :=
  if position.averageEntryPrice > 0 then PortfolioService.updateUnrealized position position.averageEntryPrice
  else position

/-- The snapshot has no quote and no timestamp, and the price values the position as the recovery does. -/
structure Position.KeepsMark (position : Position) (snapshot : MarketSnapshot) (price : ℚ) : Prop where
  bestBid : snapshot.bestBid = none
  bestAsk : snapshot.bestAsk = none
  lastProcessTimestamp : snapshot.lastProcessTimestamp = 0
  price : if position.averageEntryPrice > 0 then price = position.averageEntryPrice ∨ position.netQuantity = 0
    else PortfolioService.ValuedAt position price

private theorem Position.revalued_unrealizedPnl_iff (position : Position) (price : ℚ) :
    position.revalued.unrealizedPnl = (price - position.averageEntryPrice) * position.netQuantity ↔
      if position.averageEntryPrice > 0 then price = position.averageEntryPrice ∨ position.netQuantity = 0
      else PortfolioService.ValuedAt position price := by
  unfold Position.revalued
  split
  · rw [PortfolioService.updateUnrealized_eq, sub_self, zero_mul, eq_comm, mul_eq_zero, sub_eq_zero]
  · rfl

/-! ### The warmed cache -/

namespace RecoveryService

variable {σ : Type*} (service : RecoveryService)

/-- Without exchange snapshots, every recovered position has its cold snapshot in the cache. -/
private theorem getSnapshot_recover {service : RecoveryService} (iteration : service.Iteration)
    (hnodup : (iteration.positions.map Position.key).Nodup) {position : Position}
    (hposition : position ∈ iteration.positions) :
    (service.recover iteration []).2.marketCache.getSnapshot position.key = some (coldSnapshot position) := by
  have hwarm : (service.recover iteration []).2.marketCache.snapshots =
      iteration.positions.foldl (fun snapshots position => snapshots.insert position.key (coldSnapshot position))
        service.marketCache.snapshots := by
    show ((iteration.positions.map coldSnapshot).foldl InMemoryMarketStateCache.upsertSnapshot
      service.marketCache).snapshots = _
    rw [List.foldl_map]
    exact (List.foldl_hom InMemoryMarketStateCache.snapshots fun _ _ => rfl).symm
  rw [InMemoryMarketStateCache.getSnapshot, hwarm]
  exact getElem?_foldl_insert_of_mem hnodup hposition _

/-! ### The restored positions -/

/-- The loop body of `restoreRuntime` that restores the snapshot of a position's instrument. -/
def restoreMark (runtime : SimulationRuntime σ) (position : Position) : SimulationRuntime σ :=
  match service.marketCache.getSnapshot position.instrument.instrumentId with
  | some marketSnapshot => runtime.restoreMarketSnapshot marketSnapshot
  | none => runtime

private theorem restoreMark_of_cold {service : RecoveryService} {position : Position}
    (hcold : service.marketCache.getSnapshot position.key = some (coldSnapshot position))
    (runtime : SimulationRuntime σ) : (service.restoreMark runtime position).portfolioService =
      if position.averageEntryPrice > 0 then
        runtime.portfolioService.setMarkPrice position.key position.averageEntryPrice
      else runtime.portfolioService := by
  have hsnapshot : service.restoreMark runtime position = runtime.restoreMarketSnapshot (coldSnapshot position) := by
    rw [restoreMark, show service.marketCache.getSnapshot position.instrument.instrumentId = _ from hcold]
  rw [hsnapshot, SimulationRuntime.restoreMarketSnapshot]
  dsimp only
  by_cases hprice : position.averageEntryPrice > 0
  · have hlast : (coldSnapshot position).lastTradePrice = some position.averageEntryPrice := if_pos hprice
    rw [if_pos hprice, hlast]
    rfl
  · have hlast : (coldSnapshot position).lastTradePrice = none := if_neg hprice
    rw [if_neg hprice, hlast]

/-- Restoring cold snapshots leaves the positions of other instruments as they are. -/
private theorem foldl_restoreMark_of_ne {service : RecoveryService} {positions : List Position} {i : String}
    (hcold : ∀ position ∈ positions,
      service.marketCache.getSnapshot position.key = some (coldSnapshot position) ∧ position.key ≠ i)
    (runtime : SimulationRuntime σ) :
    (positions.foldl service.restoreMark runtime).portfolioService.positions[i]? =
      runtime.portfolioService.positions[i]? := by
  induction positions generalizing runtime with
  | nil => rfl
  | cons position positions ih =>
    rw [List.forall_mem_cons] at hcold
    rw [List.foldl_cons, ih hcold.2, restoreMark_of_cold hcold.1.1]
    split
    · rw [PortfolioService.getElem?_setMarkPrice, if_neg hcold.1.2]
    · rfl

/-- Restoring the cold snapshots of the positions revalues each position. -/
private theorem foldl_restoreMark {service : RecoveryService} {positions : List Position}
    (hcold : ∀ position ∈ positions, service.marketCache.getSnapshot position.key = some (coldSnapshot position))
    (hnodup : (positions.map Position.key).Nodup) {position : Position} (hposition : position ∈ positions)
    {runtime : SimulationRuntime σ} (hheld : runtime.portfolioService.positions[position.key]? = some position) :
    (positions.foldl service.restoreMark runtime).portfolioService.positions[position.key]? =
      some position.revalued := by
  induction positions generalizing runtime with
  | nil => cases hposition
  | cons first positions ih =>
    rw [List.forall_mem_cons] at hcold
    rw [List.map_cons, List.nodup_cons] at hnodup
    rw [List.foldl_cons]
    have hne : ∀ other ∈ positions, other.key ≠ first.key :=
      fun other hother heq => hnodup.1 (List.mem_map.2 ⟨other, hother, heq⟩)
    rcases List.mem_cons.1 hposition with rfl | hmem
    · rw [foldl_restoreMark_of_ne fun other hother => ⟨hcold.2 other hother, hne other hother⟩,
        restoreMark_of_cold hcold.1, Position.revalued]
      split
      · rw [PortfolioService.getElem?_setMarkPrice, if_pos rfl, hheld, Option.map_some]
      · exact hheld
    · refine ih hcold.2 hnodup.2 hmem ?_
      rw [restoreMark_of_cold hcold.1]
      split
      · rw [PortfolioService.getElem?_setMarkPrice, if_neg (hne position hmem).symm, hheld]
      · exact hheld

/-- A recovered position is restored as it is stored, and then revalued. -/
private theorem getPosition_restoreRuntime {service : RecoveryService} (snapshot : RecoverySnapshot)
    (hcold : ∀ position ∈ snapshot.positions,
      service.marketCache.getSnapshot position.key = some (coldSnapshot position))
    (hnodup : (snapshot.positions.map Position.key).Nodup) {position : Position}
    (hposition : position ∈ snapshot.positions) (runtime : SimulationRuntime σ) :
    (service.restoreRuntime snapshot runtime).portfolioService.getPosition position.key = some position.revalued := by
  let positionsOf := fun runtime : SimulationRuntime σ => runtime.portfolioService.positions
  have horders : ∀ r, positionsOf (snapshot.openOrders.foldl SimulationRuntime.restoreOpenOrder r) = positionsOf r :=
    foldl_frame (f := SimulationRuntime.restoreOpenOrder) (g := positionsOf) (fun _ _ => rfl) _
  have hbalances : ∀ r, positionsOf (snapshot.balances.foldl SimulationRuntime.restoreBalance r) = positionsOf r :=
    foldl_frame (f := SimulationRuntime.restoreBalance) (g := positionsOf) (fun _ _ => rfl) _
  have hpositions : positionsOf (snapshot.positions.foldl SimulationRuntime.restorePosition runtime) =
      snapshot.positions.foldl (fun positions position => positions.insert position.key position)
        (positionsOf runtime) := (List.foldl_hom positionsOf fun _ _ => rfl).symm
  refine foldl_restoreMark hcold hnodup hposition ?_
  show (positionsOf _)[position.key]? = some position
  rw [horders, hbalances, hpositions]
  exact getElem?_foldl_insert_of_mem hnodup hposition _

/-! ### The marks -/

/-- The service with what some saves have left in an empty position repository. -/
def withPositions (saved : List Position) : RecoveryService :=
  { service with positionRepository := saved.foldl InMemoryPositionRepository.savePosition {} }

/-- After a recovery without exchange snapshots and the restoring of a runtime, every position whose instrument had a
cached last price is valued at it, and the cached snapshot has its quotes and its timestamp. -/
def KeepsMarks (iteration : service.Iteration) (runtime : SimulationRuntime σ) : Prop :=
  let (snapshot, warmed) := service.recover iteration []
  ∀ position ∈ snapshot.positions, ∀ cached ∈ service.marketCache.getSnapshot position.key,
    ∀ price ∈ cached.lastTradePrice,
      (∃ restored ∈ (warmed.restoreRuntime snapshot runtime).portfolioService.getPosition position.key,
        restored.unrealizedPnl = (price - position.averageEntryPrice) * position.netQuantity) ∧
      ∃ kept ∈ warmed.marketCache.getSnapshot position.key, kept.bestBid = cached.bestBid ∧
        kept.bestAsk = cached.bestAsk ∧ kept.lastProcessTimestamp = cached.lastProcessTimestamp

private theorem nodup_withPositions {saved : List Position} (iteration : (service.withPositions saved).Iteration) :
    (iteration.positions.map Position.key).Nodup := by
  have hpositions : (service.withPositions saved).positionRepository.positions = ofValues Position.key saved :=
    (List.foldl_hom InMemoryPositionRepository.positions fun _ _ => rfl).symm
  have hkey : ∀ (i : String) (position : Position),
      (service.withPositions saved).positionRepository.positions[i]? = some position → position.key = i := by
    rw [hpositions]
    exact key_insertValues (by simp) saved
  have hnodup := nodup_map_key Position.key id hkey
  rw [List.map_id] at hnodup
  exact (iteration.positions_perm.map _).nodup_iff.2 hnodup

/-- Whatever the position repository and the market cache hold, a restart without exchange snapshots keeps the marks
exactly if every stored position whose instrument has a cached last price keeps that mark. -/
theorem marks_kept_iff (saved : List Position) (iteration : (service.withPositions saved).Iteration)
    (riskConfig : RiskConfig) (config : SimulationRuntimeConfig σ) :
    (service.withPositions saved).KeepsMarks iteration (SimulationRuntime.fresh riskConfig config) ↔
      ∀ position ∈ (service.withPositions saved).positionRepository.allPositions,
        ∀ cached ∈ service.marketCache.getSnapshot position.key, ∀ price ∈ cached.lastTradePrice,
          position.KeepsMark cached price := by
  have hnodup := service.nodup_withPositions iteration
  have hcold : ∀ position ∈ iteration.positions,
      ((service.withPositions saved).recover iteration []).2.marketCache.getSnapshot position.key =
        some (coldSnapshot position) := fun _ => getSnapshot_recover iteration hnodup
  unfold KeepsMarks
  dsimp only
  refine forall_congr' fun position => ?_
  have hmem : position ∈ ((service.withPositions saved).recover iteration []).1.positions ↔
      position ∈ (service.withPositions saved).positionRepository.allPositions := iteration.positions_perm.mem_iff
  rw [hmem]
  refine forall_congr' fun hposition => forall_congr' fun cached => forall_congr' fun _ => forall_congr' fun price =>
    forall_congr' fun _ => ?_
  rw [getPosition_restoreRuntime _ hcold hnodup (hmem.2 hposition), hcold position (hmem.2 hposition)]
  simp only [Option.mem_def, Option.some.injEq, exists_eq_left', position.revalued_unrealizedPnl_iff]
  constructor
  · rintro ⟨hprice, hbid, hask, htime⟩
    exact ⟨hbid.symm, hask.symm, htime.symm, hprice⟩
  · rintro ⟨hbid, hask, htime, hprice⟩
    exact ⟨hprice, hbid.symm, hask.symm, htime.symm⟩

/-- One unit bought at 100 and valued at 110. -/
def examplePosition : Position where
  positionId := "position-btc-usdt"
  instrument := { instrumentId := "btc-usdt" }
  netQuantity := 1
  averageEntryPrice := 100
  unrealizedPnl := 10

/-- The market of `btc-usdt` at 110. -/
def exampleSnapshot : MarketSnapshot where
  instrumentId := "btc-usdt"
  bestBid := some 109
  bestAsk := some 111
  lastTradePrice := some 110
  lastProcessTimestamp := 1000

/-- After the restart the gain of 10 is gone, and so is the bid. -/
theorem restart_loses_mark :
    let service := withPositions { marketCache := ({} : InMemoryMarketStateCache).upsertSnapshot exampleSnapshot }
      [examplePosition]
    let recovered := service.recover service.byKey []
    let fresh : SimulationRuntime Unit := SimulationRuntime.fresh {} { strategyCoordinator := {} }
    ((recovered.2.restoreRuntime recovered.1 fresh).portfolioService.getPosition "btc-usdt").map
        Position.unrealizedPnl = some 0 ∧
      (recovered.2.marketCache.getSnapshot "btc-usdt").map MarketSnapshot.bestBid = some none ∧
      ¬service.KeepsMarks service.byKey fresh := by
  intro service recovered fresh
  have hbid : (recovered.2.marketCache.getSnapshot "btc-usdt").map MarketSnapshot.bestBid = some none := by
    decide +kernel
  refine ⟨by decide +kernel, hbid, fun h => ?_⟩
  have hposition : examplePosition ∈ recovered.1.positions := by decide +kernel
  have hcached : service.marketCache.getSnapshot "btc-usdt" = some exampleSnapshot := by decide +kernel
  obtain ⟨-, kept, hkept, hkeptBid, -⟩ := h examplePosition hposition exampleSnapshot hcached 110 rfl
  have hnow : recovered.2.marketCache.getSnapshot "btc-usdt" = some kept := hkept
  rw [hnow, Option.map_some, hkeptBid] at hbid
  cases hbid

end RecoveryService

end Wall
