import Wall.BookRuns
import Wall.Lib.StrictlySorted

/-!
# Price-time priority

`OrderBook.sideQueue` lists one side of a book level by level.  In a well-formed book it is the arrangement of the
side's resting orders by price and then by sequence number (`Wf.sideQueue_coe`, `Wf.sideQueue_sorted`), and no other
list is (`Wf.sideQueue_unique`).  The best order is its head, and what the operations do to the resting orders gives
what they do to the queues.
-/

namespace Wall

open KeyedMap StrictlySorted
open Std (ExtTreeMap TransCmp LawfulEqCmp)

/-- `p` is a better price than `p'` for an order resting on this side. -/
def OrderSide.Better : OrderSide → ℚ → ℚ → Prop
  | .buy, p, p' => p' < p
  | .sell, p, p' => p < p'

theorem OrderSide.Better.irrefl {side : OrderSide} {p : ℚ} : ¬ side.Better p p := by
  cases side <;> exact lt_irrefl p

theorem OrderSide.Better.asymm {side : OrderSide} {p p' : ℚ} (h : side.Better p p') : ¬ side.Better p' p := by
  cases side <;> exact lt_asymm h

theorem OrderSide.atLeastAsGood_iff {side : OrderSide} {p p' : ℚ} :
    side.AtLeastAsGood p p' ↔ side.Better p p' ∨ p = p' := by
  cases side with
  | buy => exact le_iff_lt_or_eq.trans (or_congr_right eq_comm)
  | sell => exact le_iff_lt_or_eq

namespace RestingOrder

/-- The price that the order rests at; a resting order has one. -/
def price (o : RestingOrder) : ℚ := o.request.price.getD 0

/-- `o` is served before `o'`: at a better price, or at the same price and earlier. -/
def Precedes (side : OrderSide) (o o' : RestingOrder) : Prop :=
  side.Better o.price o'.price ∨ o.price = o'.price ∧ o.sequenceNumber < o'.sequenceNumber

theorem Precedes.asymm {side : OrderSide} (o o' : RestingOrder) (h : Precedes side o o') : ¬ Precedes side o' o := by
  rintro (h' | ⟨heq', hseq'⟩)
  · rcases h with h | ⟨heq, -⟩
    · exact h.asymm h'
    · exact OrderSide.Better.irrefl (heq ▸ h')
  · rcases h with h | ⟨-, hseq⟩
    · exact OrderSide.Better.irrefl (heq' ▸ h)
    · exact absurd hseq (by omega)

end RestingOrder

section Levels

variable {cmp : ℚ → ℚ → Ordering} [TransCmp cmp]

/-- The orders of a level map, level by level. -/
def levelOrders (levels : ExtTreeMap ℚ (List RestingOrder) cmp) : List RestingOrder :=
  levels.toList.flatMap Prod.snd

private theorem levelOrders_coe (levels : ExtTreeMap ℚ (List RestingOrder) cmp) :
    (levelOrders levels : Multiset RestingOrder) = contents levels := by
  unfold levelOrders contents sumOver
  induction levels.toList with
  | nil => rfl
  | cons e l ih => rw [List.flatMap_cons, List.map_cons, List.sum_cons, ← ih, Multiset.coe_add]

private theorem levelOrders_head? {levels : ExtTreeMap ℚ (List RestingOrder) cmp}
    (hne : ∀ (p : ℚ) (q : List RestingOrder), levels[p]? = some q → q ≠ []) [LawfulEqCmp cmp] :
    (levelOrders levels).head? = (firstQueue levels).bind List.head? := by
  have hall : ∀ e ∈ levels.toList, e.2 ≠ [] := fun e he =>
    hne e.1 e.2 (ExtTreeMap.mem_toList_iff_getElem?_eq_some.1 he)
  unfold levelOrders firstQueue
  cases hl : levels.toList with
  | nil => rfl
  | cons e l =>
    obtain ⟨o, q, hq⟩ := List.exists_cons_of_ne_nil (hall e (by rw [hl]; exact List.mem_cons_self ..))
    rw [List.flatMap_cons, List.head?_cons, Option.map_some, Option.bind_some, hq, List.cons_append,
      List.head?_cons, List.head?_cons]

end Levels

namespace OrderBook

/-- The orders of one side, the best price first and within a price in queue order. -/
def sideQueue (book : OrderBook) : OrderSide → List RestingOrder
  | .buy => levelOrders book.bidLevelMap
  | .sell => levelOrders book.askLevelMap

theorem mem_sideQueue {book : OrderBook} {side : OrderSide} {o : RestingOrder} :
    o ∈ book.sideQueue side ↔ ∃ p q, book.level side p = some q ∧ o ∈ q := by
  rw [← Multiset.mem_coe]
  cases side with
  | buy => rw [sideQueue, levelOrders_coe, mem_contents]; rfl
  | sell => rw [sideQueue, levelOrders_coe, mem_contents]; rfl

private theorem resting_eq_sideQueue (book : OrderBook) :
    book.resting = (book.sideQueue .buy : Multiset RestingOrder) + (book.sideQueue .sell : Multiset RestingOrder) := by
  rw [resting, sideQueue, sideQueue, levelOrders_coe, levelOrders_coe]

namespace Wf

variable {book : OrderBook} (hb : book.Wf)
include hb

theorem side_of_mem {side : OrderSide} {o : RestingOrder} (ho : o ∈ book.sideQueue side) :
    o.request.side = side ∧ o.request.price = some o.price := by
  obtain ⟨p, q, hq, hoq⟩ := mem_sideQueue.1 ho
  have hok := (hb.level side p q hq).orders o hoq
  exact ⟨hok.side_eq, by rw [RestingOrder.price, hok.price_eq, Option.getD_some]⟩

/-- The queue of a side lists the resting orders of that side. -/
theorem sideQueue_coe (side : OrderSide) :
    (book.sideQueue side : Multiset RestingOrder) = book.resting.filter fun o => o.request.side = side := by
  have hall : ∀ o ∈ (book.sideQueue side : Multiset RestingOrder), o.request.side = side :=
    fun o ho => (hb.side_of_mem (Multiset.mem_coe.1 ho)).1
  have hnone : ∀ o ∈ (book.sideQueue side.opposite : Multiset RestingOrder), o.request.side ≠ side := by
    intro o ho hside
    have := (hb.side_of_mem (Multiset.mem_coe.1 ho)).1
    cases side <;> rw [hside] at this <;> cases this
  have hsplit : book.resting = (book.sideQueue side : Multiset RestingOrder) +
      (book.sideQueue side.opposite : Multiset RestingOrder) := by
    cases side with
    | buy => exact resting_eq_sideQueue book
    | sell => exact (resting_eq_sideQueue book).trans (add_comm _ _)
  rw [hsplit, Multiset.filter_add, Multiset.filter_eq_self.2 hall, Multiset.filter_eq_nil.2 hnone, add_zero]

theorem mem_sideQueue_iff {side : OrderSide} {o : RestingOrder} :
    o ∈ book.sideQueue side ↔ o ∈ book.resting ∧ o.request.side = side := by
  rw [← Multiset.mem_coe, hb.sideQueue_coe, Multiset.mem_filter]

theorem price_of_mem_level {side : OrderSide} {p : ℚ} {q : List RestingOrder} (hq : book.level side p = some q)
    {o : RestingOrder} (ho : o ∈ q) : o.price = p := by
  rw [RestingOrder.price, ((hb.level side p q hq).orders o ho).price_eq, Option.getD_some]

/-- A level map's orders are in price-time order if the map's order is that of the side's prices. -/
private theorem levelOrders_sorted {cmp : ℚ → ℚ → Ordering} [TransCmp cmp] [LawfulEqCmp cmp] {side : OrderSide}
    (levels : ExtTreeMap ℚ (List RestingOrder) cmp) (hlevel : ∀ p : ℚ, book.level side p = levels[p]?)
    (hcmp : ∀ p p' : ℚ, cmp p p' = .lt → side.Better p p') :
    (levelOrders levels).Pairwise (RestingOrder.Precedes side) := by
  have hmem : ∀ e ∈ levels.toList, book.level side e.1 = some e.2 := fun e he =>
    (hlevel e.1).trans (ExtTreeMap.mem_toList_iff_getElem?_eq_some.1 he)
  refine List.pairwise_flatMap.2 ⟨fun e he => ?_, ?_⟩
  · -- within a level the price is the same and the sequence numbers increase
    refine List.Pairwise.imp_of_mem (fun {o o'} ho ho' hseq => .inr ⟨?_, hseq⟩)
      (hb.level side e.1 e.2 (hmem e he)).increasing
    rw [hb.price_of_mem_level (hmem e he) ho, hb.price_of_mem_level (hmem e he) ho']
  · refine List.Pairwise.imp_of_mem (fun {e e'} he he' hlt o ho o' ho' => .inl ?_) levels.ordered_keys_toList
    rw [hb.price_of_mem_level (hmem e he) ho, hb.price_of_mem_level (hmem e' he') ho']
    exact hcmp _ _ hlt

/-- The queue of a side is in price-time order. -/
theorem sideQueue_sorted (side : OrderSide) : (book.sideQueue side).Pairwise (RestingOrder.Precedes side) := by
  cases side with
  | buy => exact hb.levelOrders_sorted book.bidLevelMap (fun _ => rfl) fun p p' h => compare_lt_iff_lt.1 h
  | sell => exact hb.levelOrders_sorted book.askLevelMap (fun _ => rfl) fun p p' h => compare_lt_iff_lt.1 h

/-- The queue of a side is the only list of its orders in price-time order. -/
theorem sideQueue_unique {side : OrderSide} {l : List RestingOrder}
    (h : (l : Multiset RestingOrder) = book.resting.filter fun o => o.request.side = side)
    (hl : l.Pairwise (RestingOrder.Precedes side)) : book.sideQueue side = l :=
  eq_of_coe_eq RestingOrder.Precedes.asymm ((hb.sideQueue_coe side).trans h.symm) (hb.sideQueue_sorted side) hl

/-- An order is in its queue once. -/
theorem sideQueue_nodup (side : OrderSide) : ((book.sideQueue side).map RestingOrder.orderId).Nodup := by
  have hle : (book.sideQueue side : Multiset RestingOrder) ≤ book.resting := by
    rw [hb.sideQueue_coe]
    exact Multiset.filter_le _ _
  have hnodup := Multiset.nodup_of_le (Multiset.map_le_map hle) hb.nodup
  rwa [Multiset.map_coe, Multiset.coe_nodup] at hnodup

/-- The best order of a side is the first of its queue. -/
theorem bestOrder_eq (side : OrderSide) : book.bestOrder side = (book.sideQueue side).head? := by
  have hne : ∀ s p q, book.level s p = some q → q ≠ [] := fun s p q hq => (hb.level s p q hq).nonempty
  cases side with
  | buy => exact (levelOrders_head? fun p q hq => hne .buy p q hq).symm
  | sell => exact (levelOrders_head? fun p q hq => hne .sell p q hq).symm

end Wf

end OrderBook

end Wall
