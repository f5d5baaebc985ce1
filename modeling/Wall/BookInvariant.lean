import Mathlib.Data.Multiset.AddSub
import Mathlib.Data.Multiset.MapFold
import Mathlib.Data.Multiset.UnionInter
import Wall.OrderBook

/-!
# The invariant of the order book

`OrderBook.Indexed` ties the four pieces of a book's state together: the two level maps, the index and the counter all
describe the same multiset `resting` of resting orders.  An order rests under its own side and price
(`Indexed.locate`), so the index finds it there, and taking an order out, overwriting one and adding one keep this
whatever the quantities are (`Indexed.removed`, `Indexed.replaced`, `Indexed.added`).  `OrderBook.Wf` adds that an
order rests with more than the tolerance and at most its quantity; each operation is then described by what it does
to `resting` (`addOrder_spec`, `cancelOrder_spec`, `applyFill_spec`), and these are all that later modules use.
-/

namespace Wall

open Std (ExtTreeMap TransCmp LawfulEqCmp)
open KeyedMap FirstMatch

/-! ### Level maps -/

section Levels

variable {cmp : ℚ → ℚ → Ordering} [TransCmp cmp] [LawfulEqCmp cmp]

private theorem getElem?_putLevel (levels : ExtTreeMap ℚ (List RestingOrder) cmp) (price : ℚ)
    (orders : List RestingOrder) (p : ℚ) : (putLevel levels price orders)[p]? =
      if price = p then (if orders = [] then none else some orders) else levels[p]? := by
  unfold putLevel
  cases orders with
  | nil => simp [KeyedMap.getElem?_erase]
  | cons o os => simp [KeyedMap.getElem?_insert]

/-- Writing a level back trades the old queue for the new one. -/
private theorem contents_putLevel (levels : ExtTreeMap ℚ (List RestingOrder) cmp) (price : ℚ)
    (orders : List RestingOrder) :
    contents (putLevel levels price orders) + ((levels[price]?.getD [] : List RestingOrder) : Multiset _) =
      contents levels + (orders : Multiset _) := by
  have he : ∀ q? : Option (List RestingOrder),
      ((q?.getD [] : List RestingOrder) : Multiset RestingOrder) = q?.elim 0 fun q => (q : Multiset _) := by
    rintro (_ | q) <;> rfl
  unfold putLevel contents
  rw [he]
  cases orders with
  | nil => simpa using sumOver_erase_add (fun q : List RestingOrder => (q : Multiset RestingOrder)) levels price
  | cons o os =>
    rw [add_comm (sumOver _ levels)]
    exact sumOver_insert_add (fun q : List RestingOrder => (q : Multiset RestingOrder)) levels price (o :: os)

/-- The first level of a map is the one that its order puts before all others. -/
theorem head?_toList_eq_some {levels : ExtTreeMap ℚ (List RestingOrder) cmp} {p : ℚ} {q : List RestingOrder}
    (h : levels.toList.head? = some (p, q)) :
    levels[p]? = some q ∧ ∀ (p' : ℚ) (q' : List RestingOrder), levels[p']? = some q' → (cmp p p').isLE := by
  have hmin : levels.minKey? = some p := by
    rw [ExtTreeMap.minKey?_eq_head?_keys, ← ExtTreeMap.map_fst_toList_eq_keys, List.head?_map, h]
    rfl
  refine ⟨ExtTreeMap.mem_toList_iff_getElem?_eq_some.1 (List.mem_of_mem_head? h), fun p' q' hq' => ?_⟩
  refine (ExtTreeMap.minKey?_eq_some_iff_mem_and_forall.1 hmin).2 p' ?_
  exact ExtTreeMap.mem_iff_isSome_getElem?.2 (by simp [hq'])

private theorem firstQueue_eq_some {levels : ExtTreeMap ℚ (List RestingOrder) cmp} {q : List RestingOrder}
    (h : firstQueue levels = some q) :
    ∃ p : ℚ, levels[p]? = some q ∧ ∀ (p' : ℚ) (q' : List RestingOrder), levels[p']? = some q' → (cmp p p').isLE := by
  obtain ⟨⟨p, q⟩, hhead, rfl⟩ := Option.map_eq_some_iff.1 h
  exact ⟨p, head?_toList_eq_some hhead⟩

omit [LawfulEqCmp cmp] in
private theorem firstQueue_eq_none {levels : ExtTreeMap ℚ (List RestingOrder) cmp} (h : firstQueue levels = none)
    (p : ℚ) : levels[p]? = none := by
  rw [firstQueue, Option.map_eq_none_iff, List.head?_eq_none_iff, ExtTreeMap.toList_eq_nil_iff] at h
  rw [h, ExtTreeMap.getElem?_empty]

end Levels

/-- `p` is at least as good a price as `p'` for an order resting on this side. -/
def OrderSide.AtLeastAsGood : OrderSide → ℚ → ℚ → Prop
  | .buy, p, p' => p' ≤ p
  | .sell, p, p' => p ≤ p'

namespace OrderBook

/-! ### The resting orders -/

/-- All orders resting in the book. -/
def resting (book : OrderBook) : Multiset RestingOrder :=
  contents book.bidLevelMap + contents book.askLevelMap

theorem mem_resting {book : OrderBook} {o : RestingOrder} :
    o ∈ book.resting ↔ ∃ side price q, book.level side price = some q ∧ o ∈ q := by
  simp only [resting, Multiset.mem_add, mem_contents]
  constructor
  · rintro (⟨p, q, hq, ho⟩ | ⟨p, q, hq, ho⟩)
    · exact ⟨.buy, p, q, hq, ho⟩
    · exact ⟨.sell, p, q, hq, ho⟩
  · rintro ⟨side, p, q, hq, ho⟩
    cases side with
    | buy => exact Or.inl ⟨p, q, hq, ho⟩
    | sell => exact Or.inr ⟨p, q, hq, ho⟩

theorem level_setLevel (book : OrderBook) (side : OrderSide) (price : ℚ) (orders : List RestingOrder)
    (side' : OrderSide) (price' : ℚ) : (book.setLevel side price orders).level side' price' =
      if side = side' ∧ price = price' then (if orders = [] then none else some orders)
      else book.level side' price' := by
  cases side <;> cases side' <;> simp [setLevel, level, getElem?_putLevel]

private theorem resting_setLevel (book : OrderBook) (side : OrderSide) (price : ℚ) (orders : List RestingOrder) :
    (book.setLevel side price orders).resting + (((book.level side price).getD [] : List RestingOrder) : Multiset _) =
      book.resting + (orders : Multiset _) := by
  cases side with
  | buy =>
    have := contents_putLevel book.bidLevelMap price orders
    simp only [resting, setLevel, level]
    rw [add_right_comm, this, add_right_comm]
  | sell =>
    have := contents_putLevel book.askLevelMap price orders
    simp only [resting, setLevel, level]
    rw [add_assoc, this, ← add_assoc]

@[simp] theorem instrument_setLevel (book : OrderBook) (side : OrderSide) (price : ℚ)
    (orders : List RestingOrder) : (book.setLevel side price orders).instrument = book.instrument := by
  cases side <;> rfl

@[simp] theorem nextSequenceNumber_setLevel (book : OrderBook) (side : OrderSide) (price : ℚ)
    (orders : List RestingOrder) :
    (book.setLevel side price orders).nextSequenceNumber = book.nextSequenceNumber := by
  cases side <;> rfl

@[simp] theorem orderIndex_setLevel (book : OrderBook) (side : OrderSide) (price : ℚ)
    (orders : List RestingOrder) : (book.setLevel side price orders).orderIndex = book.orderIndex := by
  cases side <;> rfl

@[simp] theorem orderCount_setLevel (book : OrderBook) (side : OrderSide) (price : ℚ)
    (orders : List RestingOrder) : (book.setLevel side price orders).orderCount = book.orderCount := by
  cases side <;> rfl

/-! ### The best order of a side -/

private theorem bestOrder_eq_some {book : OrderBook} {side : OrderSide} {o : RestingOrder}
    (h : book.bestOrder side = some o) : ∃ p q, book.level side p = some (o :: q) ∧
      ∀ p' q', book.level side p' = some q' → side.AtLeastAsGood p p' := by
  cases side with
  | buy =>
    obtain ⟨q, hq, ho⟩ := Option.bind_eq_some_iff.1 (show (firstQueue book.bidLevelMap).bind List.head? = some o from h)
    obtain ⟨p, hp, hmin⟩ := firstQueue_eq_some hq
    obtain ⟨q, rfl⟩ := List.head?_eq_some_iff.1 ho
    exact ⟨p, q, hp, fun p' q' hq' => compare_le_iff_le.1 (Ordering.isLE_iff_ne_gt.1 (hmin p' q' hq'))⟩
  | sell =>
    obtain ⟨q, hq, ho⟩ := Option.bind_eq_some_iff.1 (show (firstQueue book.askLevelMap).bind List.head? = some o from h)
    obtain ⟨p, hp, hmin⟩ := firstQueue_eq_some hq
    obtain ⟨q, rfl⟩ := List.head?_eq_some_iff.1 ho
    exact ⟨p, q, hp, fun p' q' hq' => compare_le_iff_le.1 (Ordering.isLE_iff_ne_gt.1 (hmin p' q' hq'))⟩

private theorem level_eq_none_of_bestOrder {book : OrderBook} {side : OrderSide} (h : book.bestOrder side = none)
    (hne : ∀ p q, book.level side p = some q → q ≠ []) (p : ℚ) : book.level side p = none := by
  cases hq : book.level side p with
  | none => rfl
  | some q =>
    exfalso
    cases side with
    | buy =>
      cases hf : firstQueue book.bidLevelMap with
      | none => rw [level, firstQueue_eq_none hf] at hq; cases hq
      | some q' =>
        obtain ⟨p', hp', -⟩ := firstQueue_eq_some hf
        have h' : (firstQueue book.bidLevelMap).bind List.head? = none := h
        rw [hf, Option.bind_some, List.head?_eq_none_iff] at h'
        exact hne p' q' hp' h'
    | sell =>
      cases hf : firstQueue book.askLevelMap with
      | none => rw [level, firstQueue_eq_none hf] at hq; cases hq
      | some q' =>
        obtain ⟨p', hp', -⟩ := firstQueue_eq_some hf
        have h' : (firstQueue book.askLevelMap).bind List.head? = none := h
        rw [hf, Option.bind_some, List.head?_eq_none_iff] at h'
        exact hne p' q' hp' h'

/-! ### The invariant -/

/-- What holds of an order resting under `side` and `price`. -/
structure OrderOk (book : OrderBook) (side : OrderSide) (price : ℚ) (o : RestingOrder) : Prop where
  side_eq : o.request.side = side
  price_eq : o.request.price = some price
  instrument_eq : o.request.instrument.instrumentId = book.instrument.instrumentId
  sequence_lt : o.sequenceNumber < book.nextSequenceNumber

/-- What holds of the queue of a price level. -/
structure LevelOk (book : OrderBook) (side : OrderSide) (price : ℚ) (q : List RestingOrder) : Prop where
  nonempty : q ≠ []
  orders : ∀ o ∈ q, book.OrderOk side price o
  increasing : q.Pairwise fun o o' => o.sequenceNumber < o'.sequenceNumber

/-- The level maps, the index and the counter describe the same resting orders. -/
structure Indexed (book : OrderBook) : Prop where
  level : ∀ side price q, book.level side price = some q → book.LevelOk side price q
  nodup : (book.resting.map RestingOrder.orderId).Nodup
  index : ∀ id locator, book.orderIndex[id]? = some locator ↔ ∃ o ∈ book.resting,
    o.orderId = id ∧ o.request.side = locator.side ∧ o.request.price = some locator.price
  count : book.orderCount = book.resting.card

/-- The book is indexed, and an order rests with more than the tolerance and at most its quantity. -/
structure Wf (book : OrderBook) : Prop extends book.Indexed where
  tolerance_lt : ∀ {o : RestingOrder}, o ∈ book.resting → kQuantityTolerance < o.remainingQuantity
  remaining_le : ∀ {o : RestingOrder}, o ∈ book.resting → o.remainingQuantity ≤ o.request.quantity

theorem resting_empty (instrument : Instrument) : ({ instrument := instrument } : OrderBook).resting = 0 := by
  simp [resting, contents]

theorem empty_indexed (instrument : Instrument) : ({ instrument := instrument } : OrderBook).Indexed := by
  have hr := resting_empty instrument
  refine ⟨?_, by simp [hr], ?_, by simp [hr]⟩
  · intro side price q hq
    cases side <;> simp [OrderBook.level] at hq
  · intro id locator
    simp [hr]

theorem empty_wf (instrument : Instrument) : ({ instrument := instrument } : OrderBook).Wf where
  toIndexed := empty_indexed instrument
  tolerance_lt ho := by simp [resting_empty] at ho
  remaining_le ho := by simp [resting_empty] at ho

namespace Indexed

variable {book : OrderBook} (hb : book.Indexed)
include hb

theorem exists_orderOk {o : RestingOrder} (ho : o ∈ book.resting) :
    ∃ price q, book.level o.request.side price = some q ∧ o ∈ q ∧ book.OrderOk o.request.side price o := by
  obtain ⟨side, price, q, hq, hoq⟩ := mem_resting.1 ho
  have hok := (hb.level side price q hq).orders o hoq
  have := hok.side_eq
  subst this
  exact ⟨price, q, hq, hoq, hok⟩

/-- The queue at a price, a missing level being an empty one. -/
theorem levelD_ok (side : OrderSide) (price : ℚ) :
    (∀ x ∈ (book.level side price).getD [], book.OrderOk side price x) ∧
      ((book.level side price).getD []).Pairwise fun o o' => o.sequenceNumber < o'.sequenceNumber := by
  cases hl : book.level side price with
  | none => simp
  | some q => exact ⟨(hb.level side price q hl).orders, (hb.level side price q hl).increasing⟩

theorem eq_of_orderId_eq {o o' : RestingOrder} (ho : o ∈ book.resting) (ho' : o' ∈ book.resting)
    (h : o.orderId = o'.orderId) : o = o' :=
  Multiset.inj_on_of_nodup_map hb.nodup o ho o' ho' h

/-- The index and the queue it points at lead to a resting order. -/
theorem locate {o : RestingOrder} (ho : o ∈ book.resting) :
    ∃ price q, o.request.price = some price ∧ book.orderIndex[o.orderId]? = some ⟨o.request.side, price⟩ ∧
      book.level o.request.side price = some q ∧ o ∈ q ∧
      q.find? (fun x => decide (x.orderId = o.orderId)) = some o := by
  obtain ⟨price, q, hq, hoq, hok⟩ := hb.exists_orderOk ho
  refine ⟨price, q, hok.price_eq, (hb.index _ _).2 ⟨o, ho, rfl, rfl, hok.price_eq⟩, hq, hoq, ?_⟩
  cases hf : q.find? (fun x => decide (x.orderId = o.orderId)) with
  | none => simpa using List.find?_eq_none.1 hf o hoq
  | some o' =>
    have hid : o'.orderId = o.orderId := by simpa using List.find?_some hf
    rw [hb.eq_of_orderId_eq (mem_resting.2 ⟨_, _, q, hq, List.mem_of_find?_eq_some hf⟩) ho hid]

/-- The best order of a side rests on it, at a price no order of that side betters. -/
theorem bestOrder_spec {side : OrderSide} {o : RestingOrder} (h : book.bestOrder side = some o) :
    o ∈ book.resting ∧ o.request.side = side ∧ ∃ p, o.request.price = some p ∧
      ∀ o' ∈ book.resting, o'.request.side = side → ∀ p', o'.request.price = some p' → side.AtLeastAsGood p p' := by
  obtain ⟨p, q, hq, hbest⟩ := bestOrder_eq_some h
  have ho := (hb.level side p _ hq).orders o (List.mem_cons_self ..)
  refine ⟨mem_resting.2 ⟨side, p, _, hq, List.mem_cons_self ..⟩, ho.side_eq, p, ho.price_eq, ?_⟩
  intro o' ho' hside p' hp'
  obtain ⟨p'', q', hq', -, hok⟩ := hb.exists_orderOk ho'
  rw [hok.price_eq, Option.some.injEq] at hp'
  subst hp'
  rw [hside] at hq'
  exact hbest p'' q' hq'

theorem bestOrder_eq_none {side : OrderSide} (h : book.bestOrder side = none) :
    ∀ o ∈ book.resting, o.request.side ≠ side := by
  intro o ho hside
  obtain ⟨p, q, hq, -⟩ := hb.exists_orderOk ho
  rw [hside, level_eq_none_of_bestOrder h (fun p q hq => (hb.level side p q hq).nonempty)] at hq
  cases hq

theorem orderIndex_eq_none {id : String} (h : ∀ o ∈ book.resting, o.orderId ≠ id) :
    book.orderIndex[id]? = none := by
  cases hi : book.orderIndex[id]? with
  | none => rfl
  | some locator =>
    obtain ⟨o, ho, hid, -⟩ := (hb.index id locator).1 hi
    exact absurd hid (h o ho)

end Indexed

/-! ### What the operations do -/

private theorem OrderOk.congr {book book' : OrderBook} {side : OrderSide} {price : ℚ} {o : RestingOrder}
    (h : book.OrderOk side price o) (hi : book'.instrument = book.instrument)
    (hs : book.nextSequenceNumber ≤ book'.nextSequenceNumber) : book'.OrderOk side price o :=
  ⟨h.side_eq, h.price_eq, by rw [hi]; exact h.instrument_eq, Nat.lt_of_lt_of_le h.sequence_lt hs⟩

/-- Writing a queue back keeps the levels in order if that queue is and the sequence counter did not go down. -/
private theorem Indexed.setLevel_ok {book : OrderBook} (hb : book.Indexed) {side : OrderSide} {price : ℚ}
    {orders : List RestingOrder} {book' : OrderBook}
    (hlevel : ∀ s p, book'.level s p = (book.setLevel side price orders).level s p)
    (hinst : book'.instrument = book.instrument) (hseq : book.nextSequenceNumber ≤ book'.nextSequenceNumber)
    (horders : ∀ x ∈ orders, book'.OrderOk side price x)
    (hincreasing : orders.Pairwise fun o o' => o.sequenceNumber < o'.sequenceNumber) (s : OrderSide) (p : ℚ)
    (q : List RestingOrder) (hq : book'.level s p = some q) : book'.LevelOk s p q := by
  rw [hlevel, level_setLevel] at hq
  split at hq
  · -- the level written: an empty queue takes the level away
    rename_i he
    obtain ⟨rfl, rfl⟩ := he
    split at hq
    · cases hq
    · rename_i hne
      cases hq
      exact ⟨hne, horders, hincreasing⟩
  · have hok := hb.level s p q hq
    exact ⟨hok.nonempty, fun x hx => (hok.orders x hx).congr hinst hseq, hok.increasing⟩

/-- Taking one order out of its queue, the index and the counter. -/
theorem Indexed.removed {book : OrderBook} (hb : book.Indexed) {side : OrderSide} {price : ℚ} {o : RestingOrder}
    {l₁ l₂ : List RestingOrder} (hl : book.level side price = some (l₁ ++ o :: l₂)) {book' : OrderBook}
    (hb' : book' = { book.setLevel side price (l₁ ++ l₂) with
      orderIndex := book.orderIndex.erase o.orderId, orderCount := book.orderCount - 1 }) :
    book'.Indexed ∧ book'.instrument = book.instrument ∧ book.resting = o ::ₘ book'.resting := by
  have hlevel : ∀ s p, book'.level s p = (book.setLevel side price (l₁ ++ l₂)).level s p := by
    intro s p; subst hb'; cases s <;> rfl
  have hinst : book'.instrument = book.instrument := by subst hb'; simp
  have hseq : book'.nextSequenceNumber = book.nextSequenceNumber := by subst hb'; simp
  have hrest : book.resting = o ::ₘ book'.resting := by
    have hr : book'.resting = (book.setLevel side price (l₁ ++ l₂)).resting := by subst hb'; rfl
    have h := resting_setLevel book side price (l₁ ++ l₂)
    have hp : ((l₁ ++ o :: l₂ : List RestingOrder) : Multiset RestingOrder) = o ::ₘ ((l₁ ++ l₂ : List _) : Multiset _) :=
      Multiset.coe_eq_coe.2 List.perm_middle
    rw [hl, Option.getD_some, hp, Multiset.add_cons, ← hr, ← Multiset.cons_add] at h
    exact (add_right_cancel h).symm
  have hnd := hb.nodup
  rw [hrest, Multiset.map_cons, Multiset.nodup_cons] at hnd
  have hok := hb.level side price _ hl
  have hsub : (l₁ ++ l₂).Sublist (l₁ ++ o :: l₂) := List.Sublist.append_left (List.sublist_cons_self o l₂) l₁
  refine ⟨⟨?_, hnd.2, ?_, ?_⟩, hinst, hrest⟩
  · refine hb.setLevel_ok hlevel hinst hseq.ge (fun x hx => ?_) (hok.increasing.sublist hsub)
    exact (hok.orders x (hsub.subset hx)).congr hinst hseq.ge
  · intro id locator
    have hidx : book'.orderIndex[id]? = if o.orderId = id then none else book.orderIndex[id]? := by
      subst hb'; exact KeyedMap.getElem?_erase _ _ _
    rw [hidx]
    constructor
    · intro h
      split at h
      · cases h
      · -- another id: the order it points at is not the one removed
        rename_i hne
        obtain ⟨x, hx, hid, hloc⟩ := (hb.index id locator).1 h
        rw [hrest, Multiset.mem_cons] at hx
        rcases hx with rfl | hx
        · exact absurd hid hne
        · exact ⟨x, hx, hid, hloc⟩
    · rintro ⟨x, hx, hid, hloc⟩
      have hne : o.orderId ≠ id := by
        rintro rfl
        exact hnd.1 (hid ▸ Multiset.mem_map_of_mem _ hx)
      rw [if_neg hne]
      exact (hb.index id locator).2 ⟨x, by rw [hrest]; exact Multiset.mem_cons_of_mem hx, hid, hloc⟩
  · have hc : book'.orderCount = book.orderCount - 1 := by subst hb'; rfl
    rw [hc, hb.count, hrest, Multiset.card_cons, Nat.add_sub_cancel]

/-- Overwriting one order in its queue by one with the same id, request and sequence number. -/
theorem Indexed.replaced {book : OrderBook} (hb : book.Indexed) {side : OrderSide} {price : ℚ} {o : RestingOrder}
    {l₁ l₂ : List RestingOrder} (hl : book.level side price = some (l₁ ++ o :: l₂)) (remaining : ℚ)
    {book' : OrderBook}
    (hb' : book' = book.setLevel side price (l₁ ++ { o with remainingQuantity := remaining } :: l₂)) :
    book'.Indexed ∧ book'.instrument = book.instrument ∧ ∃ rest, book.resting = o ::ₘ rest ∧
      book'.resting = { o with remainingQuantity := remaining } ::ₘ rest := by
  have hinst : book'.instrument = book.instrument := by subst hb'; simp
  have hseq : book'.nextSequenceNumber = book.nextSequenceNumber := by subst hb'; simp
  obtain ⟨rest, hrest⟩ : ∃ rest, book.resting = o ::ₘ rest :=
    Multiset.exists_cons_of_mem (mem_resting.2 ⟨side, price, _, hl, by simp⟩)
  have hrest' : book'.resting = { o with remainingQuantity := remaining } ::ₘ rest := by
    have h := resting_setLevel book side price (l₁ ++ { o with remainingQuantity := remaining } :: l₂)
    have hp : ∀ x : RestingOrder, ((l₁ ++ x :: l₂ : List RestingOrder) : Multiset RestingOrder) =
        x ::ₘ ((l₁ ++ l₂ : List _) : Multiset _) := fun x => Multiset.coe_eq_coe.2 List.perm_middle
    rw [hl, Option.getD_some, hp, hp, Multiset.add_cons, hrest, ← hb', Multiset.add_cons, Multiset.cons_add,
      Multiset.cons_swap, Multiset.cons_inj_right, ← Multiset.cons_add] at h
    exact add_right_cancel h
  refine ⟨⟨?_, ?_, ?_, ?_⟩, hinst, rest, hrest, hrest'⟩
  · have hok := hb.level side price _ hl
    have hox := hok.orders o (by simp)
    refine hb.setLevel_ok (fun s p => by rw [hb']) hinst hseq.ge (fun x hx => ?_) ?_
    · simp only [List.mem_append, List.mem_cons] at hx
      rcases hx with hx | rfl | hx
      · exact (hok.orders x (by simp [hx])).congr hinst hseq.ge
      · exact ⟨hox.side_eq, hox.price_eq, by rw [hinst]; exact hox.instrument_eq,
          by rw [hseq]; exact hox.sequence_lt⟩
      · exact (hok.orders x (by simp [hx])).congr hinst hseq.ge
    · -- the order keeps its sequence number, so the queue stays sorted
      have hincreasing := hok.increasing
      rw [List.pairwise_append, List.pairwise_cons] at hincreasing ⊢
      obtain ⟨hl₁, hl₂, hbetween⟩ := hincreasing
      refine ⟨hl₁, hl₂, fun x hx y hy => ?_⟩
      rcases List.mem_cons.1 hy with rfl | hy
      · exact hbetween x hx o (by simp)
      · exact hbetween x hx y (by simp [hy])
  · have := hb.nodup
    rw [hrest, Multiset.map_cons] at this
    rw [hrest', Multiset.map_cons]
    exact this
  · intro id locator
    have hidx : book'.orderIndex = book.orderIndex := by subst hb'; simp
    rw [hidx, hb.index id locator, hrest, hrest']
    simp only [Multiset.mem_cons, or_and_right, exists_or, exists_eq_left]
  · have hc : book'.orderCount = book.orderCount := by subst hb'; simp
    rw [hc, hb.count, hrest, hrest', Multiset.card_cons, Multiset.card_cons]

/-- Putting a new order at the end of its queue, into the index and into the counter. -/
theorem Indexed.added {book : OrderBook} (hb : book.Indexed) (price : ℚ) {o : RestingOrder} {book' : OrderBook}
    (hb' : book' = { book.setLevel o.request.side price ((book.level o.request.side price).getD [] ++ [o]) with
      orderIndex := book.orderIndex.insert o.orderId { side := o.request.side, price := price }
      orderCount := book.orderCount + 1
      nextSequenceNumber := book.nextSequenceNumber + 1 })
    (hok : book'.OrderOk o.request.side price o) (hnext : o.sequenceNumber = book.nextSequenceNumber)
    (hfresh : ∀ x ∈ book.resting, x.orderId ≠ o.orderId) :
    book'.Indexed ∧ book'.instrument = book.instrument ∧ book'.resting = o ::ₘ book.resting := by
  obtain ⟨hold, hinc⟩ := hb.levelD_ok o.request.side price
  set old := (book.level o.request.side price).getD [] with hlevelD
  have hlevel : ∀ s p, book'.level s p = (book.setLevel o.request.side price (old ++ [o])).level s p := by
    intro s p; subst hb'; cases s <;> rfl
  have hinst : book'.instrument = book.instrument := by subst hb'; simp
  have hseq : book'.nextSequenceNumber = book.nextSequenceNumber + 1 := by subst hb'; rfl
  have hrest : book'.resting = o ::ₘ book.resting := by
    have hr : book'.resting = (book.setLevel o.request.side price (old ++ [o])).resting := by subst hb'; rfl
    have he := resting_setLevel book o.request.side price (old ++ [o])
    rw [← hlevelD, ← Multiset.coe_add, add_left_comm, ← hr, add_comm, Multiset.coe_singleton] at he
    rw [add_left_cancel he, add_comm, Multiset.singleton_add]
  refine ⟨⟨?_, ?_, ?_, ?_⟩, hinst, hrest⟩
  · refine hb.setLevel_ok hlevel hinst (by omega) (fun x hx => ?_) ?_
    · rcases List.mem_append.1 hx with hx | hx
      · exact (hold x hx).congr hinst (by omega)
      · rw [List.mem_singleton] at hx
        exact hx ▸ hok
    · -- the new order is last: every sequence number of the queue is below the next one
      rw [List.pairwise_append]
      refine ⟨hinc, List.pairwise_singleton _ _, fun x hx y hy => ?_⟩
      rw [List.mem_singleton.1 hy, hnext]
      exact (hold x hx).sequence_lt
  · rw [hrest, Multiset.map_cons, Multiset.nodup_cons]
    refine ⟨fun hm => ?_, hb.nodup⟩
    obtain ⟨x, hx, hid⟩ := Multiset.mem_map.1 hm
    exact hfresh x hx hid
  · intro id locator
    have hidx : book'.orderIndex[id]? =
        if o.orderId = id then some { side := o.request.side, price := price } else book.orderIndex[id]? := by
      subst hb'; exact KeyedMap.getElem?_insert _ _ _ _
    rw [hidx, hrest]
    simp only [Multiset.mem_cons, or_and_right, exists_or, exists_eq_left]
    by_cases hid : o.orderId = id
    · subst hid
      simp only [↓reduceIte, Option.some.injEq]
      constructor
      · rintro rfl
        exact Or.inl ⟨trivial, rfl, hok.price_eq⟩
      · rintro (⟨-, hs, hp⟩ | ⟨x, hx, hid, -⟩)
        · obtain ⟨s, p⟩ := locator
          have hprice := hok.price_eq
          rw [hp, Option.some.injEq] at hprice
          subst hprice
          exact congrArg (OrderLocator.mk · _) hs
        · exact absurd hid (hfresh x hx)
    · rw [if_neg hid, hb.index id locator]
      constructor
      · exact Or.inr
      · rintro (⟨hid', -⟩ | hx)
        · exact absurd hid' hid
        · exact hx
  · have hc : book'.orderCount = book.orderCount + 1 := by subst hb'; rfl
    rw [hc, hb.count, hrest, Multiset.card_cons]

/-- One order more or other than in a well-formed book, with its quantity in bounds. -/
private theorem Wf.of_resting_cons {book book' : OrderBook} (hb : book.Wf) (hindexed : book'.Indexed)
    {rest : Multiset RestingOrder} (hsub : rest ≤ book.resting) {o : RestingOrder}
    (hrest : book'.resting = o ::ₘ rest) (hlt : kQuantityTolerance < o.remainingQuantity)
    (hle : o.remainingQuantity ≤ o.request.quantity) : book'.Wf where
  toIndexed := hindexed
  tolerance_lt ho := by
    rw [hrest, Multiset.mem_cons] at ho
    rcases ho with rfl | ho
    · exact hlt
    · exact hb.tolerance_lt (Multiset.mem_of_le hsub ho)
  remaining_le ho := by
    rw [hrest, Multiset.mem_cons] at ho
    rcases ho with rfl | ho
    · exact hle
    · exact hb.remaining_le (Multiset.mem_of_le hsub ho)

/-- Fewer orders than in a well-formed book. -/
private theorem Wf.of_resting_le {book book' : OrderBook} (hb : book.Wf) (hindexed : book'.Indexed)
    (hsub : book'.resting ≤ book.resting) : book'.Wf where
  toIndexed := hindexed
  tolerance_lt ho := hb.tolerance_lt (Multiset.mem_of_le hsub ho)
  remaining_le ho := hb.remaining_le (Multiset.mem_of_le hsub ho)

theorem isRequestCompatible_iff {book : OrderBook} {request : OrderRequest} {orderId clientOrderId : String}
    {filledQuantity : ℚ} : book.isRequestCompatible request orderId clientOrderId filledQuantity = true ↔
      orderId ≠ "" ∧ clientOrderId ≠ "" ∧ request.instrument.instrumentId = book.instrument.instrumentId ∧
      request.type = .limit ∧ (∃ price, request.price = some price ∧ 0 < price) ∧ 0 < request.quantity ∧
      0 ≤ filledQuantity ∧ filledQuantity < request.quantity - kQuantityTolerance ∧
      book.orderIndex[orderId]? = none := by
  unfold isRequestCompatible
  cases hp : request.price with
  | none => simp
  | some price =>
    simp [← Option.not_isSome_iff_eq_none, ExtTreeMap.isSome_getElem?_eq_contains]
    rw [lt_sub_iff_add_lt]
    tauto

/-- The order that `add_order` rests. -/
def restingOrderOf (book : OrderBook) (request : OrderRequest) (orderId clientOrderId : String)
    (filledQuantity : ℚ) : RestingOrder :=
  { orderId := orderId
    clientOrderId := clientOrderId
    request := request
    remainingQuantity := request.quantity - filledQuantity
    sequenceNumber := book.nextSequenceNumber }

theorem addOrder_of_not_compatible {book : OrderBook} {request : OrderRequest} {orderId clientOrderId : String}
    {filledQuantity : ℚ} (h : book.isRequestCompatible request orderId clientOrderId filledQuantity = false) :
    book.addOrder request orderId clientOrderId filledQuantity = (false, book) := by
  simp [addOrder, h]

theorem addOrder_spec {book : OrderBook} (hb : book.Wf) {request : OrderRequest} {orderId clientOrderId : String}
    {filledQuantity : ℚ} (h : book.isRequestCompatible request orderId clientOrderId filledQuantity = true) :
    ∃ book', book.addOrder request orderId clientOrderId filledQuantity = (true, book') ∧ book'.Wf ∧
      book'.instrument = book.instrument ∧
      book'.resting = book.restingOrderOf request orderId clientOrderId filledQuantity ::ₘ book.resting := by
  obtain ⟨-, -, hinst, -, ⟨price, hprice, -⟩, -, hf0, hf, hidx⟩ := isRequestCompatible_iff.1 h
  have htol := kQuantityTolerance_pos
  have hmax : max 0 (request.quantity - filledQuantity) = request.quantity - filledQuantity :=
    max_eq_right (by linarith)
  have hfresh : ∀ x ∈ book.resting, x.orderId ≠ orderId := by
    intro x hx hid
    obtain ⟨p, -, -, hi, -⟩ := hb.locate hx
    rw [hid, hidx] at hi
    cases hi
  have hremaining : kQuantityTolerance < request.quantity - filledQuantity := by linarith
  have hle : request.quantity - filledQuantity ≤ request.quantity := by linarith
  obtain ⟨hindexed, hinst', hrest⟩ := hb.added price
    (o := book.restingOrderOf request orderId clientOrderId filledQuantity) rfl
    ⟨rfl, hprice, by simpa [restingOrderOf] using hinst, Nat.lt_succ_self _⟩ rfl hfresh
  refine ⟨_, ?_, hb.of_resting_cons hindexed le_rfl hrest hremaining hle, hinst', hrest⟩
  simp only [addOrder, h, hprice, hmax, Option.getD_some, Bool.not_true, Bool.false_eq_true, ↓reduceIte]
  rfl

theorem Indexed.cancelOrder_spec {book : OrderBook} (hb : book.Indexed) {o : RestingOrder} (ho : o ∈ book.resting) :
    ∃ book', book.cancelOrder o.orderId = (true, book') ∧ book'.Indexed ∧ book'.instrument = book.instrument ∧
      book.resting = o ::ₘ book'.resting := by
  obtain ⟨price, q, -, hidx, hq, -, hfind⟩ := hb.locate ho
  obtain ⟨l₁, l₂, rfl, herase, -⟩ := find?_split hfind
  refine ⟨_, ?_, hb.removed hq rfl⟩
  simp only [cancelOrder, hidx, hq, hfind, herase]

theorem cancelOrder_spec {book : OrderBook} (hb : book.Wf) {o : RestingOrder} (ho : o ∈ book.resting) :
    ∃ book', book.cancelOrder o.orderId = (true, book') ∧ book'.Wf ∧ book'.instrument = book.instrument ∧
      book.resting = o ::ₘ book'.resting := by
  obtain ⟨book', heq, hindexed, hinst, hrest⟩ := hb.toIndexed.cancelOrder_spec ho
  exact ⟨book', heq, hb.of_resting_le hindexed (hrest ▸ Multiset.le_cons_self _ _), hinst, hrest⟩

theorem cancelOrder_of_not_resting {book : OrderBook} (hb : book.Indexed) {id : String}
    (h : ∀ o ∈ book.resting, o.orderId ≠ id) : book.cancelOrder id = (false, book) := by
  simp only [cancelOrder, hb.orderIndex_eq_none h]

/-- A fill consumes the order when at most the tolerance remains, and reduces it otherwise. -/
theorem applyFill_spec {book : OrderBook} (hb : book.Wf) {o : RestingOrder} (ho : o ∈ book.resting) {executed : ℚ}
    (hpos : kQuantityTolerance < executed) (hle : executed ≤ o.remainingQuantity + kQuantityTolerance) :
    ∃ book', book.applyFill o.orderId executed = (true, book') ∧ book'.Wf ∧ book'.instrument = book.instrument ∧
      ∃ rest, book.resting = o ::ₘ rest ∧ book'.resting =
        if o.remainingQuantity - executed ≤ kQuantityTolerance then rest
        else { o with remainingQuantity := o.remainingQuantity - executed } ::ₘ rest := by
  have htol := kQuantityTolerance_pos
  obtain ⟨price, q, -, hidx, hq, -, hfind⟩ := hb.locate ho
  obtain ⟨l₁, l₂, rfl, herase, hreplace⟩ := find?_split hfind
  have hmax : max 0 (o.remainingQuantity - executed) ≤ kQuantityTolerance ↔
      o.remainingQuantity - executed ≤ kQuantityTolerance := by
    rw [max_le_iff]
    exact and_iff_right htol.le
  by_cases hrem : o.remainingQuantity - executed ≤ kQuantityTolerance
  · obtain ⟨hindexed, hinst, hrest⟩ := hb.removed hq rfl
    refine ⟨_, ?_, hb.of_resting_le hindexed (hrest ▸ Multiset.le_cons_self _ _), hinst, _, hrest,
      by rw [if_pos hrem]⟩
    simp only [applyFill, hidx, hq, hfind, herase, not_le.2 hpos, not_lt.2 hle, hmax, hrem, ↓reduceIte]
  · rw [not_le] at hrem
    have heq : max 0 (o.remainingQuantity - executed) = o.remainingQuantity - executed :=
      max_eq_right (htol.trans hrem).le
    obtain ⟨hindexed, hinst, rest, hrest, hrest'⟩ :=
      hb.replaced hq (o.remainingQuantity - executed) rfl
    have hbound : o.remainingQuantity - executed ≤ o.request.quantity := by linarith [hb.remaining_le ho]
    refine ⟨_, ?_, hb.of_resting_cons hindexed (hrest ▸ Multiset.le_cons_self _ _) hrest' hrem hbound, hinst, rest,
      hrest, by rw [if_neg (not_le.2 hrem)]; exact hrest'⟩
    simp only [applyFill, hidx, hq, hfind, hreplace, not_le.2 hpos, not_lt.2 hle, heq, not_le.2 hrem,
      ↓reduceIte]

theorem applyFill_of_not_resting {book : OrderBook} (hb : book.Wf) {id : String} {executed : ℚ}
    (h : ∀ o ∈ book.resting, o.orderId ≠ id) : book.applyFill id executed = (false, book) := by
  simp only [applyFill, hb.orderIndex_eq_none h, ite_self]

/-- A fill of at most the tolerance, or of more than what remains, is refused. -/
theorem applyFill_of_out_of_range {book : OrderBook} (hb : book.Wf) {o : RestingOrder} (ho : o ∈ book.resting)
    {executed : ℚ} (h : executed ≤ kQuantityTolerance ∨ o.remainingQuantity + kQuantityTolerance < executed) :
    book.applyFill o.orderId executed = (false, book) := by
  obtain ⟨price, q, -, hidx, hq, -, hfind⟩ := hb.locate ho
  rcases h with h | h
  · simp only [applyFill, h, ↓reduceIte]
  · simp only [applyFill, hidx, hq, hfind, h, ↓reduceIte, ite_self]

end OrderBook

end Wall
