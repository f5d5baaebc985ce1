import Wall.PriceTime

/-!
# The order book as a flat list

What an order book is for, without levels, index and sequence numbers: a list of the resting orders in the order that
they arrived in (`OrderList`).  An accepted order is appended, a canceled one is removed by its id, and a fill
subtracts from an order and drops it when at most the tolerance remains.  A book and a list that read the same calls
answer alike and stay in step (`Represents.step`), and the queries of the book are those of the list.
-/

namespace Wall

open KeyedMap FirstMatch StrictlySorted
open Std (ExtTreeMap TransCmp LawfulEqCmp)

instance (side : OrderSide) (p p' : ℚ) : Decidable (side.AtLeastAsGood p p') :=
  match side with
  | .buy => inferInstanceAs (Decidable (p' ≤ p))
  | .sell => inferInstanceAs (Decidable (p ≤ p'))

/-- A resting order in a list; its place there says when it arrived. -/
structure ListedOrder where
  orderId : String
  clientOrderId : String
  request : OrderRequest
  remainingQuantity : ℚ
  deriving DecidableEq, Repr

/-- The resting orders of one instrument, the first arrived first. -/
structure OrderList where
  instrument : Instrument
  orders : List ListedOrder := []

def ListedOrder.price (o : ListedOrder) : ℚ := o.request.price.getD 0

namespace OrderList

def Accepts (list : OrderList) (request : OrderRequest) (orderId clientOrderId : String) (filledQuantity : ℚ) : Prop :=
  orderId ≠ "" ∧ clientOrderId ≠ "" ∧ request.instrument.instrumentId = list.instrument.instrumentId ∧
    request.type = .limit ∧ (∃ price ∈ request.price, 0 < price) ∧ 0 < request.quantity ∧ 0 ≤ filledQuantity ∧
    filledQuantity < request.quantity - kQuantityTolerance ∧ ∀ o ∈ list.orders, o.orderId ≠ orderId

instance (list : OrderList) (request : OrderRequest) (orderId clientOrderId : String) (filledQuantity : ℚ) :
    Decidable (list.Accepts request orderId clientOrderId filledQuantity) :=
  inferInstanceAs (Decidable (_ ∧ _))

def find (list : OrderList) (orderId : String) : Option ListedOrder :=
  list.orders.find? fun o => decide (o.orderId = orderId)

/-- Subtract a fill from the order with this id; drop the order when at most the tolerance remains. -/
def subtract (orderId : String) (executedQuantity : ℚ) (o : ListedOrder) : Option ListedOrder :=
  if o.orderId ≠ orderId then some o
  else if o.remainingQuantity - executedQuantity ≤ kQuantityTolerance then none
  else some { o with remainingQuantity := o.remainingQuantity - executedQuantity }

/-- One call on the list: the list it leaves and the flag it returns. -/
def step (list : OrderList) : BookOp → OrderList × Bool
  | .addOrder request orderId clientOrderId filledQuantity =>
    if list.Accepts request orderId clientOrderId filledQuantity then
      ({ list with orders := list.orders ++ [⟨orderId, clientOrderId, request, request.quantity - filledQuantity⟩] },
        true)
    else (list, false)
  | .cancelOrder orderId =>
    if (list.find orderId).isSome then
      ({ list with orders := list.orders.filter fun o => decide (o.orderId ≠ orderId) }, true)
    else (list, false)
  | .applyFill orderId executedQuantity =>
    if ∃ o ∈ list.find orderId,
        kQuantityTolerance < executedQuantity ∧ executedQuantity ≤ o.remainingQuantity + kQuantityTolerance then
      ({ list with orders := list.orders.filterMap (subtract orderId executedQuantity) }, true)
    else (list, false)

def machine : Machine OrderList BookOp Bool where
  step := step

/-- The orders of one side, the first arrived first. -/
def onSide (list : OrderList) (side : OrderSide) : List ListedOrder :=
  list.orders.filter fun o => decide (o.request.side = side)

/-- The orders of one side at one price, the first arrived first. -/
def atPrice (list : OrderList) (side : OrderSide) (price : ℚ) : List ListedOrder :=
  (list.onSide side).filter fun o => decide (o.price = price)

/-- The first arrived order of a side that no order of the side betters. -/
def best (list : OrderList) (side : OrderSide) : Option ListedOrder :=
  (list.onSide side).find? fun o => decide (∀ o' ∈ list.onSide side, side.AtLeastAsGood o.price o'.price)

/-- The depth of a side: each price of its orders once, the best one first, with the total remaining quantity and the
number of the orders at that price. -/
structure Depth (list : OrderList) (side : OrderSide) (levels : List OrderBookLevel) : Prop where
  sorted : (levels.map OrderBookLevel.price).Pairwise side.Better
  prices : ∀ p, p ∈ levels.map OrderBookLevel.price ↔ ∃ o ∈ list.onSide side, o.price = p
  total : ∀ level ∈ levels,
    level.totalQuantity = ((list.atPrice side level.price).map ListedOrder.remainingQuantity).sum
  count : ∀ level ∈ levels, level.orderCount = (list.atPrice side level.price).length

end OrderList

/-! ### The book stands for the list -/

/-- A resting order without its sequence number. -/
def RestingOrder.listed (o : RestingOrder) : ListedOrder where
  orderId := o.orderId
  clientOrderId := o.clientOrderId
  request := o.request
  remainingQuantity := o.remainingQuantity

/-- Earlier in sequence. -/
def RestingOrder.Earlier (o o' : RestingOrder) : Prop := o.sequenceNumber < o'.sequenceNumber

theorem RestingOrder.Earlier.asymm (o o' : RestingOrder) (h : o.Earlier o') : ¬ o'.Earlier o := Nat.lt_asymm h

/-- `arrivals` are the resting orders of the book by sequence number, and `list` lists them. -/
structure Represents (book : OrderBook) (arrivals : List RestingOrder) (list : OrderList) : Prop where
  wf : book.Wf
  instrument_eq : list.instrument = book.instrument
  resting_eq : (arrivals : Multiset RestingOrder) = book.resting
  sorted : arrivals.Pairwise RestingOrder.Earlier
  orders_eq : list.orders = arrivals.map RestingOrder.listed

private theorem makeLevel_total (price : ℚ) (q : List RestingOrder) :
    (makeLevel price q).totalQuantity = ((q.map RestingOrder.listed).map ListedOrder.remainingQuantity).sum := by
  rw [List.map_map, List.sum_eq_foldl, List.foldl_map]
  rfl

/-! ### Editing the list -/

namespace OrderList

private theorem filter_ne_of_forall_ne {orderId : String} {l : List ListedOrder} (h : ∀ o ∈ l, o.orderId ≠ orderId) :
    l.filter (fun o => decide (o.orderId ≠ orderId)) = l :=
  List.filter_eq_self.2 fun o ho => decide_eq_true (h o ho)

private theorem filterMap_subtract_of_forall_ne {orderId : String} {executed : ℚ} {l : List ListedOrder}
    (h : ∀ o ∈ l, o.orderId ≠ orderId) : l.filterMap (subtract orderId executed) = l := by
  induction l with
  | nil => rfl
  | cons o l ih =>
    have ho : subtract orderId executed o = some o := if_pos (h o (List.mem_cons_self ..))
    rw [List.filterMap_cons_some ho, ih fun x hx => h x (List.mem_cons_of_mem _ hx)]

/-- Removing the only order with an id. -/
private theorem filter_ne_split {l₁ l₂ : List ListedOrder} {o : ListedOrder}
    (h : ∀ x ∈ l₁ ++ l₂, x.orderId ≠ o.orderId) :
    (l₁ ++ o :: l₂).filter (fun x => decide (x.orderId ≠ o.orderId)) = l₁ ++ l₂ := by
  rw [List.filter_append, List.filter_cons_of_neg (by simp),
    filter_ne_of_forall_ne fun x hx => h x (List.mem_append_left _ hx),
    filter_ne_of_forall_ne fun x hx => h x (List.mem_append_right _ hx)]

/-- Filling the only order with an id. -/
private theorem filterMap_subtract_split {l₁ l₂ : List ListedOrder} {o : ListedOrder} (executed : ℚ)
    (h : ∀ x ∈ l₁ ++ l₂, x.orderId ≠ o.orderId) :
    (l₁ ++ o :: l₂).filterMap (subtract o.orderId executed) =
      if o.remainingQuantity - executed ≤ kQuantityTolerance then l₁ ++ l₂
      else l₁ ++ { o with remainingQuantity := o.remainingQuantity - executed } :: l₂ := by
  have ho : subtract o.orderId executed o = if o.remainingQuantity - executed ≤ kQuantityTolerance then none
      else some { o with remainingQuantity := o.remainingQuantity - executed } := if_neg (not_not_intro rfl)
  rw [List.filterMap_append, filterMap_subtract_of_forall_ne fun x hx => h x (List.mem_append_left _ hx)]
  by_cases hrem : o.remainingQuantity - executed ≤ kQuantityTolerance
  · rw [if_pos hrem, List.filterMap_cons_none (ho.trans (if_pos hrem)),
      filterMap_subtract_of_forall_ne fun x hx => h x (List.mem_append_right _ hx)]
  · rw [if_neg hrem, List.filterMap_cons_some (ho.trans (if_neg hrem)),
      filterMap_subtract_of_forall_ne fun x hx => h x (List.mem_append_right _ hx)]

end OrderList

/-! ### One call -/

namespace Represents

variable {book : OrderBook} {arrivals : List RestingOrder} {list : OrderList} (h : Represents book arrivals list)
include h

private theorem mem_arrivals {o : RestingOrder} : o ∈ arrivals ↔ o ∈ book.resting := by
  rw [← h.resting_eq, Multiset.mem_coe]

/-- An id belongs to one resting order, which book and list find, or to none. -/
private theorem find_cases (id : String) :
    (∃ o ∈ book.resting, o.orderId = id ∧ book.findOrder id = some o ∧ list.find id = some o.listed) ∨
    (∀ o ∈ book.resting, o.orderId ≠ id) ∧ book.findOrder id = none ∧ list.find id = none := by
  have hfind : list.find id = (arrivals.find? fun o => decide (o.orderId = id)).map RestingOrder.listed := by
    rw [OrderList.find, h.orders_eq, List.find?_map]
    rfl
  by_cases hr : ∃ o ∈ book.resting, o.orderId = id
  · obtain ⟨o, ho, rfl⟩ := hr
    obtain ⟨price, q, -, hidx, hq, -, hfound⟩ := h.wf.locate ho
    refine .inl ⟨o, ho, rfl, by simp only [OrderBook.findOrder, hidx, hq, hfound], ?_⟩
    cases hf : arrivals.find? (fun x => decide (x.orderId = o.orderId)) with
    | none => simpa using List.find?_eq_none.1 hf o (h.mem_arrivals.2 ho)
    | some o' =>
      have hid : o'.orderId = o.orderId := by simpa using List.find?_some hf
      have ho' := h.mem_arrivals.1 (List.mem_of_find?_eq_some hf)
      rw [hfind, hf, Option.map_some, h.wf.eq_of_orderId_eq ho' ho hid]
  · push Not at hr
    refine .inr ⟨hr, by simp only [OrderBook.findOrder, h.wf.orderIndex_eq_none hr], ?_⟩
    rw [hfind, Option.map_eq_none_iff, List.find?_eq_none]
    exact fun o ho => by simpa using hr o (h.mem_arrivals.1 ho)

/-- The list at a resting order. -/
theorem split {o : RestingOrder} {rest : Multiset RestingOrder} (hrest : book.resting = o ::ₘ rest) :
    ∃ l₁ l₂, arrivals = l₁ ++ o :: l₂ ∧ ((l₁ ++ l₂ : List RestingOrder) : Multiset RestingOrder) = rest ∧
      list.orders = l₁.map RestingOrder.listed ++ o.listed :: l₂.map RestingOrder.listed ∧
      ∀ x ∈ l₁.map RestingOrder.listed ++ l₂.map RestingOrder.listed, x.orderId ≠ o.listed.orderId := by
  obtain ⟨l₁, l₂, harrivals, hcoe⟩ := exists_split (h.resting_eq.trans hrest)
  refine ⟨l₁, l₂, harrivals, hcoe, by rw [h.orders_eq, harrivals, List.map_append, List.map_cons], fun x hx hid => ?_⟩
  rw [← List.map_append] at hx
  obtain ⟨y, hy, rfl⟩ := List.mem_map.1 hx
  have hnd := h.wf.nodup
  rw [hrest, Multiset.map_cons, Multiset.nodup_cons, ← hcoe] at hnd
  exact hnd.1 (Multiset.mem_map.2 ⟨y, Multiset.mem_coe.2 hy, hid⟩)

theorem accepts_iff (request : OrderRequest) (orderId clientOrderId : String) (filledQuantity : ℚ) :
    book.isRequestCompatible request orderId clientOrderId filledQuantity = true ↔
      list.Accepts request orderId clientOrderId filledQuantity := by
  have hidx : book.orderIndex[orderId]? = none ↔ ∀ o ∈ list.orders, o.orderId ≠ orderId := by
    rw [h.orders_eq, List.forall_mem_map]
    constructor
    · intro hnone o ho hid
      obtain ⟨price, -, -, hsome, -⟩ := h.wf.locate (h.mem_arrivals.1 ho)
      rw [show o.orderId = orderId from hid, hnone] at hsome
      cases hsome
    · exact fun hne => h.wf.orderIndex_eq_none fun o ho => hne o (h.mem_arrivals.2 ho)
  rw [OrderBook.isRequestCompatible_iff, OrderList.Accepts, h.instrument_eq, hidx]
  rfl

theorem addOrder (request : OrderRequest) (orderId clientOrderId : String) (filledQuantity : ℚ) :
    (list.step (.addOrder request orderId clientOrderId filledQuantity)).2 =
        (book.addOrder request orderId clientOrderId filledQuantity).1 ∧
      ∃ arrivals', Represents (book.addOrder request orderId clientOrderId filledQuantity).2 arrivals'
        (list.step (.addOrder request orderId clientOrderId filledQuantity)).1 := by
  have haccepts := h.accepts_iff request orderId clientOrderId filledQuantity
  rw [OrderList.step]
  by_cases hc : book.isRequestCompatible request orderId clientOrderId filledQuantity = true
  · obtain ⟨book', hadd, hwf, hinst, hrest⟩ := OrderBook.addOrder_spec h.wf hc
    rw [hadd, if_pos (haccepts.1 hc)]
    refine ⟨rfl, arrivals ++ [book.restingOrderOf request orderId clientOrderId filledQuantity],
      hwf, h.instrument_eq.trans hinst.symm, ?_, ?_, ?_⟩
    · rw [hrest, ← Multiset.coe_add, h.resting_eq, Multiset.coe_singleton, add_comm, Multiset.singleton_add]
    · -- the new order has the book's next sequence number, which is above all others
      refine List.pairwise_append.2 ⟨h.sorted, List.pairwise_singleton _ _, fun o ho o' ho' => ?_⟩
      obtain ⟨price, q, -, -, hok⟩ := h.wf.exists_orderOk (h.mem_arrivals.1 ho)
      rw [List.mem_singleton.1 ho']
      exact hok.sequence_lt
    · rw [h.orders_eq, List.map_append]
      rfl
  · rw [OrderBook.addOrder_of_not_compatible (Bool.eq_false_iff.2 hc), if_neg (haccepts.not.1 hc)]
    exact ⟨rfl, arrivals, h⟩

theorem cancelOrder (orderId : String) :
    (list.step (.cancelOrder orderId)).2 = (book.cancelOrder orderId).1 ∧
      ∃ arrivals', Represents (book.cancelOrder orderId).2 arrivals' (list.step (.cancelOrder orderId)).1 := by
  rw [OrderList.step]
  rcases h.find_cases orderId with ⟨o, ho, rfl, -, hfind⟩ | ⟨hnone, -, hfind⟩
  · obtain ⟨book', hcancel, hwf, hinst, hrest⟩ := OrderBook.cancelOrder_spec h.wf ho
    obtain ⟨l₁, l₂, harrivals, hcoe, horders, hne⟩ := h.split hrest
    have hsub : (l₁ ++ l₂).Sublist arrivals := by
      rw [harrivals]
      exact List.Sublist.append_left (List.sublist_cons_self o l₂) l₁
    rw [hcancel, hfind, Option.isSome_some, if_pos rfl]
    refine ⟨rfl, l₁ ++ l₂, hwf, h.instrument_eq.trans hinst.symm, hcoe, h.sorted.sublist hsub, ?_⟩
    rw [horders, List.map_append]
    exact OrderList.filter_ne_split hne
  · rw [OrderBook.cancelOrder_of_not_resting h.wf.toIndexed hnone, hfind, Option.isSome_none, if_neg Bool.false_ne_true]
    exact ⟨rfl, arrivals, h⟩

theorem applyFill (orderId : String) (executedQuantity : ℚ) :
    (list.step (.applyFill orderId executedQuantity)).2 = (book.applyFill orderId executedQuantity).1 ∧
      ∃ arrivals', Represents (book.applyFill orderId executedQuantity).2 arrivals'
        (list.step (.applyFill orderId executedQuantity)).1 := by
  rw [OrderList.step]
  rcases h.find_cases orderId with ⟨o, ho, rfl, -, hfind⟩ | ⟨hnone, -, hfind⟩
  · by_cases hrange : kQuantityTolerance < executedQuantity ∧
        executedQuantity ≤ o.remainingQuantity + kQuantityTolerance
    · obtain ⟨book', hfill, hwf, hinst, rest, hrest, hrest'⟩ :=
        OrderBook.applyFill_spec h.wf ho hrange.1 hrange.2
      obtain ⟨l₁, l₂, harrivals, hcoe, horders, hne⟩ := h.split hrest
      have hfills := OrderList.filterMap_subtract_split executedQuantity hne
      have hsorted := h.sorted
      rw [harrivals] at hsorted
      rw [hfill, if_pos ⟨o.listed, hfind, hrange⟩]
      refine ⟨rfl, ?_⟩
      by_cases hrem : o.remainingQuantity - executedQuantity ≤ kQuantityTolerance
      · rw [if_pos hrem] at hrest'
        refine ⟨l₁ ++ l₂, hwf, h.instrument_eq.trans hinst.symm, hcoe.trans hrest'.symm,
          hsorted.sublist (List.Sublist.append_left (List.sublist_cons_self o l₂) l₁), ?_⟩
        rw [horders, List.map_append]
        exact hfills.trans (if_pos hrem)
      · rw [if_neg hrem] at hrest'
        refine ⟨l₁ ++ { o with remainingQuantity := o.remainingQuantity - executedQuantity } :: l₂, hwf,
          h.instrument_eq.trans hinst.symm, ?_, pairwise_replace hsorted (fun _ hx => hx) (fun _ hx => hx), ?_⟩
        · rw [hrest', ← hcoe]
          exact Multiset.coe_eq_coe.2 List.perm_middle
        · rw [horders, List.map_append, List.map_cons]
          exact hfills.trans (if_neg hrem)
    · have hout := hrange
      rw [not_and_or, not_lt, not_le] at hout
      rw [OrderBook.applyFill_of_out_of_range h.wf ho hout, if_neg]
      · exact ⟨rfl, arrivals, h⟩
      · rintro ⟨x, hx, hx'⟩
        rw [hfind] at hx
        cases hx
        exact hrange hx'
  · rw [OrderBook.applyFill_of_not_resting h.wf hnone, if_neg]
    · exact ⟨rfl, arrivals, h⟩
    · rintro ⟨x, hx, -⟩
      rw [hfind] at hx
      cases hx

/-- A book and a list that read one call answer alike and stay in step. -/
theorem step (op : BookOp) :
    (book.call op).1 = (list.step op).2 ∧ ∃ arrivals', Represents (book.call op).2 arrivals' (list.step op).1 := by
  cases op with
  | addOrder request orderId clientOrderId filledQuantity =>
    exact ⟨(h.addOrder request orderId clientOrderId filledQuantity).1.symm, (h.addOrder ..).2⟩
  | cancelOrder orderId => exact ⟨(h.cancelOrder orderId).1.symm, (h.cancelOrder orderId).2⟩
  | applyFill orderId executedQuantity =>
    exact ⟨(h.applyFill orderId executedQuantity).1.symm, (h.applyFill orderId executedQuantity).2⟩

/-! ### The queries -/

theorem orderCount : book.orderCount = list.orders.length := by
  rw [h.wf.count, ← h.resting_eq, Multiset.coe_card, h.orders_eq, List.length_map]

theorem findOrder (id : String) : (book.findOrder id).map RestingOrder.listed = list.find id := by
  rcases h.find_cases id with ⟨o, -, -, hbook, hlist⟩ | ⟨-, hbook, hlist⟩
  · rw [hbook, hlist, Option.map_some]
  · rw [hbook, hlist, Option.map_none]

private theorem onSide_eq (side : OrderSide) :
    list.onSide side = (arrivals.filter fun o => decide (o.request.side = side)).map RestingOrder.listed := by
  rw [OrderList.onSide, h.orders_eq, List.filter_map]
  rfl

private theorem mem_filter_side {side : OrderSide} {o : RestingOrder} :
    o ∈ arrivals.filter (fun o => decide (o.request.side = side)) ↔ o ∈ book.sideQueue side := by
  rw [List.mem_filter, h.wf.mem_sideQueue_iff, h.mem_arrivals, decide_eq_true_eq]

/-- The first order of the queue is the first arrived one that no order of the side betters. -/
theorem bestOrder (side : OrderSide) : (book.bestOrder side).map RestingOrder.listed = list.best side := by
  have hmem : ∀ o, o ∈ arrivals.filter (fun o => decide (o.request.side = side)) ↔ o ∈ book.sideQueue side :=
    fun _ => h.mem_filter_side
  have hsorted := h.sorted.filter fun o => decide (o.request.side = side)
  rw [h.wf.bestOrder_eq, OrderList.best, h.onSide_eq]
  cases hq : book.sideQueue side with
  | nil =>
    have hnil : arrivals.filter (fun o => decide (o.request.side = side)) = [] :=
      List.eq_nil_iff_forall_not_mem.2 fun o ho => by
        rw [hmem, hq] at ho
        cases ho
    rw [hnil]
    rfl
  | cons o q =>
    rw [hq] at hmem
    -- the first of the queue is the first arrival at a price that no other betters
    have hfirst := h.wf.sideQueue_sorted side
    rw [hq, List.pairwise_cons] at hfirst
    obtain ⟨l₁, l₂, hl⟩ := List.append_of_mem ((hmem o).2 (List.mem_cons_self ..))
    rw [hl] at hmem hsorted
    rw [List.head?_cons, Option.map_some, hl, eq_comm, List.find?_eq_some_iff_append]
    refine ⟨?_, l₁.map RestingOrder.listed, l₂.map RestingOrder.listed, by rw [List.map_append, List.map_cons], ?_⟩
    · rw [decide_eq_true_eq, List.forall_mem_map]
      intro x hx
      rcases List.mem_cons.1 ((hmem x).1 hx) with rfl | hx
      · exact OrderSide.atLeastAsGood_iff.2 (.inr rfl)
      · exact OrderSide.atLeastAsGood_iff.2 ((hfirst.1 x hx).imp_right fun heq => heq.1)
    · -- an order that arrived before the first of the queue has a worse price
      rw [List.forall_mem_map]
      intro x hx
      have hearlier : x.Earlier o := (List.pairwise_append.1 hsorted).2.2 x hx o (List.mem_cons_self ..)
      have hlater : o.Precedes side x := by
        rcases List.mem_cons.1 ((hmem x).1 (List.mem_append_left _ hx)) with rfl | hx
        · exact absurd hearlier (Nat.lt_irrefl _)
        · exact hfirst.1 x hx
      rw [Bool.not_eq_true', decide_eq_false_iff_not]
      intro hall
      have hgood : side.AtLeastAsGood x.price o.price :=
        hall o.listed (List.mem_map_of_mem (List.mem_append_right _ (List.mem_cons_self ..)))
      rcases OrderSide.atLeastAsGood_iff.1 hgood with hbetter | heq
      · rcases hlater with hlater | ⟨heq, -⟩
        · exact hbetter.asymm hlater
        · exact OrderSide.Better.irrefl (heq ▸ hbetter)
      · rcases hlater with hlater | ⟨-, hseq⟩
        · exact OrderSide.Better.irrefl (heq ▸ hlater)
        · exact RestingOrder.Earlier.asymm x o hearlier hseq

/-- The queue at a price lists the orders at that price in the order that they arrived in. -/
private theorem level_listed {side : OrderSide} {price : ℚ} {q : List RestingOrder}
    (hq : book.level side price = some q) : q.map RestingOrder.listed = list.atPrice side price := by
  have hok := h.wf.level side price q hq
  have hfilter : q = (arrivals.filter fun o => decide (o.request.side = side)).filter
      fun o => decide (o.price = price) := by
    refine eq_of_mem_iff RestingOrder.Earlier.asymm (fun o => ?_) hok.increasing ((h.sorted.filter _).filter _)
    rw [List.mem_filter, h.mem_filter_side, decide_eq_true_eq]
    constructor
    · exact fun ho => ⟨OrderBook.mem_sideQueue.2 ⟨price, q, hq, ho⟩, h.wf.price_of_mem_level hq ho⟩
    · rintro ⟨ho, rfl⟩
      obtain ⟨p, q', hq', ho'⟩ := OrderBook.mem_sideQueue.1 ho
      rw [h.wf.price_of_mem_level hq' ho', hq', Option.some.injEq] at hq
      exact hq ▸ ho'
  rw [hfilter, OrderList.atPrice, h.onSide_eq, List.filter_map]
  rfl

/-- The levels of a map in the order of its side are the depth of the list. -/
private theorem depth {cmp : ℚ → ℚ → Ordering} [TransCmp cmp] [LawfulEqCmp cmp] {side : OrderSide}
    (levels : ExtTreeMap ℚ (List RestingOrder) cmp) (hlevel : ∀ p : ℚ, book.level side p = levels[p]?)
    (hcmp : ∀ p p' : ℚ, cmp p p' = .lt → side.Better p p') :
    list.Depth side (levels.toList.map fun level => makeLevel level.1 level.2) := by
  have hmem : ∀ e ∈ levels.toList, book.level side e.1 = some e.2 := fun e he =>
    (hlevel e.1).trans (ExtTreeMap.mem_toList_iff_getElem?_eq_some.1 he)
  refine ⟨?_, fun p => ?_, ?_, ?_⟩
  · rw [List.map_map, List.pairwise_map]
    exact levels.ordered_keys_toList.imp fun {e e'} hlt => hcmp e.1 e'.1 hlt
  · rw [List.map_map, List.mem_map, h.onSide_eq]
    constructor
    · rintro ⟨e, he, rfl⟩
      obtain ⟨o, q, hq⟩ := List.exists_cons_of_ne_nil (h.wf.level side e.1 e.2 (hmem e he)).nonempty
      have ho : o ∈ e.2 := hq ▸ List.mem_cons_self ..
      exact ⟨o.listed, List.mem_map_of_mem (h.mem_filter_side.2 (OrderBook.mem_sideQueue.2 ⟨_, _, hmem e he, ho⟩)),
        h.wf.price_of_mem_level (hmem e he) ho⟩
    · rintro ⟨x, hx, rfl⟩
      obtain ⟨o, ho, rfl⟩ := List.mem_map.1 hx
      obtain ⟨p, q, hq, hoq⟩ := OrderBook.mem_sideQueue.1 (h.mem_filter_side.1 ho)
      refine ⟨(p, q), ExtTreeMap.mem_toList_iff_getElem?_eq_some.2 ((hlevel p).symm.trans hq), ?_⟩
      exact (h.wf.price_of_mem_level hq hoq).symm
  · rw [List.forall_mem_map]
    intro e he
    rw [makeLevel_total, h.level_listed (hmem e he)]
    rfl
  · rw [List.forall_mem_map]
    intro e he
    show e.2.length = (list.atPrice side e.1).length
    rw [← h.level_listed (hmem e he), List.length_map]

theorem bidLevels : list.Depth .buy book.bidLevels :=
  h.depth book.bidLevelMap (fun _ => rfl) fun _ _ hlt => compare_lt_iff_lt.1 hlt

theorem askLevels : list.Depth .sell book.askLevels :=
  h.depth book.askLevelMap (fun _ => rfl) fun _ _ hlt => compare_lt_iff_lt.1 hlt

end Represents

private theorem empty_represents (instrument : Instrument) : Represents { instrument := instrument }
    [] ⟨instrument, []⟩ := by
  have hr : ({ instrument := instrument } : OrderBook).resting = 0 := by simp [OrderBook.resting, contents]
  exact ⟨OrderBook.empty_wf instrument, rfl, hr.symm, .nil, rfl⟩

/-! ### Runs -/

/-- A book is a flat list of its resting orders: after any sequence of calls on an empty book and on an empty list,
every call has returned the same flag on both, the best orders are the first arrived among the best priced, and
`find_order`, `order_count` and the levels say what the list says. -/
theorem book_refines_list (instrument : Instrument) (ops : List BookOp) :
    let book := OrderBook.machine.run { instrument := instrument } ops
    let list := OrderList.machine.run { instrument := instrument } ops
    OrderBook.machine.outputs { instrument := instrument } ops =
      OrderList.machine.outputs { instrument := instrument } ops ∧
    book.bestBidOrder.map RestingOrder.listed = list.best .buy ∧
    book.bestAskOrder.map RestingOrder.listed = list.best .sell ∧
    (∀ id, (book.findOrder id).map RestingOrder.listed = list.find id) ∧
    book.orderCount = list.orders.length ∧
    list.Depth .buy book.bidLevels ∧ list.Depth .sell book.askLevels := by
  intro book list
  have hstep : ∀ (b : OrderBook) (l : OrderList) (op : BookOp), (∃ arrivals, Represents b arrivals l) →
      (∃ arrivals, Represents (OrderBook.machine.step b op).1 arrivals (OrderList.machine.step l op).1) ∧
        (OrderBook.machine.step b op).2 = (OrderList.machine.step l op).2 := by
    rintro b l op ⟨arrivals, h⟩
    exact ⟨(h.step op).2, (h.step op).1⟩
  obtain ⟨⟨arrivals, h⟩, houtputs⟩ := Machine.simulation hstep ⟨[], empty_represents instrument⟩ ops
  exact ⟨houtputs, h.bestOrder .buy, h.bestOrder .sell, h.findOrder, h.orderCount, h.bidLevels, h.askLevels⟩

end Wall
