import Wall.Executions

/-!
# A book and the order records

The resting orders of a book and the records of the tracked orders are kept by different code.  `Synced` says that
they describe the same orders: every resting order has the record of an open order with its side, its price and
what remains of it, and every open order of the book's instrument rests (except, while `submit` runs, the order
being submitted).  One execution keeps this (`Synced.fill`), so a chain of executions does, and a fact about the
records under a chain can be proved from the record of each execution alone (`Executes.record_induction`).
-/

namespace Wall

open KeyedMap

/-- The statuses of an order that can still execute. -/
def OrderStatus.isOpen (status : OrderStatus) : Bool :=
  status = .acknowledged || status = .partiallyFilled

theorem OrderStatus.ne_of_isOpen {status s : OrderStatus} (h : status.isOpen = true) (hs : s.isOpen = false) :
    status ≠ s := by
  rintro rfl
  rw [h] at hs
  cases hs

theorem OrderStatus.isOpen_not_isTerminal {status : OrderStatus} (h : status.isOpen = true) :
    status.isTerminal = false := by
  cases status <;> simp_all [isOpen, isTerminal]

/-- What holds of the record tracked under `id`. -/
structure RecordOk (id : String) (r : OrderRecord) : Prop where
  orderId_eq : r.orderId = id
  status : r.status.isOpen = true ∨ r.status = .filled ∨ r.status = .canceled ∨ r.status = .rejected
  filled : r.status = .filled → r.filledQuantity = r.quantity
  rejected : r.status = .rejected → r.filledQuantity = 0
  bounds : r.status ≠ .rejected → 0 ≤ r.filledQuantity ∧ r.filledQuantity ≤ r.quantity

def RecordsOk (orders : StringMap OrderRecord) : Prop :=
  ∀ (id : String) (r : OrderRecord), orders[id]? = some r → RecordOk id r

/-- `r` is the record of the resting order `o`. -/
structure Records (o : RestingOrder) (r : OrderRecord) : Prop where
  instrument_eq : r.instrumentId = o.request.instrument.instrumentId
  side_eq : r.side = o.request.side
  price_eq : r.price = o.request.price
  isOpen : r.status.isOpen = true
  remaining_eq : o.remainingQuantity = r.quantity - r.filledQuantity

/-- The book and the records describe the same open orders of the book's instrument, `except` aside. -/
structure Synced (except : Option String) (book : OrderBook) (orders : StringMap OrderRecord) : Prop where
  wf : book.Wf
  tracked : ∀ o ∈ book.resting, ∃ r, orders[o.orderId]? = some r ∧ Records o r
  rests : ∀ (id : String) (r : OrderRecord), orders[id]? = some r →
    r.instrumentId = book.instrument.instrumentId → r.status.isOpen = true → except ≠ some id →
    ∃ o ∈ book.resting, o.orderId = id

/-- The record of an open order only has its bounds to keep. -/
theorem RecordOk.of_isOpen {id : String} {r : OrderRecord} (hid : r.orderId = id) (hopen : r.status.isOpen = true)
    (h0 : 0 ≤ r.filledQuantity) (hle : r.filledQuantity ≤ r.quantity) : RecordOk id r where
  orderId_eq := hid
  status := Or.inl hopen
  filled hst := absurd hst (OrderStatus.ne_of_isOpen hopen rfl)
  rejected hst := absurd hst (OrderStatus.ne_of_isOpen hopen rfl)
  bounds _ := ⟨h0, hle⟩

theorem RecordOk.bounds_of_isOpen {id : String} {r : OrderRecord} (h : RecordOk id r)
    (hopen : r.status.isOpen = true) : 0 ≤ r.filledQuantity ∧ r.filledQuantity ≤ r.quantity :=
  h.bounds (OrderStatus.ne_of_isOpen hopen rfl)

theorem RecordsOk.insert {orders : StringMap OrderRecord} (h : RecordsOk orders) {id : String} {r : OrderRecord}
    (hr : RecordOk id r) : RecordsOk (orders.insert id r) :=
  KeyedMap.forall_insert h hr

/-! ### One execution -/

/-- The two outcomes of a fill within an order's remaining quantity: it completes the order, or adds to it. -/
theorem fillRecord_eq {r : OrderRecord} {executed : ℚ} (h : r.filledQuantity + executed ≤ r.quantity) :
    fillRecord r executed =
      if r.quantity - r.filledQuantity - executed ≤ kQuantityTolerance then
        { r with filledQuantity := r.quantity, status := .filled }
      else { r with filledQuantity := r.filledQuantity + executed, status := .partiallyFilled } := by
  have htol := kQuantityTolerance_pos
  have habs : |r.filledQuantity + executed - r.quantity| = r.quantity - r.filledQuantity - executed := by
    rw [abs_of_nonpos (by linarith)]
    ring
  unfold fillRecord
  simp only [min_eq_right h, habs]
  split
  · rw [if_pos (by linarith)]
  · rename_i hc
    rw [if_neg (by linarith)]

private theorem applyFillToOrder_eq {orders : StringMap OrderRecord} {id : String} {r : OrderRecord}
    (hr : orders[id]? = some r) {executed : ℚ} (hpos : kQuantityTolerance < executed) :
    applyFillToOrder orders id executed = orders.insert id (fillRecord r executed) := by
  simp only [applyFillToOrder, hr, not_le.2 hpos, ↓reduceIte]

private theorem fillRecord_ok {id : String} {o : RestingOrder} {r : OrderRecord} (hr : RecordOk id r) (ho : Records o r)
    {executed : ℚ} (hpos : kQuantityTolerance < executed) (hle : executed ≤ o.remainingQuantity) :
    RecordOk id (fillRecord r executed) := by
  have htol := kQuantityTolerance_pos
  have hrem := ho.remaining_eq
  obtain ⟨h0, hle'⟩ := hr.bounds_of_isOpen ho.isOpen
  rw [fillRecord_eq (by linarith)]
  split
  · exact ⟨hr.orderId_eq, Or.inr (Or.inl rfl), fun _ => rfl, (nomatch ·), fun _ => ⟨h0.trans hle', le_refl _⟩⟩
  · refine .of_isOpen hr.orderId_eq rfl ?_ ?_
    · simp only
      linarith
    · simp only
      linarith

/-- An execution in the book and in the record leaves the two in step. -/
theorem Synced.fill {except : Option String} {book book' : OrderBook} {orders : StringMap OrderRecord}
    (h : Synced except book orders) {o : RestingOrder} (ho : o ∈ book.resting) {r : OrderRecord}
    (hr : orders[o.orderId]? = some r) (hrec : Records o r) {executed : ℚ} (hpos : kQuantityTolerance < executed)
    (hle : executed ≤ o.remainingQuantity) (hfill : book.applyFill o.orderId executed = (true, book')) :
    Synced except book' (orders.insert o.orderId (fillRecord r executed)) := by
  have htol := kQuantityTolerance_pos
  have hrem := hrec.remaining_eq
  obtain ⟨book'', he, hwf, hinst, rest, hrest, hrest'⟩ :=
    OrderBook.applyFill_spec h.wf ho hpos (by linarith)
  rw [hfill, Prod.mk.injEq] at he
  obtain ⟨-, rfl⟩ := he
  have hnd := h.wf.nodup
  rw [hrest, Multiset.map_cons, Multiset.nodup_cons] at hnd
  have hne : ∀ x ∈ rest, o.orderId ≠ x.orderId := fun x hx hid => hnd.1 (hid ▸ Multiset.mem_map_of_mem _ hx)
  have hfr : fillRecord r executed = _ := fillRecord_eq (by linarith)
  rw [← hrem] at hfr
  refine ⟨hwf, ?_, ?_⟩
  · intro x hx
    -- resting ids are distinct, so the orders beside the filled one keep their records
    have hold : x ∈ rest → ∃ r', (orders.insert o.orderId (fillRecord r executed))[x.orderId]? = some r' ∧
        Records x r' := by
      intro hx
      obtain ⟨r', hr', hrec'⟩ := h.tracked x (by rw [hrest]; exact Multiset.mem_cons_of_mem hx)
      exact ⟨r', by rw [KeyedMap.getElem?_insert, if_neg (hne x hx)]; exact hr', hrec'⟩
    rw [hrest'] at hx
    split at hx
    · exact hold hx
    · rename_i hc
      rcases Multiset.mem_cons.1 hx with rfl | hx
      · refine ⟨fillRecord r executed, by rw [KeyedMap.getElem?_insert, if_pos rfl], ?_⟩
        rw [hfr, if_neg hc]
        exact ⟨hrec.instrument_eq, hrec.side_eq, hrec.price_eq, rfl, by simp only; linarith⟩
      · exact hold hx
  · intro id r' hr' hinst' hopen hexc
    rw [hinst] at hinst'
    rw [KeyedMap.getElem?_insert] at hr'
    split at hr'
    · rename_i hid
      cases hr'
      rw [hfr] at hopen
      -- record and book snap at the same residual: the record closes exactly when the order leaves the book
      split at hopen
      · cases hopen
      · rename_i hc
        rw [if_neg hc] at hrest'
        refine ⟨{ o with remainingQuantity := o.remainingQuantity - executed }, ?_, hid⟩
        rw [hrest']
        exact Multiset.mem_cons_self _ _
    · rename_i hid
      obtain ⟨x, hx, hxid⟩ := h.rests id r' hr' hinst' hopen hexc
      rw [hrest, Multiset.mem_cons] at hx
      rcases hx with rfl | hx
      · exact absurd hxid hid
      · refine ⟨x, ?_, hxid⟩
        rw [hrest']
        split
        · exact hx
        · exact Multiset.mem_cons_of_mem hx

/-! ### Chains of executions -/

namespace Executes

variable {except : Option String} {book book' : OrderBook} {orders orders' : StringMap OrderRecord}
variable {es : List Execution}

/-- Induction over a chain that starts in step: each execution fills the record of an open order within what
remains of it, and the chain goes on in step. -/
theorem tail_induction {P : StringMap OrderRecord → List Execution → StringMap OrderRecord → Prop} {i : String}
    (h : Executes book orders es book' orders') (hs : Synced except book orders) (hok : RecordsOk orders)
    (hi : book.instrument.instrumentId = i) (nil : ∀ orders, P orders [] orders)
    (cons : ∀ (orders : StringMap OrderRecord) (r : OrderRecord) (e : Execution) (es : List Execution)
      (book book' : OrderBook) (orders' : StringMap OrderRecord), orders[e.resting.orderId]? = some r →
      Records e.resting r → r.instrumentId = i → RecordOk e.resting.orderId r → kQuantityTolerance < e.quantity →
      e.quantity ≤ e.resting.remainingQuantity →
      Synced except book (orders.insert e.resting.orderId (fillRecord r e.quantity)) →
      RecordsOk (orders.insert e.resting.orderId (fillRecord r e.quantity)) →
      Executes book (orders.insert e.resting.orderId (fillRecord r e.quantity)) es book' orders' →
      P (orders.insert e.resting.orderId (fillRecord r e.quantity)) es orders' → P orders (e :: es) orders') :
    P orders es orders' := by
  induction h with
  | nil => exact nil _
  | @cons book book₁ book₂ orders orders₂ es resting executed hbest hpos hle hfill htail ih =>
    have hmem := (hs.wf.bestOrder_spec hbest).1
    obtain ⟨r, hr, hrec⟩ := hs.tracked resting hmem
    have hs₁ := hs.fill hmem hr hrec hpos hle hfill
    have hok₁ := hok.insert (fillRecord_ok (hok _ r hr) hrec hpos hle)
    have hone : Executes book orders [⟨resting, executed⟩] book₁ (applyFillToOrder orders resting.orderId executed) :=
      .cons hbest hpos hle hfill (.nil _ _)
    have hinst := (hone.wf hs.wf).2
    obtain ⟨p, q, -, -, hoo⟩ := hs.wf.exists_orderOk hmem
    rw [applyFillToOrder_eq hr hpos] at ih htail
    exact cons orders r ⟨resting, executed⟩ es book₁ book₂ orders₂ hr hrec
      (hrec.instrument_eq.trans (hoo.instrument_eq.trans hi)) (hok _ r hr) hpos hle hs₁ hok₁ htail
      (ih hs₁ hok₁ (hinst ▸ hi))

/-- Induction over the records alone. -/
theorem record_induction {P : StringMap OrderRecord → List Execution → StringMap OrderRecord → Prop} {i : String}
    (h : Executes book orders es book' orders') (hs : Synced except book orders) (hok : RecordsOk orders)
    (hi : book.instrument.instrumentId = i) (nil : ∀ orders, P orders [] orders)
    (cons : ∀ (orders : StringMap OrderRecord) (r : OrderRecord) (e : Execution) (es : List Execution)
      (orders' : StringMap OrderRecord), orders[e.resting.orderId]? = some r → Records e.resting r →
      r.instrumentId = i → RecordOk e.resting.orderId r → kQuantityTolerance < e.quantity →
      e.quantity ≤ e.resting.remainingQuantity →
      P (orders.insert e.resting.orderId (fillRecord r e.quantity)) es orders' → P orders (e :: es) orders') :
    P orders es orders' := by
  refine h.tail_induction hs hok hi nil ?_
  intro orders r e es _ _ orders' hr hrec hinst hrok hpos hle _ _ _ ih
  exact cons orders r e es orders' hr hrec hinst hrok hpos hle ih

/-- A chain keeps the book and the records in step. -/
theorem synced (h : Executes book orders es book' orders') (hs : Synced except book orders)
    (hok : RecordsOk orders) : Synced except book' orders' ∧ RecordsOk orders' := by
  induction h with
  | nil => exact ⟨hs, hok⟩
  | cons hbest hpos hle hfill _ ih =>
    have hmem := (hs.wf.bestOrder_spec hbest).1
    obtain ⟨r, hr, hrec⟩ := hs.tracked _ hmem
    rw [applyFillToOrder_eq hr hpos] at ih
    exact ih (hs.fill hmem hr hrec hpos hle hfill) (hok.insert (fillRecord_ok (hok _ r hr) hrec hpos hle))

end Executes

/-! ### How records change -/

/-- `r'` is a later state of the record `r`: only the status and the filled quantity move, the filled quantity
never falls, and a terminal record does not change at all. -/
structure OrderRecord.Evolves (r r' : OrderRecord) : Prop where
  same : r' = { r with status := r'.status, filledQuantity := r'.filledQuantity }
  filled_le : r.filledQuantity ≤ r'.filledQuantity
  terminal : r.status.isTerminal = true → r' = r

theorem OrderRecord.Evolves.refl (r : OrderRecord) : r.Evolves r := ⟨rfl, le_refl _, fun _ => rfl⟩

theorem OrderRecord.Evolves.trans {r₁ r₂ r₃ : OrderRecord} (h₁ : r₁.Evolves r₂) (h₂ : r₂.Evolves r₃) :
    r₁.Evolves r₃ where
  same := by
    have e₁ := h₁.same
    have e₂ := h₂.same
    rw [e₁] at e₂
    exact e₂
  filled_le := h₁.filled_le.trans h₂.filled_le
  terminal h := by
    obtain rfl := h₁.terminal h
    exact h₂.terminal h

/-- Every tracked record stays tracked, in a later state. -/
def OrdersEvolve (orders orders' : StringMap OrderRecord) : Prop :=
  ∀ (id : String) (r : OrderRecord), orders[id]? = some r → ∃ r', orders'[id]? = some r' ∧ r.Evolves r'

namespace OrdersEvolve

variable {orders orders₁ orders₂ : StringMap OrderRecord}

theorem refl (orders : StringMap OrderRecord) : OrdersEvolve orders orders :=
  fun _ r hr => ⟨r, hr, .refl r⟩

theorem trans (h₁ : OrdersEvolve orders orders₁) (h₂ : OrdersEvolve orders₁ orders₂) :
    OrdersEvolve orders orders₂ := by
  intro id r hr
  obtain ⟨r₁, hr₁, he₁⟩ := h₁ id r hr
  obtain ⟨r₂, hr₂, he₂⟩ := h₂ id r₁ hr₁
  exact ⟨r₂, hr₂, he₁.trans he₂⟩

theorem insert_old {id : String} {r r' : OrderRecord} (hr : orders[id]? = some r) (he : r.Evolves r') :
    OrdersEvolve orders (orders.insert id r') := by
  intro id' r₁ hr₁
  rw [KeyedMap.getElem?_insert]
  split
  · rename_i hid
    subst hid
    rw [hr, Option.some.injEq] at hr₁
    exact ⟨r', rfl, hr₁ ▸ he⟩
  · exact ⟨r₁, hr₁, .refl r₁⟩

theorem insert_new {id : String} (hid : orders[id]? = none) (r : OrderRecord) :
    OrdersEvolve orders (orders.insert id r) := by
  intro id' r₁ hr₁
  rw [KeyedMap.getElem?_insert, if_neg]
  · exact ⟨r₁, hr₁, .refl r₁⟩
  · rintro rfl
    rw [hid] at hr₁
    cases hr₁

end OrdersEvolve

private theorem fillRecord_evolves {o : RestingOrder} {r : OrderRecord} (hrec : Records o r) {executed : ℚ}
    (hpos : kQuantityTolerance < executed) (hle : executed ≤ o.remainingQuantity) :
    r.Evolves (fillRecord r executed) := by
  have htol := kQuantityTolerance_pos
  have hrem := hrec.remaining_eq
  refine ⟨rfl, ?_, fun ht => ?_⟩
  · rw [fillRecord_eq (by linarith)]
    split <;> simp only <;> linarith
  · rw [OrderStatus.isOpen_not_isTerminal hrec.isOpen] at ht
    cases ht

namespace Executes

variable {except : Option String} {book book' : OrderBook} {orders orders' : StringMap OrderRecord}
variable {es : List Execution}

theorem ordersEvolve (h : Executes book orders es book' orders') (hs : Synced except book orders)
    (hok : RecordsOk orders) : OrdersEvolve orders orders' := by
  refine h.record_induction (P := fun orders _ orders' => OrdersEvolve orders orders') hs hok rfl .refl ?_
  intro orders r e es orders' hr hrec _ _ hpos hle ih
  exact (OrdersEvolve.insert_old hr (fillRecord_evolves hrec hpos hle)).trans ih

/-- A record that no execution names does not change. -/
theorem getElem?_of_not_executed (h : Executes book orders es book' orders') (hs : Synced except book orders)
    (hok : RecordsOk orders) : ∀ id, (∀ e ∈ es, e.resting.orderId ≠ id) → orders'[id]? = orders[id]? := by
  refine h.record_induction (P := fun orders es orders' => ∀ id, (∀ e ∈ es, e.resting.orderId ≠ id) →
    orders'[id]? = orders[id]?) hs hok rfl (fun _ _ _ => rfl) ?_
  intro orders r e es orders' _ _ _ _ _ _ ih id hid
  rw [ih id fun e' he' => hid e' (List.mem_cons_of_mem _ he'), KeyedMap.getElem?_insert,
    if_neg (hid e (List.mem_cons_self ..))]

/-- Every execution is of an order of the book's instrument whose record was open before the chain. -/
theorem record_of_executed (h : Executes book orders es book' orders') (hs : Synced except book orders)
    (hok : RecordsOk orders) : ∀ e ∈ es, ∃ r, orders[e.resting.orderId]? = some r ∧ r.status.isOpen = true ∧
      r.instrumentId = book.instrument.instrumentId ∧ r.side = e.resting.request.side ∧
      r.price = e.resting.request.price := by
  refine h.record_induction (P := fun orders es _ => ∀ e ∈ es, ∃ r, orders[e.resting.orderId]? = some r ∧
    r.status.isOpen = true ∧ r.instrumentId = book.instrument.instrumentId ∧ r.side = e.resting.request.side ∧
    r.price = e.resting.request.price) hs hok rfl (by simp) ?_
  intro orders r e es orders' hr hrec hi _ _ _ ih e' he'
  rcases List.mem_cons.1 he' with rfl | he'
  · exact ⟨r, hr, hrec.isOpen, hi, hrec.side_eq, hrec.price_eq⟩
  · obtain ⟨r', hr', hopen', hi', hside', hprice'⟩ := ih e' he'
    rw [KeyedMap.getElem?_insert] at hr'
    split at hr'
    · rename_i hid
      cases hr'
      exact ⟨r, hid ▸ hr, hrec.isOpen, hi', hside', hprice'⟩
    · exact ⟨r', hr', hopen', hi', hside', hprice'⟩

theorem getElem?_eq_none (h : Executes book orders es book' orders') (hs : Synced except book orders)
    (hok : RecordsOk orders) {id : String} (hid : orders[id]? = none) : orders'[id]? = none := by
  rw [h.getElem?_of_not_executed hs hok id, hid]
  rintro e he rfl
  obtain ⟨r, hr, -⟩ := h.record_of_executed hs hok e he
  rw [hid] at hr
  cases hr

end Executes

/-- The two record maps hold the same records of every instrument but `i`. -/
def SameOutside (i : String) (orders orders' : StringMap OrderRecord) : Prop :=
  ∀ (id : String) (r : OrderRecord), r.instrumentId ≠ i → (orders'[id]? = some r ↔ orders[id]? = some r)

theorem SameOutside.refl (i : String) (orders : StringMap OrderRecord) : SameOutside i orders orders :=
  fun _ _ _ => Iff.rfl

theorem SameOutside.trans {i : String} {orders orders₁ orders₂ : StringMap OrderRecord}
    (h₁ : SameOutside i orders orders₁) (h₂ : SameOutside i orders₁ orders₂) : SameOutside i orders orders₂ :=
  fun id r hr => (h₂ id r hr).trans (h₁ id r hr)

/-- Writing a record of instrument `i` over one of instrument `i`, or under a new id. -/
theorem SameOutside.insert {i : String} {orders : StringMap OrderRecord} {id : String} {r : OrderRecord}
    (hr : r.instrumentId = i) (hold : ∀ r', orders[id]? = some r' → r'.instrumentId = i) :
    SameOutside i orders (orders.insert id r) := by
  intro id' r' hr'
  rw [KeyedMap.getElem?_insert]
  split
  · rename_i hid
    subst hid
    constructor
    · intro h
      cases h
      exact absurd hr hr'
    · intro h
      exact absurd (hold r' h) hr'
  · exact Iff.rfl

theorem SameOutside.insert_new {i : String} {orders : StringMap OrderRecord} {id : String} {r : OrderRecord}
    (hr : r.instrumentId = i) (hnew : orders[id]? = none) : SameOutside i orders (orders.insert id r) := by
  refine SameOutside.insert hr fun r' hr' => ?_
  rw [hnew] at hr'
  cases hr'

theorem Executes.sameOutside {except : Option String} {book book' : OrderBook}
    {orders orders' : StringMap OrderRecord} {es : List Execution} (h : Executes book orders es book' orders')
    (hs : Synced except book orders) (hok : RecordsOk orders) :
    SameOutside book.instrument.instrumentId orders orders' := by
  refine h.record_induction (P := fun orders _ orders' => SameOutside book.instrument.instrumentId orders orders')
    hs hok rfl (SameOutside.refl _) ?_
  intro orders r e es orders' hr _ hi _ _ _ ih
  have hfill : (fillRecord r e.quantity).instrumentId = book.instrument.instrumentId := hi
  refine SameOutside.trans (SameOutside.insert hfill fun r' hr' => ?_) ih
  rw [hr, Option.some.injEq] at hr'
  exact hr' ▸ hi

/-- The excepted order comes to rest. -/
theorem Synced.rest {book book' : OrderBook} {orders : StringMap OrderRecord} {o : RestingOrder} {r : OrderRecord}
    (h : Synced (some o.orderId) book orders) (hne : ∀ x ∈ book.resting, x.orderId ≠ o.orderId) (hwf : book'.Wf)
    (hinst : book'.instrument = book.instrument) (hrest : book'.resting = o ::ₘ book.resting) (hrec : Records o r) :
    Synced none book' (orders.insert o.orderId r) where
  wf := hwf
  tracked x hx := by
    rw [hrest, Multiset.mem_cons] at hx
    rcases hx with rfl | hx
    · exact ⟨r, by rw [KeyedMap.getElem?_insert, if_pos rfl], hrec⟩
    · obtain ⟨r', hr', hrec'⟩ := h.tracked x hx
      exact ⟨r', by rw [KeyedMap.getElem?_insert, if_neg (Ne.symm (hne x hx))]; exact hr', hrec'⟩
  rests id r' hr' hinst' hopen _ := by
    rw [KeyedMap.getElem?_insert] at hr'
    rw [hrest]
    split at hr'
    · rename_i hid
      exact ⟨o, Multiset.mem_cons_self _ _, hid⟩
    · rename_i hid
      obtain ⟨x, hx, hxid⟩ := h.rests id r' hr' (by rw [hinst', hinst]) hopen
        (fun he => hid (Option.some.inj he))
      exact ⟨x, Multiset.mem_cons_of_mem hx, hxid⟩

/-- An order that does not rest is written with a record that is not open. -/
theorem Synced.close {except : Option String} {book : OrderBook} {orders : StringMap OrderRecord} {id : String}
    {r : OrderRecord} (h : Synced except book orders) (hexc : ∀ id', except = some id' → id' = id)
    (hne : ∀ x ∈ book.resting, x.orderId ≠ id) (hr : r.status.isOpen = false) :
    Synced none book (orders.insert id r) where
  wf := h.wf
  tracked x hx := by
    obtain ⟨r', hr', hrec'⟩ := h.tracked x hx
    exact ⟨r', by rw [KeyedMap.getElem?_insert, if_neg (Ne.symm (hne x hx))]; exact hr', hrec'⟩
  rests id' r' hr' hinst hopen _ := by
    rw [KeyedMap.getElem?_insert] at hr'
    split at hr'
    · cases hr'
      rw [hr] at hopen
      cases hopen
    · rename_i hid
      exact h.rests id' r' hr' hinst hopen (fun he => hid (hexc id' he).symm)

/-- A book of another instrument stays in step. -/
theorem Synced.of_sameOutside {except : Option String} {book : OrderBook} {orders orders' : StringMap OrderRecord}
    (h : Synced except book orders) {i : String} (hi : book.instrument.instrumentId ≠ i)
    (hsame : SameOutside i orders orders') : Synced except book orders' where
  wf := h.wf
  tracked o ho := by
    obtain ⟨r, hr, hrec⟩ := h.tracked o ho
    obtain ⟨p, q, -, -, hok⟩ := h.wf.exists_orderOk ho
    refine ⟨r, (hsame _ r ?_).2 hr, hrec⟩
    rw [hrec.instrument_eq, hok.instrument_eq]
    exact hi
  rests id r hr hinst := h.rests id r ((hsame id r (by rw [hinst]; exact hi)).1 hr) hinst

end Wall
