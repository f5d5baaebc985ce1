import Wall.EngineRuns

/-!
# The books are never crossed

A book is crossed when its best bid is at or above its best ask.  Executions and cancels only take orders away, and
`submit` rests a residual only after the loop has stopped at an opposite order that does not cross, so no call but
`restore_open_order` can cross a book.  This holds whatever the records say: it needs the books alone.
-/

namespace Wall

open KeyedMap

namespace OrderBook

/-- The best bid price is strictly below the best ask price, whenever there are both. -/
def Uncrossed (book : OrderBook) : Prop :=
  ∀ bid ask, book.bestBid = some bid → book.bestAsk = some ask → bid.price < ask.price

/-- Every resting buy order is priced strictly below every resting sell order. -/
def Apart (book : OrderBook) : Prop :=
  ∀ b ∈ book.resting, ∀ a ∈ book.resting, b.request.side = .buy → a.request.side = .sell →
    ∀ p q, b.request.price = some p → a.request.price = some q → p < q

private theorem bestBid_eq_some {book : OrderBook} {bid : OrderBookLevel} (h : book.bestBid = some bid) :
    ∃ q, book.level .buy bid.price = some q ∧ ∀ p' q', book.level .buy p' = some q' → p' ≤ bid.price := by
  rw [bestBid, bidLevels, List.head?_map] at h
  obtain ⟨⟨p, q⟩, hhead, rfl⟩ := Option.map_eq_some_iff.1 h
  obtain ⟨hq, hmin⟩ := head?_toList_eq_some hhead
  exact ⟨q, hq, fun p' q' hq' => compare_le_iff_le.1 (Ordering.isLE_iff_ne_gt.1 (hmin p' q' hq'))⟩

private theorem bestAsk_eq_some {book : OrderBook} {ask : OrderBookLevel} (h : book.bestAsk = some ask) :
    ∃ q, book.level .sell ask.price = some q ∧ ∀ p' q', book.level .sell p' = some q' → ask.price ≤ p' := by
  rw [bestAsk, askLevels, List.head?_map] at h
  obtain ⟨⟨p, q⟩, hhead, rfl⟩ := Option.map_eq_some_iff.1 h
  obtain ⟨hq, hmin⟩ := head?_toList_eq_some hhead
  exact ⟨q, hq, fun p' q' hq' => compare_le_iff_le.1 (Ordering.isLE_iff_ne_gt.1 (hmin p' q' hq'))⟩

private theorem exists_bestBid {book : OrderBook} {p : ℚ} {q : List RestingOrder} (h : book.level .buy p = some q) :
    ∃ bid, book.bestBid = some bid := by
  cases hb : book.bestBid with
  | some bid => exact ⟨bid, rfl⟩
  | none =>
    rw [bestBid, bidLevels, List.head?_map, Option.map_eq_none_iff, List.head?_eq_none_iff,
      Std.ExtTreeMap.toList_eq_nil_iff] at hb
    rw [level, hb, Std.ExtTreeMap.getElem?_empty] at h
    cases h

private theorem exists_bestAsk {book : OrderBook} {p : ℚ} {q : List RestingOrder} (h : book.level .sell p = some q) :
    ∃ ask, book.bestAsk = some ask := by
  cases hb : book.bestAsk with
  | some ask => exact ⟨ask, rfl⟩
  | none =>
    rw [bestAsk, askLevels, List.head?_map, Option.map_eq_none_iff, List.head?_eq_none_iff,
      Std.ExtTreeMap.toList_eq_nil_iff] at hb
    rw [level, hb, Std.ExtTreeMap.getElem?_empty] at h
    cases h

/-- On a well-formed book the best prices decide for all resting orders. -/
private theorem Wf.uncrossed_iff {book : OrderBook} (hb : book.Wf) : book.Uncrossed ↔ book.Apart := by
  constructor
  · intro h b hb' a ha' hbuy hsell p q hp hq
    obtain ⟨p', l, hl, -, hbok⟩ := hb.exists_orderOk hb'
    obtain ⟨q', m, hm, -, haok⟩ := hb.exists_orderOk ha'
    rw [hbok.price_eq, Option.some.injEq] at hp
    rw [haok.price_eq, Option.some.injEq] at hq
    subst hp hq
    rw [hbuy] at hl
    rw [hsell] at hm
    obtain ⟨bid, hbid⟩ := exists_bestBid hl
    obtain ⟨ask, hask⟩ := exists_bestAsk hm
    obtain ⟨-, -, hbest⟩ := bestBid_eq_some hbid
    obtain ⟨-, -, hbest'⟩ := bestAsk_eq_some hask
    calc p' ≤ bid.price := hbest _ _ hl
      _ < ask.price := h bid ask hbid hask
      _ ≤ q' := hbest' _ _ hm
  · intro h bid ask hbid hask
    obtain ⟨l, hl, -⟩ := bestBid_eq_some hbid
    obtain ⟨m, hm, -⟩ := bestAsk_eq_some hask
    have hlok := hb.level _ _ _ hl
    have hmok := hb.level _ _ _ hm
    obtain ⟨b, hbl⟩ := List.exists_mem_of_ne_nil l hlok.nonempty
    obtain ⟨a, ham⟩ := List.exists_mem_of_ne_nil m hmok.nonempty
    exact h b (mem_resting.2 ⟨_, _, l, hl, hbl⟩) a (mem_resting.2 ⟨_, _, m, hm, ham⟩) (hlok.orders b hbl).side_eq
      (hmok.orders a ham).side_eq _ _ (hlok.orders b hbl).price_eq (hmok.orders a ham).price_eq

/-- A book whose resting orders have the requests of another's. -/
private theorem Apart.of_resting {book book' : OrderBook} (h : book.Apart)
    (hfrom : ∀ x ∈ book'.resting, ∃ o ∈ book.resting, o.request = x.request) : book'.Apart := by
  intro b hb a ha hbuy hsell p q hp hq
  obtain ⟨b', hb', hbreq⟩ := hfrom b hb
  obtain ⟨a', ha', hareq⟩ := hfrom a ha
  exact h b' hb' a' ha' (hbreq ▸ hbuy) (hareq ▸ hsell) p q (hbreq ▸ hp) (hareq ▸ hq)

/-- A new order whose price is strictly worse than every opposite order's keeps the sides apart. -/
theorem Apart.cons {book book' : OrderBook} (h : book.Apart) {o : RestingOrder}
    (hrest : book'.resting = o ::ₘ book.resting)
    (hbuy : o.request.side = .buy → ∀ a ∈ book.resting, a.request.side = .sell →
      ∀ p q, o.request.price = some p → a.request.price = some q → p < q)
    (hsell : o.request.side = .sell → ∀ b ∈ book.resting, b.request.side = .buy →
      ∀ p q, b.request.price = some p → o.request.price = some q → p < q) : book'.Apart := by
  intro b hb a ha hb' ha' p q hp hq
  rw [hrest, Multiset.mem_cons] at hb ha
  rcases hb with rfl | hb
  · rcases ha with rfl | ha
    · rw [hb'] at ha'
      cases ha'
    · exact hbuy hb' a ha ha' p q hp hq
  · rcases ha with rfl | ha
    · exact hsell ha' b hb hb' p q hp hq
    · exact h b hb a ha hb' ha' p q hp hq

end OrderBook

namespace MatchingEngine

/-! ### The books after a call -/

theorem submit_books (engine : MatchingEngine) (request : OrderRequest) :
    (engine.submit request).1.books = engine.books ∨
    (request.Acceptable ∧ (engine.submit request).1.books =
      engine.books.insert request.instrument.instrumentId (engine.restedBook request)) := by
  rcases engine.submit_cases request with ⟨reason, heq, -⟩ | ⟨heq, hacc⟩
  · rw [heq]
    exact .inl rfl
  · rw [heq]
    exact .inr ⟨hacc, (matchAndRest_frame engine request).books_eq⟩

private theorem cancel_books (engine : MatchingEngine) (orderId clientOrderId : String) :
    (engine.cancel orderId clientOrderId).1.books = engine.books ∨
    ∃ i book, engine.books[i]? = some book ∧ (book.cancelOrder orderId).1 = true ∧
      (engine.cancel orderId clientOrderId).1.books = engine.books.insert i (book.cancelOrder orderId).2 := by
  unfold cancel
  dsimp only
  split
  · exact .inl rfl
  · split
    · exact .inl rfl
    · split
      · rename_i book' hcancel
        obtain ⟨book, hbook, hcancel⟩ := Option.map_eq_some_iff.1 hcancel
        exact .inr ⟨_, book, hbook, by rw [hcancel], by rw [hcancel]⟩
      · exact .inl rfl

/-- On well-formed books a cancel leaves the books alone, or it takes one resting order out of one book. -/
theorem cancel_takes_resting {engine : MatchingEngine} (hb : BooksOk engine.books) (orderId clientOrderId : String) :
    (engine.cancel orderId clientOrderId).1.books = engine.books ∨
    ∃ i book book' o, engine.books[i]? = some book ∧ book'.Wf ∧ book'.instrument.instrumentId = i ∧
      book.resting = o ::ₘ book'.resting ∧
      (engine.cancel orderId clientOrderId).1.books = engine.books.insert i book' := by
  rcases cancel_books engine orderId clientOrderId with heq | ⟨i, book, hbook, hok, heq⟩
  · exact .inl heq
  · obtain ⟨hwf, hinst⟩ := hb i book hbook
    by_cases hr : ∃ o ∈ book.resting, o.orderId = orderId
    · obtain ⟨o, ho, rfl⟩ := hr
      obtain ⟨book', hcancel, hwf', hinst', hrest⟩ := OrderBook.cancelOrder_spec hwf ho
      rw [hcancel] at heq
      exact .inr ⟨i, book, book', o, hbook, hwf', (congrArg Instrument.instrumentId hinst').trans hinst, hrest, heq⟩
    · push Not at hr
      rw [OrderBook.cancelOrder_of_not_resting hwf.toIndexed hr] at hok
      cases hok

theorem restoreOpenOrder_books (engine : MatchingEngine) (orderId clientOrderId : String) (request : OrderRequest)
    (filledQuantity : ℚ) :
    (engine.restoreOpenOrder orderId clientOrderId request filledQuantity).books = engine.books ∨
    (engine.restoreOpenOrder orderId clientOrderId request filledQuantity).books =
      engine.books.insert request.instrument.instrumentId
        ((engine.bookFor request.instrument).addOrder request orderId clientOrderId filledQuantity).2 := by
  unfold restoreOpenOrder
  split
  · exact .inl rfl
  · split
    · exact .inl rfl
    · right
      split
      · rename_i heq
        rw [heq]
      · rename_i heq
        rw [heq]

private theorem restedBook_ok {engine : MatchingEngine} (hb : BooksOk engine.books) (request : OrderRequest) :
    (engine.restedBook request).Wf ∧
      (engine.restedBook request).instrument.instrumentId = request.instrument.instrumentId := by
  obtain ⟨es, fills, hrun⟩ := submitLoop_spec hb request
  obtain ⟨hwf, hinst⟩ := hrun.executes.wf (bookFor_ok hb request.instrument).1
  have hinst' : (engine.submitLoop request).1.book.instrument.instrumentId = request.instrument.instrumentId := by
    rw [hinst]
    exact (bookFor_ok hb request.instrument).2
  unfold restedBook
  dsimp only
  split
  · have hcall := hwf.call (.addOrder request engine.issuedOrderId (matchClientOrderId engine.nextClientOrderId)
      (submitFilled request (engine.submitLoop request).1))
    exact ⟨hcall.1, (congrArg Instrument.instrumentId hcall.2).trans hinst'⟩
  · exact ⟨hwf, hinst'⟩

/-- Every call keeps every book well formed, whatever the records say. -/
theorem booksOk_step {engine : MatchingEngine} (hb : BooksOk engine.books) (op : EngineOp) :
    BooksOk (machine.step engine op).1.books := by
  cases op with
  | submit request =>
    show BooksOk (engine.submit request).1.books
    rcases submit_books engine request with heq | ⟨-, heq⟩
    · rw [heq]
      exact hb
    · rw [heq]
      exact hb.insert (restedBook_ok hb request).1 (restedBook_ok hb request).2
  | cancel orderId clientOrderId =>
    show BooksOk (engine.cancel orderId clientOrderId).1.books
    rcases cancel_takes_resting hb orderId clientOrderId with heq | ⟨i, book, book', o, -, hwf, hinst, -, heq⟩
    · rw [heq]
      exact hb
    · rw [heq]
      exact hb.insert hwf hinst
  | processMarketEvent event =>
    show BooksOk (engine.processMarketEvent event).1.books
    rcases processMarketEvent_spec hb event with heq | ⟨book, es, hbook, hrun, heq⟩
    · rw [heq]
      exact hb
    · obtain ⟨hwf, hinst⟩ := hrun.executes.wf (hb _ book hbook).1
      rw [heq]
      exact hb.insert hwf ((congrArg Instrument.instrumentId hinst).trans (hb _ book hbook).2)
  | restoreOpenOrder orderId clientOrderId request filledQuantity =>
    show BooksOk (engine.restoreOpenOrder orderId clientOrderId request filledQuantity).books
    have hfor := bookFor_ok hb request.instrument
    rcases restoreOpenOrder_books engine orderId clientOrderId request filledQuantity with heq | heq
    · rw [heq]
      exact hb
    · have hcall := hfor.1.call (.addOrder request orderId clientOrderId filledQuantity)
      rw [heq]
      exact hb.insert hcall.1 ((congrArg Instrument.instrumentId hcall.2).trans hfor.2)

theorem booksOk_run (ops : List EngineOp) : BooksOk (machine.run {} ops).books := by
  have hok : machine.Admissible (fun _ _ => True) {} ops := Machine.admissible_of_forall (fun _ _ _ => trivial) _
  exact Machine.invariant (P := fun engine : MatchingEngine => BooksOk engine.books)
    (fun engine op _ hb => booksOk_step hb op) hok empty_booksOk

/-! ### Uncrossed books -/

/-- No book of the engine is crossed. -/
def Uncrossed (engine : MatchingEngine) : Prop :=
  ∀ i book, engine.findBook i = some book → book.Uncrossed

/-- The loop of `submit` leaves no opposite order that crosses, unless it has used the new order up. -/
private theorem not_crosses_after_loop {engine : MatchingEngine} (hb : BooksOk engine.books) {request : OrderRequest}
    (hq : kQuantityTolerance < (engine.submitLoop request).1.quantity) :
    ∀ o ∈ (engine.submitLoop request).1.book.resting, o.request.side = request.side.opposite →
      ∀ p q, request.price = some p → o.request.price = some q → ¬ request.side.AtLeastAsGood p q := by
  obtain ⟨es, fills, hrun⟩ := submitLoop_spec hb request
  have hwf := (hrun.executes.wf (bookFor_ok hb request.instrument).1).1
  have hstop : (engine.submitLoop request).2 = .noMatch := by
    cases hs : (engine.submitLoop request).2 with
    | exhausted => exact absurd (hrun.exhausted hs) (not_le.2 hq)
    | noMatch => rfl
    | fillFailed => exact absurd hs hrun.not_failed
    | outOfFuel => exact absurd hs (submitLoop_ne_outOfFuel engine request)
  intro o ho hside p q hp hq' hgood
  cases hbest : (engine.submitLoop request).1.book.bestOrder request.side.opposite with
  | none => exact hwf.bestOrder_eq_none hbest o ho hside
  | some best =>
    obtain ⟨-, -, p', hp', hmin⟩ := hwf.bestOrder_spec hbest
    have hle := hmin o ho hside q hq'
    have hno : (!crosses request best) = true := hrun.noMatch hstop best hbest
    rw [Bool.not_eq_true', Bool.eq_false_iff] at hno
    refine hno ((crosses_iff hp).2 ⟨p', hp', ?_⟩)
    cases hs : request.side with
    | buy =>
      rw [hs] at hle hgood
      exact le_trans hle hgood
    | sell =>
      rw [hs] at hle hgood
      exact le_trans hgood hle

private theorem restedBook_apart {engine : MatchingEngine} (hb : BooksOk engine.books) {request : OrderRequest}
    (h : (engine.bookFor request.instrument).Apart) : (engine.restedBook request).Apart := by
  obtain ⟨es, fills, hrun⟩ := submitLoop_spec hb request
  have hfor := (bookFor_ok hb request.instrument).1
  have hwf := (hrun.executes.wf hfor).1
  have hloop : (engine.submitLoop request).1.book.Apart := by
    refine h.of_resting fun x hx => ?_
    obtain ⟨o, ho, -, hreq⟩ := (hrun.executes.resting_from hfor).2 x hx
    exact ⟨o, ho, hreq⟩
  unfold restedBook
  dsimp only
  split
  · rename_i hq
    have hno := not_crosses_after_loop hb hq
    cases hc : (engine.submitLoop request).1.book.isRequestCompatible request engine.issuedOrderId
        (matchClientOrderId engine.nextClientOrderId) (submitFilled request (engine.submitLoop request).1) with
    | false =>
      rw [OrderBook.addOrder_of_not_compatible hc]
      exact hloop
    | true =>
      obtain ⟨book', hadd, -, -, hrest⟩ := OrderBook.addOrder_spec hwf hc
      rw [hadd]
      refine hloop.cons hrest ?_ ?_
      · intro hside a ha ha' p q hp hq'
        have hside' : request.side = .buy := hside
        exact lt_of_not_ge fun hle => hno a ha (by rw [ha', hside']; rfl) p q hp hq' (by rw [hside']; exact hle)
      · intro hside b hb' hb'' p q hp hq'
        have hside' : request.side = .sell := hside
        exact lt_of_not_ge fun hle => hno b hb' (by rw [hb'', hside']; rfl) q p hq' hp (by rw [hside']; exact hle)
  · exact hloop

theorem Uncrossed.insert {engine engine' : MatchingEngine} (h : engine.Uncrossed) {i : String} {book : OrderBook}
    (hbook : book.Uncrossed) (heq : engine'.books = engine.books.insert i book) : engine'.Uncrossed := by
  intro j b hb
  rw [findBook, heq] at hb
  exact KeyedMap.forall_insert h hbook j b hb

theorem Uncrossed.congr {engine engine' : MatchingEngine} (h : engine.Uncrossed)
    (heq : engine'.books = engine.books) : engine'.Uncrossed := by
  intro j b hb
  rw [findBook, heq] at hb
  exact h j b hb

private theorem bookFor_uncrossed {engine : MatchingEngine} (h : engine.Uncrossed) (instrument : Instrument) :
    (engine.bookFor instrument).Uncrossed := by
  unfold bookFor
  cases hb : engine.books[instrument.instrumentId]? with
  | none =>
    intro bid ask hbid
    obtain ⟨q, hq, -⟩ := OrderBook.bestBid_eq_some hbid
    simp [OrderBook.level] at hq
  | some book => exact h _ book hb

/-- A call that does not restore an order crosses no book. -/
private theorem uncrossed_step {engine : MatchingEngine} (hb : BooksOk engine.books) (h : engine.Uncrossed)
    {op : EngineOp} (hop : op.isRestore = false) : (machine.step engine op).1.Uncrossed := by
  cases op with
  | submit request =>
    show (engine.submit request).1.Uncrossed
    rcases submit_books engine request with heq | ⟨-, heq⟩
    · exact h.congr heq
    · have hapart := restedBook_apart hb
        ((bookFor_ok hb request.instrument).1.uncrossed_iff.1 (bookFor_uncrossed h request.instrument))
      exact h.insert ((restedBook_ok hb request).1.uncrossed_iff.2 hapart) heq
  | cancel orderId clientOrderId =>
    show (engine.cancel orderId clientOrderId).1.Uncrossed
    rcases cancel_takes_resting hb orderId clientOrderId with heq | ⟨i, book, book', o, hbook, hwf, -, hrest, heq⟩
    · exact h.congr heq
    · refine h.insert (hwf.uncrossed_iff.2 ?_) heq
      refine ((hb i book hbook).1.uncrossed_iff.1 (h i book hbook)).of_resting fun x hx => ⟨x, ?_, rfl⟩
      rw [hrest]
      exact Multiset.mem_cons_of_mem hx
  | processMarketEvent event =>
    show (engine.processMarketEvent event).1.Uncrossed
    rcases processMarketEvent_spec hb event with heq | ⟨book, es, hbook, hrun, heq⟩
    · rw [heq]
      exact h
    · -- executions only shrink or remove orders, and fewer orders on a side cannot cross
      have hwf := (hb _ book hbook).1
      rw [heq]
      refine h.insert ((hrun.executes.wf hwf).1.uncrossed_iff.2 ?_) rfl
      refine (hwf.uncrossed_iff.1 (h _ book hbook)).of_resting fun x hx => ?_
      obtain ⟨o, ho, -, hreq⟩ := (hrun.executes.resting_from hwf).2 x hx
      exact ⟨o, ho, hreq⟩
  | restoreOpenOrder => cases hop

/-- From a reachable engine whose books are uncrossed, no run of `submit`, `cancel` and `process_market_event` calls
crosses a book. -/
theorem uncrossed_run (setup ops : List EngineOp) (hops : ∀ op ∈ ops, op.isRestore = false)
    (h : (machine.run {} setup).Uncrossed) : (machine.run (machine.run {} setup) ops).Uncrossed := by
  have hok : machine.Admissible (fun _ op => op.isRestore = false) (machine.run {} setup) ops :=
    Machine.admissible_of_forall (fun op hop _ => hops op hop) _
  refine (Machine.invariant (P := fun engine : MatchingEngine => BooksOk engine.books ∧ engine.Uncrossed) ?_ hok
    ⟨booksOk_run setup, h⟩).2
  rintro engine op hop ⟨hb, hu⟩
  exact ⟨booksOk_step hb op, uncrossed_step hb hu hop⟩

theorem uncrossed_run_exampleRun :
    (machine.run (machine.run {} [])
      [.submit (exampleRequest .sell 2 100), .submit (exampleRequest .buy 3 101)]).Uncrossed :=
  uncrossed_run [] _ (by decide) (fun i book hbook => by simp [findBook] at hbook)

end MatchingEngine

end Wall
