import Wall.Finality
import Wall.RoundedCalls
import Wall.NumberFormats

/-!
# Terminal orders in rounded arithmetic

In a run of calls that leave no order in a book whose record they close (`KeepsOpen`), records only move forward and
fills are of new and of open orders, so a terminal order is never touched again (`terminal_orders_final`).  A call that
does leave one is where finality ends: the next market event that reaches the order fills it although it is terminal
(`filled_order_filled_again`).  In exact arithmetic no condition is needed (`exact_orders_final`).
-/

namespace Wall

open Rounding

namespace Rounded

/-! ### Runs -/

/-- No restored id is tracked when it is restored, or issued by a later `submit` of the run. -/
def RestoresFresh (rnd : ℚ → ℚ) : MatchingEngine → List EngineOp → Prop
  | _, [] => True
  | engine, op :: ops =>
    (match op with
      | .restoreOpenOrder orderId _ _ _ => engine.orders[orderId]? = none ∧
        ∀ k < (ops.map issues).sum, matchOrderId (engine.nextOrderId + k) ≠ orderId
      | _ => True) ∧
    RestoresFresh rnd ((machine rnd).step engine op).1 ops

/-- Over the later calls the filled quantity of a tracked order never decreases, and once an order is filled, canceled
or rejected its record stays as it is and no result has a fill of it. -/
def OrdersFinal (rnd : ℚ → ℚ) (engine : MatchingEngine) (later : List EngineOp) : Prop :=
  ∀ id r, engine.getOrder id = some r →
    (∃ r', ((machine rnd).run engine later).getOrder id = some r' ∧ r.filledQuantity ≤ r'.filledQuantity) ∧
    (r.status = .filled ∨ r.status = .canceled ∨ r.status = .rejected →
      ((machine rnd).run engine later).getOrder id = some r ∧
      ∀ result ∈ (machine rnd).outputs engine later, ∀ fill ∈ result.fills, fill.orderId ≠ id)

/-- A call on an engine whose resting orders are open, allowed as `Tracked.step` asks. -/
structure Allowed (rnd : ℚ → ℚ) (engine : MatchingEngine) (op : EngineOp) : Prop where
  tracked : Tracked rnd engine
  fresh : op.Fresh engine
  represented : Represented {x | rnd x = x} op
  keeps : KeepsOpen rnd engine op

section Runs

variable {rnd : ℚ → ℚ} (hrnd : Monotone rnd) (h0 : rnd 0 = 0) (hidem : ∀ x, rnd (rnd x) = rnd x)
include hrnd h0 hidem

theorem Allowed.step {engine : MatchingEngine} {op : EngineOp} (h : Allowed rnd engine op) :
    StepEffect rnd engine op ((machine rnd).step engine op) :=
  h.tracked.step hrnd h0 hidem h.fresh h.represented h.keeps

/-- Along a run that restores fresh ids no call reuses an id. -/
theorem RestoresFresh.admissible {engine : MatchingEngine} {ops : List EngineOp} (h : RestoresFresh rnd engine ops)
    (hs : Tracked rnd engine)
    (hids : ∀ k < (ops.map issues).sum, engine.orders[matchOrderId (engine.nextOrderId + k)]? = none)
    (hrepresented : ∀ op ∈ ops, Represented {x | rnd x = x} op)
    (hkeeps : (machine rnd).Admissible (KeepsOpen rnd) engine ops) :
    (machine rnd).Admissible (Allowed rnd) engine ops := by
  induction ops generalizing engine with
  | nil => trivial
  | cons op ops ih =>
    rw [List.map_cons, List.sum_cons] at hids
    have hfresh : op.Fresh engine := by
      intro id hid
      cases op with
      | submit request =>
        cases hid
        exact hids 0 (Nat.lt_add_right _ Nat.zero_lt_one)
      | restoreOpenOrder =>
        cases hid
        exact h.1.1
      | cancel => cases hid
      | processMarketEvent => cases hid
    have hallowed : Allowed rnd engine op := ⟨hs, hfresh, hrepresented op (List.mem_cons_self ..), hkeeps.1⟩
    have hstep := hallowed.step hrnd h0 hidem
    refine ⟨hallowed, ih h.2 hstep.tracked (fun k hk => ?_)
      (fun op' hop' => hrepresented op' (List.mem_cons_of_mem _ hop')) hkeeps.2⟩
    -- the ids still to be issued were to be issued before, and the call did not take one of them
    rw [hstep.nextOrderId_eq, Nat.add_assoc]
    refine hstep.untracked _ (hids _ (Nat.add_lt_add_left hk _)) fun hnew => ?_
    cases op with
    | submit request =>
      have heq := MatchingEngine.matchOrderId_injective (Option.some.inj hnew)
      simp only [issues] at heq
      omega
    | restoreOpenOrder =>
      have heq := Option.some.inj hnew
      simp only [issues, Nat.zero_add] at heq
      exact h.1.2 k hk heq.symm
    | cancel => cases hnew
    | processMarketEvent => cases hnew

theorem ordersEvolve_run {engine : MatchingEngine} {ops : List EngineOp}
    (h : (machine rnd).Admissible (Allowed rnd) engine ops) :
    OrdersEvolve engine.orders ((machine rnd).run engine ops).orders := by
  refine Machine.invariant (P := fun next : MatchingEngine => OrdersEvolve engine.orders next.orders) ?_ h (.refl _)
  intro next op hok he
  exact he.trans (hok.step hrnd h0 hidem).evolve

/-- Over allowed calls the tracked orders are final. -/
private theorem ordersFinal_of_allowed {engine : MatchingEngine} {later : List EngineOp}
    (h : (machine rnd).Admissible (Allowed rnd) engine later) : OrdersFinal rnd engine later := by
  intro id r hr
  obtain ⟨r', hr', he⟩ := ordersEvolve_run hrnd h0 hidem h id r hr
  refine ⟨⟨r', hr', he.filled_le⟩, fun hst => ?_⟩
  have ht : r.status.isTerminal = true := by
    rcases hst with hst | hst | hst <;> rw [hst] <;> rfl
  refine ⟨by rw [← he.terminal ht]; exact hr', ?_⟩
  refine Machine.forall_outputs (P := fun next : MatchingEngine => next.orders[id]? = some r) ?_ ?_ h hr
  · intro next op hok hnext
    obtain ⟨r', hr', he⟩ := (hok.step hrnd h0 hidem).evolve id r hnext
    rw [hr', he.terminal ht]
  · intro next op hok hnext fill hfill hid
    rcases (hok.step hrnd h0 hidem).fills fill hfill with hnew | ⟨r', hr', hopen⟩
    · have hnone := hok.fresh _ hnew
      rw [hid, hnext] at hnone
      cases hnone
    · rw [hid, hnext, Option.some.injEq] at hr'
      rw [← hr'] at hopen
      rw [OrderStatus.isOpen_not_isTerminal hopen] at ht
      cases ht

end Runs

/-- For doubles, or any other numbers that results are rounded to a nearest one of: in a run with fresh restores of
calls that close no order they leave in a book, terminal orders are final. -/
theorem terminal_orders_final {s : Set ℚ} {rnd : ℚ → ℚ} (hrnd : IsNearest s rnd) (h0 : (0 : ℚ) ∈ s)
    (ops later : List EngineOp) (hfresh : RestoresFresh rnd {} (ops ++ later))
    (hrepresented : ∀ op ∈ ops ++ later, Represented s op)
    (hkeeps : (machine rnd).Admissible (KeepsOpen rnd) {} (ops ++ later)) :
    OrdersFinal rnd ((machine rnd).run {} ops) later := by
  have hzero : rnd 0 = 0 := hrnd.fixed_iff.2 h0
  have hidem : ∀ x, rnd (rnd x) = rnd x := fun x => hrnd.fixed_iff.2 (hrnd.mem x)
  have hset : s = {x | rnd x = x} := Set.ext fun x => hrnd.fixed_iff.symm
  rw [hset] at hrepresented
  have hallowed := hfresh.admissible hrnd.monotone hzero hidem (tracked_empty rnd) (fun _ _ => rfl) hrepresented hkeeps
  exact ordersFinal_of_allowed hrnd.monotone hzero hidem ((machine rnd).admissible_append.1 hallowed).2

/-- Without rounding terminal orders are final in every run with fresh restores. -/
theorem exact_orders_final (ops later : List EngineOp) (h : MatchingEngine.RestoresFresh {} (ops ++ later)) :
    OrdersFinal id ((machine id).run {} ops) later := by
  rw [OrdersFinal, machine_id]
  exact MatchingEngine.ordersFinal_run ops later h

open MatchingEngine in
theorem exact_orders_final_exampleRun :
    let ops : List EngineOp := [.submit (exampleRequest .sell 2 100), .cancel "match-order-1" ""]
    let later : List EngineOp := [.restoreOpenOrder "old-1" "client-1" (exampleRequest .sell 2 100) 1,
      .submit (exampleRequest .buy 3 101)]
    OrdersFinal id ((Rounded.machine id).run {} ops) later :=
  exact_orders_final _ _ ⟨trivial, trivial, ⟨by decide +kernel, by decide +kernel⟩, trivial, trivial⟩

/-! ### Runs on doubles -/

instance (rnd : ℚ → ℚ) : DecidablePred (LoopStep.KeepsOpen rnd) := fun step =>
  inferInstanceAs (Decidable (_ < step.remaining rnd → ∀ r ∈ step.record, (fillRecord rnd r step.executed).status ≠ _))

instance (rnd : ℚ → ℚ) (engine : MatchingEngine) (request : OrderRequest) :
    Decidable (RestsOpen rnd engine request) :=
  inferInstanceAs (Decidable (_ < _ → _ < _ → _ < |_|))

instance (rnd : ℚ → ℚ) (engine : MatchingEngine) : DecidablePred (KeepsOpen rnd engine)
  | .submit request => inferInstanceAs (Decidable (request.Acceptable → _ ∧ _))
  | .processMarketEvent event => inferInstanceAs (Decidable (∀ book ∈ engine.books[event.instrument.instrumentId]?, _))
  | .cancel _ _ => instDecidableTrue
  | .restoreOpenOrder _ _ _ _ => instDecidableTrue

instance (s : Set ℚ) [DecidablePred (· ∈ s)] : DecidablePred (Represented s)
  | .submit request => inferInstanceAs (Decidable (request.quantity ∈ s))
  | .cancel _ _ => instDecidableTrue
  | .processMarketEvent _ => instDecidableTrue
  | .restoreOpenOrder _ _ request filledQuantity =>
    inferInstanceAs (Decidable (request.quantity ∈ s ∧ filledQuantity ∈ s))

/-- An event with one ask level at `100`, of the double nearest to `quantity`. -/
def exampleEvent (quantity : ℚ) : MarketEvent where
  instrument := (MatchingEngine.exampleRequest .buy 1 100).instrument
  askLevels := [⟨100, toDouble quantity⟩]

/-- A buy order of `0.3` that levels of `0.1` and `0.2` fill, while a restored order is canceled. -/
theorem terminal_orders_final_exampleRun :
    OrdersFinal toDouble
      ((machine toDouble).run {} [.submit (MatchingEngine.exampleRequest .buy (toDouble (3 / 10)) 100),
        .restoreOpenOrder "old-1" "client-1" (MatchingEngine.exampleRequest .sell 2 101) 1, .cancel "old-1" ""])
      [.processMarketEvent (exampleEvent (1 / 10)), .processMarketEvent (exampleEvent (1 / 5))] :=
  terminal_orders_final nearest_toDouble zero_mem_doubles _ _
    ⟨trivial, ⟨by decide +kernel, by decide +kernel⟩, trivial, trivial, trivial, trivial⟩ (by decide +kernel)
    (by decide +kernel)

/-- `1.5` are bought and `1.499999999` sold: slightly more than `1e-9` remains in the book, but the record is within
`1e-9` of the quantity after rounding and so is filled.  The next level fills the filled order. -/
theorem filled_order_filled_again :
    ¬ OrdersFinal toDouble
      ((machine toDouble).run {} [.submit (MatchingEngine.exampleRequest .buy (3 / 2) 100),
        .processMarketEvent (exampleEvent (1499999999 / 1000000000))])
      [.processMarketEvent (exampleEvent 1)] := by
  intro hfinal
  have hrecord : (((machine toDouble).run {} [.submit (MatchingEngine.exampleRequest .buy (3 / 2) 100),
      .processMarketEvent (exampleEvent (1499999999 / 1000000000))]).getOrder "match-order-1").map
        OrderRecord.status = some .filled := by decide +kernel
  obtain ⟨r, hr, hstatus⟩ := Option.map_eq_some_iff.1 hrecord
  have hfills := ((hfinal "match-order-1" r hr).2 (.inl hstatus)).2
  revert hfills
  decide +kernel

end Rounded

end Wall
