import Wall.EngineRuns

/-!
# Terminal orders stay terminal

A record only moves forward (`OrderRecord.Evolves`) and a call emits fills of the new order and of open orders
alone, so along a run a terminal order is never touched again.
-/

namespace Wall

namespace MatchingEngine

theorem ordersEvolve_run {engine : MatchingEngine} {ops : List EngineOp}
    (h : machine.Admissible (fun engine op => engine.Sync ∧ op.Fresh engine) engine ops) :
    OrdersEvolve engine.orders (machine.run engine ops).orders := by
  refine Machine.invariant (P := fun next : MatchingEngine => OrdersEvolve engine.orders next.orders) ?_ h (.refl _)
  intro next op hok he
  exact he.trans (hok.1.ordersEvolve_step hok.2)

private theorem terminal_run {engine : MatchingEngine} {ops : List EngineOp}
    (h : machine.Admissible (fun engine op => engine.Sync ∧ op.Fresh engine) engine ops) {id : String}
    {r : OrderRecord} (hr : engine.orders[id]? = some r) (ht : r.status.isTerminal = true) :
    (machine.run engine ops).orders[id]? = some r := by
  obtain ⟨r', hr', he⟩ := ordersEvolve_run h id r hr
  rw [hr', he.terminal ht]

/-- Along a run with fresh restores the filled quantity of a tracked order never decreases, and once an order is
filled, canceled or rejected its record stays as it is and no result has a fill of it. -/
theorem ordersFinal_run (ops later : List EngineOp) (h : RestoresFresh {} (ops ++ later)) :
    let engine := machine.run {} ops
    ∀ id r, engine.getOrder id = some r →
      (∃ r', (machine.run engine later).getOrder id = some r' ∧ r.filledQuantity ≤ r'.filledQuantity) ∧
      (r.status = .filled ∨ r.status = .canceled ∨ r.status = .rejected →
        (machine.run engine later).getOrder id = some r ∧
        ∀ result ∈ machine.outputs engine later, ∀ fill ∈ result.fills, fill.orderId ≠ id) := by
  intro engine id r hr
  obtain ⟨-, hlater⟩ := machine.admissible_append.1 h.admissible_empty
  refine ⟨?_, fun hst => ?_⟩
  · obtain ⟨r', hr', he⟩ := ordersEvolve_run hlater id r hr
    exact ⟨r', hr', he.filled_le⟩
  · have ht : r.status.isTerminal = true := by
      rcases hst with hst | hst | hst <;> rw [hst] <;> rfl
    refine ⟨terminal_run hlater hr ht, ?_⟩
    refine Machine.forall_outputs (P := fun next : MatchingEngine => next.orders[id]? = some r) ?_ ?_ hlater hr
    · intro next op hok hnext
      obtain ⟨r', hr', he⟩ := hok.1.ordersEvolve_step hok.2 id r hnext
      rw [hr', he.terminal ht]
    · intro next op hok hnext fill hfill hid
      rcases hok.1.fills_step hok.2 fill hfill with hnew | ⟨r', hr', hopen⟩
      · have hnone := hok.2 _ hnew
        rw [hid, hnext] at hnone
        cases hnone
      · rw [hid, hnext, Option.some.injEq] at hr'
        rw [← hr'] at hopen
        rw [OrderStatus.isOpen_not_isTerminal hopen] at ht
        cases ht

end MatchingEngine

end Wall
