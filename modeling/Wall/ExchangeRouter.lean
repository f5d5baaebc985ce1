import Wall.SimulatedExecutionEngine
import Wall.Lib.Projection

/-!
# The execution router

`ExchangeExecutionRouter` of `exchange/exchange_router.cpp`, over the interface `IExchangeExecutionAdapter`: what stands
for the adapter objects is a parameter.  A call of an exchange that no adapter is registered for is rejected.

Exchanges do not disturb each other (`exchanges_isolated`): what an exchange answers is what its adapter would answer
alone, and does not depend on how its calls are mixed with those of other exchanges.
-/

namespace Wall

open KeyedMap Interleaving

/-- What the router calls of an adapter object. -/
structure ExchangeExecutionAdapter (σ : Type*) where
  submit : σ → OrderRequest → σ × ExecutionResult
  cancel : σ → (orderId clientOrderId : String) → σ × ExecutionResult

structure ExchangeExecutionRouter (σ : Type*) where
  adapters : StringMap σ := ∅

namespace ExchangeExecutionRouter

variable {σ : Type*}

/-- The null pointer is none. -/
def registerAdapter (router : ExchangeExecutionRouter σ) (exchangeName : String) (adapter : Option σ) :
    ExchangeExecutionRouter σ :=
  match adapter with
  | some adapter =>
    if exchangeName ≠ "" then { router with adapters := router.adapters.insert exchangeName adapter } else router
  | none => router

def missingExchangeResult (exchangeName clientOrderId orderId : String) : ExecutionResult where
  orderId := orderId
  clientOrderId := clientOrderId
  updates := [makeUpdate orderId clientOrderId .rejected 0
    (some ("no execution adapter registered for exchange " ++ exchangeName))]

variable (interface : ExchangeExecutionAdapter σ) (router : ExchangeExecutionRouter σ)

def submit (request : OrderRequest) : ExchangeExecutionRouter σ × ExecutionResult :=
  match router.adapters[request.instrument.exchange]? with
  | none => (router, missingExchangeResult request.instrument.exchange "" request.requestId)
  | some adapter =>
    let (adapter, result) := interface.submit adapter request
    ({ router with adapters := router.adapters.insert request.instrument.exchange adapter }, result)

def cancel (exchangeName orderId clientOrderId : String) : ExchangeExecutionRouter σ × ExecutionResult :=
  match router.adapters[exchangeName]? with
  | none => (router, missingExchangeResult exchangeName clientOrderId orderId)
  | some adapter =>
    let (adapter, result) := interface.cancel adapter orderId clientOrderId
    ({ router with adapters := router.adapters.insert exchangeName adapter }, result)

/-- The names are sorted, which the keys of a map are. -/
def registeredExchanges : List String := router.adapters.keys

end ExchangeExecutionRouter

/-- A call on the router. -/
inductive RouterCall (σ : Type*)
  | registerAdapter (exchangeName : String) (adapter : Option σ)
  | submit (request : OrderRequest)
  | cancel (exchangeName orderId clientOrderId : String)

/-- The exchange that a call is for. -/
def RouterCall.exchange {σ : Type*} : RouterCall σ → String
  | .registerAdapter exchangeName _ => exchangeName
  | .submit request => request.instrument.exchange
  | .cancel exchangeName _ _ => exchangeName

namespace ExchangeExecutionRouter

variable {σ : Type*} (interface : ExchangeExecutionAdapter σ)

/-- The router as a machine; a registration returns nothing. -/
def machine : Machine (ExchangeExecutionRouter σ) (RouterCall σ) (Option ExecutionResult) where
  step router
    | .registerAdapter exchangeName adapter => (router.registerAdapter exchangeName adapter, none)
    | .submit request => let (router, result) := router.submit interface request; (router, some result)
    | .cancel exchangeName orderId clientOrderId =>
      let (router, result) := router.cancel interface exchangeName orderId clientOrderId
      (router, some result)

/-- One exchange alone: its adapter, once there is one, and the calls that are for it. -/
def exchangeMachine : Machine (Option σ) (RouterCall σ) (Option ExecutionResult) where
  step adapter
    | .registerAdapter exchangeName registered => (if exchangeName = "" then adapter else registered.or adapter, none)
    | .submit request =>
      match adapter with
      | none => (none, some (missingExchangeResult request.instrument.exchange "" request.requestId))
      | some adapter => (some (interface.submit adapter request).1, some (interface.submit adapter request).2)
    | .cancel exchangeName orderId clientOrderId =>
      match adapter with
      | none => (none, some (missingExchangeResult exchangeName clientOrderId orderId))
      | some adapter =>
        (some (interface.cancel adapter orderId clientOrderId).1,
          some (interface.cancel adapter orderId clientOrderId).2)

private theorem getElem?_registerAdapter (router : ExchangeExecutionRouter σ) (exchangeName : String)
    (adapter : Option σ) (exchange : String) :
    (router.registerAdapter exchangeName adapter).adapters[exchange]? =
      if exchangeName = exchange ∧ exchangeName ≠ "" then adapter.or router.adapters[exchange]?
      else router.adapters[exchange]? := by
  unfold registerAdapter
  cases adapter with
  | none => simp
  | some adapter =>
    by_cases hempty : exchangeName = ""
    · simp [hempty]
    · have hinsert := getElem?_insert router.adapters exchangeName adapter exchange
      simp only [ne_eq, hempty, not_false_eq_true, ↓reduceIte, and_true, Option.some_or]
      exact hinsert

/-- A call changes the adapter of its exchange, as the exchange alone would, and no other adapter. -/
private theorem actsAt (exchange : String) :
    Machine.ActsAt (machine interface) (exchangeMachine interface) RouterCall.exchange exchange
      fun router => router.adapters[exchange]? where
  own router call hexchange := by
    cases call with
    -- a registration without a name or an adapter changes nothing
    | registerAdapter exchangeName adapter =>
      have hname : exchangeName = exchange := hexchange
      refine ⟨?_, rfl⟩
      show (router.registerAdapter exchangeName adapter).adapters[exchange]? =
        if exchangeName = "" then router.adapters[exchange]? else adapter.or router.adapters[exchange]?
      rw [getElem?_registerAdapter]
      simp [hname]
    | submit request =>
      have hname : request.instrument.exchange = exchange := hexchange
      dsimp only [machine, exchangeMachine, submit]
      rw [hname]
      cases hadapter : router.adapters[exchange]? with
      | none => exact ⟨hadapter, rfl⟩
      | some adapter => exact ⟨by simp, rfl⟩
    | cancel exchangeName orderId clientOrderId =>
      have hname : exchangeName = exchange := hexchange
      subst hname
      dsimp only [machine, exchangeMachine, cancel]
      cases hadapter : router.adapters[exchangeName]? with
      | none => exact ⟨hadapter, rfl⟩
      | some adapter => exact ⟨by simp, rfl⟩
  other router call hexchange := by
    cases call with
    | registerAdapter exchangeName adapter =>
      have hne : exchangeName ≠ exchange := hexchange
      show (router.registerAdapter exchangeName adapter).adapters[exchange]? = _
      rw [getElem?_registerAdapter, if_neg fun h => hne h.1]
    | submit request =>
      have hne : request.instrument.exchange ≠ exchange := hexchange
      dsimp only [machine, submit]
      cases router.adapters[request.instrument.exchange]? with
      | none => rfl
      | some adapter => exact (getElem?_insert ..).trans (if_neg hne)
    | cancel exchangeName orderId clientOrderId =>
      have hne : exchangeName ≠ exchange := hexchange
      dsimp only [machine, cancel]
      cases router.adapters[exchangeName]? with
      | none => rfl
      | some adapter => exact (getElem?_insert ..).trans (if_neg hne)

/-- Adapters are registered by nothing else, and stay registered. -/
private theorem isSome_step (router : ExchangeExecutionRouter σ) (call : RouterCall σ) (exchange : String) :
    ((machine interface).step router call).1.adapters[exchange]?.isSome = true ↔
      router.adapters[exchange]?.isSome = true ∨
        exchange ≠ "" ∧ ∃ adapter, call = .registerAdapter exchange (some adapter) := by
  by_cases hexchange : call.exchange = exchange
  · rw [((actsAt interface exchange).own router call hexchange).1]
    cases call with
    | registerAdapter exchangeName adapter =>
      obtain rfl : exchangeName = exchange := hexchange
      show (if exchangeName = "" then router.adapters[exchangeName]? else
        adapter.or router.adapters[exchangeName]?).isSome = true ↔ _
      by_cases hempty : exchangeName = ""
      · simp [hempty]
      · cases adapter <;> simp [hempty]
    | submit request => cases router.adapters[exchange]? <;> simp [exchangeMachine]
    | cancel exchangeName orderId clientOrderId => cases router.adapters[exchange]? <;> simp [exchangeMachine]
  · rw [(actsAt interface exchange).other router call hexchange]
    constructor
    · exact .inl
    · rintro (h | ⟨-, adapter, rfl⟩)
      · exact h
      · exact absurd rfl hexchange

private theorem mem_registeredExchanges (calls : List (RouterCall σ)) (exchange : String) :
    exchange ∈ ((machine interface).run {} calls).registeredExchanges ↔
      exchange ≠ "" ∧ ∃ adapter, .registerAdapter exchange (some adapter) ∈ calls := by
  rw [registeredExchanges, Std.ExtTreeMap.mem_keys, Std.ExtTreeMap.mem_iff_isSome_getElem?]
  induction calls using List.reverseRecOn with
  | nil => simp [Machine.run]
  | append_singleton calls call ih =>
    rw [Machine.run_append]
    refine (isSome_step interface _ call exchange).trans ?_
    rw [ih]
    constructor
    · rintro (⟨hne, adapter, hmem⟩ | ⟨hne, adapter, rfl⟩)
      · exact ⟨hne, adapter, List.mem_append_left _ hmem⟩
      · exact ⟨hne, adapter, List.mem_append_right _ (List.mem_singleton_self _)⟩
    · rintro ⟨hne, adapter, hmem⟩
      rcases List.mem_append.1 hmem with hmem | hmem
      · exact .inl ⟨hne, adapter, hmem⟩
      · exact .inr ⟨hne, adapter, (List.mem_singleton.1 hmem).symm⟩

end ExchangeExecutionRouter

open ExchangeExecutionRouter in
/-- After any calls on an empty router, the adapter of an exchange and the answers to its calls are what the exchange
alone gets from its own calls; an exchange is listed, in order, exactly if an adapter was registered under its name and
the name is not empty.  So two runs in which every exchange gets the same calls end alike and give every exchange the
same answers. -/
theorem exchanges_isolated {σ : Type*} (interface : ExchangeExecutionAdapter σ) (calls : List (RouterCall σ)) :
    (∀ exchange,
      ((machine interface).run {} calls).adapters[exchange]? =
        (exchangeMachine interface).run none (ofKey RouterCall.exchange exchange calls) ∧
      (machine interface).outputsAt RouterCall.exchange exchange {} calls =
        (exchangeMachine interface).outputs none (ofKey RouterCall.exchange exchange calls) ∧
      (exchange ∈ ((machine interface).run {} calls).registeredExchanges ↔
        exchange ≠ "" ∧ ∃ adapter, .registerAdapter exchange (some adapter) ∈ calls)) ∧
    ((machine interface).run {} calls).registeredExchanges.Pairwise (fun a b => compare a b = .lt) ∧
    ∀ calls', (∀ exchange, ofKey RouterCall.exchange exchange calls' = ofKey RouterCall.exchange exchange calls) →
      (machine interface).run {} calls' = (machine interface).run {} calls ∧
      ∀ exchange, (machine interface).outputsAt RouterCall.exchange exchange {} calls' =
        (machine interface).outputsAt RouterCall.exchange exchange {} calls := by
  have hempty : ∀ exchange : String, ({} : ExchangeExecutionRouter σ).adapters[exchange]? = none := fun _ => by simp
  have hrun : ∀ exchange calls, ((machine interface).run {} calls).adapters[exchange]? =
      (exchangeMachine interface).run none (ofKey RouterCall.exchange exchange calls) := by
    intro exchange calls
    rw [(actsAt interface exchange).run, hempty]
  have houtputs : ∀ exchange calls, (machine interface).outputsAt RouterCall.exchange exchange {} calls =
      (exchangeMachine interface).outputs none (ofKey RouterCall.exchange exchange calls) := by
    intro exchange calls
    rw [(actsAt interface exchange).outputs, hempty]
  refine ⟨fun exchange => ⟨hrun exchange calls, houtputs exchange calls,
    mem_registeredExchanges interface calls exchange⟩, Std.ExtTreeMap.ordered_keys, fun calls' hsame => ⟨?_, ?_⟩⟩
  · have hadapters : ((machine interface).run {} calls').adapters = ((machine interface).run {} calls).adapters := by
      refine Std.ExtTreeMap.ext_getElem? fun {exchange} => ?_
      rw [hrun, hrun, hsame]
    exact congrArg ExchangeExecutionRouter.mk hadapters
  · intro exchange
    rw [houtputs, houtputs, hsame]

end Wall
