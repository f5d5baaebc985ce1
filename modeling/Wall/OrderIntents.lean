import Wall.FileRepositories

/-!
# The order intents

`PostgresOrderIntentRepository` of `infrastructure/postgres_repositories.cpp`.  The price is the last field of an
intent, and an intent without one gets lost when the file is loaded; the next call then writes the file without it.  So
after any calls and restarts `all_intents` returns every appended intent exactly if those that a restart came after
have a price (`no_intent_lost_iff`).
-/

namespace Wall

open Rounding

structure OrderIntentRecord where
  requestId : String := ""
  strategyId : String := ""
  instrumentId : String := ""
  side : OrderSide := .buy
  orderType : OrderType := .limit
  quantity : ℚ := 0
  price : Option ℚ := none
  deriving DecidableEq, Inhabited, Repr

namespace OrderIntentRecord

def texts (intent : OrderIntentRecord) : List String := [intent.requestId, intent.strategyId, intent.instrumentId]

def round (rnd rndOptional : ℚ → ℚ) (intent : OrderIntentRecord) : OrderIntentRecord :=
  { intent with
    quantity := rnd intent.quantity
    price := intent.price.map rndOptional }

/-- The second intent is the first one, its numbers as they were or rounded by their formats. -/
def UpToRounding (rnd rndOptional : ℚ → ℚ) (intent intent' : OrderIntentRecord) : Prop :=
  intent' = intent ∨ intent' = intent.round rnd rndOptional

end OrderIntentRecord

namespace PostgresOrderIntentRepository

variable (text : NumberText)

def format : RecordFormat OrderIntentRecord where
  fieldCount := 7
  fields intent := [
    intent.requestId,
    intent.strategyId,
    intent.instrumentId,
    Int.repr intent.side.code,
    Int.repr intent.orderType.code,
    text.precise intent.quantity,
    text.encodeOptionalDouble intent.price]
  parse
    | [requestId, strategyId, instrumentId, side, orderType, quantity, price] => do
      return {
        requestId := requestId
        strategyId := strategyId
        instrumentId := instrumentId
        side := ← enumerator OrderSide.ofCode side
        orderType := ← enumerator OrderType.ofCode orderType
        quantity := ← text.stod quantity
        price := ← text.decodeOptionalDouble price }
    | _ => none

def load (file : Option String) : Option (List OrderIntentRecord) := (format text).load file

def flush (intents : List OrderIntentRecord) : String := (format text).flush intents

/-- The repository over its file; a call is the intent that is appended. -/
def store : FileStore (List OrderIntentRecord) OrderIntentRecord (Option String) where
  load := load text
  flush intents := some (flush text intents)
  update intent := some fun intents => intents ++ [intent]

/-- A call of `append_intent`, or a restart: a new repository on the same directory. -/
inductive Event
  | append (intent : OrderIntentRecord)
  | restart

def Event.intent? : Event → Option OrderIntentRecord
  | .append intent => some intent
  | .restart => none

/-- The next repository; none when the constructor throws. -/
def step (repository : FileStore.Opened (List OrderIntentRecord) (Option String)) :
    Event → Option (FileStore.Opened (List OrderIntentRecord) (Option String))
  | .append intent => some ((store text).call repository intent)
  | .restart => (store text).construct repository.file

/-- The repository on an empty directory. -/
def empty : FileStore.Opened (List OrderIntentRecord) (Option String) := { contents := [], file := none }

/-- The repository after calls and restarts. -/
def run (events : List Event) : Option (FileStore.Opened (List OrderIntentRecord) (Option String)) :=
  events.foldlM (step text) empty

/-- The intents that have been appended. -/
def appended (events : List Event) : List OrderIntentRecord := events.filterMap Event.intent?

/-! ### What is kept -/

def priced (intent : OrderIntentRecord) : Bool := intent.price.isSome

/-- The appended intents that are still there: a restart loses those without a price. -/
def kept (events : List Event) : List OrderIntentRecord :=
  events.foldl (fun intents event =>
    match event with
    | .append intent => intents ++ [intent]
    | .restart => intents.filter priced) []

variable {text}

private theorem appended_append (events : List Event) (intent : OrderIntentRecord) :
    appended (events ++ [.append intent]) = appended events ++ [intent] := by
  simp [appended, Event.intent?]

private theorem appended_restart (events : List Event) : appended (events ++ [.restart]) = appended events := by
  simp [appended, Event.intent?]

private theorem kept_append (events : List Event) (intent : OrderIntentRecord) :
    kept (events ++ [.append intent]) = kept events ++ [intent] := by
  rw [kept, List.foldl_append]
  rfl

private theorem kept_restart (events : List Event) : kept (events ++ [.restart]) = (kept events).filter priced := by
  rw [kept, List.foldl_append]
  rfl

private theorem kept_sublist (events : List Event) : (kept events).Sublist (appended events) := by
  induction events using List.reverseRecOn with
  | nil => exact List.Sublist.refl _
  | append_singleton events event ih =>
    cases event with
    | append intent =>
      rw [kept_append, appended_append]
      exact ih.append (List.Sublist.refl _)
    | restart =>
      rw [kept_restart, appended_restart]
      exact List.filter_sublist.trans ih

/-- Every intent is kept exactly if those before a restart have a price. -/
private theorem kept_eq_appended_iff (events : List Event) : kept events = appended events ↔
    events.Pairwise fun event later => later = .restart → ∀ intent ∈ event.intent?, intent.price.isSome := by
  induction events using List.reverseRecOn with
  | nil => exact iff_of_true rfl .nil
  | append_singleton events event ih =>
    rw [List.pairwise_append, ← ih]
    cases event with
    | append intent =>
      rw [kept_append, appended_append, List.append_left_inj]
      simp
    | restart =>
      rw [kept_restart, appended_restart]
      have hsublist := kept_sublist events
      constructor
      · intro h
        have hfilter : (kept events).filter priced = kept events :=
          List.filter_sublist.eq_of_length_le (h ▸ hsublist.length_le)
        have hall : ∀ intent ∈ appended events, priced intent = true :=
          fun intent hintent => (List.mem_filter.1 (h.symm ▸ hintent)).2
        refine ⟨hfilter.symm.trans h, List.pairwise_singleton _ _, ?_⟩
        intro e he later hlater _ intent hintent
        exact hall intent (List.mem_filterMap.2 ⟨e, he, hintent⟩)
      · rintro ⟨h, -, hpriced⟩
        rw [h]
        refine List.filter_eq_self.2 fun intent hintent => ?_
        obtain ⟨e, he, heq⟩ := List.mem_filterMap.1 hintent
        exact hpriced e he .restart (List.mem_singleton_self _) rfl intent heq

/-! ### The repository keeps these -/

section Runs

variable {rnd rndOptional : ℚ → ℚ} (hprecise : Numerals text.precise text.stod rnd)
  (hrnd : IsNearest preciseNumbers rnd) (hoptional : Numerals text.toString text.stod rndOptional)
  (hrndOptional : IsNearest toStringNumbers rndOptional)

include hprecise hoptional in
theorem reads : (format text).Reads OrderIntentRecord.texts (OrderIntentRecord.round rnd rndOptional) where
  length_fields _ := rfl
  clean_fields intent hclean := by
    simp only [OrderIntentRecord.texts, List.forall_mem_cons] at hclean
    obtain ⟨h1, h2, h3, -⟩ := hclean
    simp only [format, List.forall_mem_cons]
    exact ⟨h1, h2, h3, ReplayService.clean_repr _, ReplayService.clean_repr _, hprecise.clean_text _,
      NumberText.clean_encodeOptionalDouble hoptional _, by simp⟩
  parse_fields intent := by
    simp [format, OrderSide.enumerator_code, OrderType.enumerator_code, hprecise.reads,
      NumberText.decode_encodeOptionalDouble hoptional, OrderIntentRecord.round]
  texts_parse fields intent hparse := by
    simp only [format] at hparse
    split at hparse
    · simp only [Option.bind_eq_bind, Option.bind_eq_some_iff, Option.pure_def, Option.some.injEq] at hparse
      obtain ⟨_, -, _, -, _, -, _, -, rfl⟩ := hparse
      simp [OrderIntentRecord.texts]
    · cases hparse

include hoptional in
/-- The last field of an intent is empty exactly if it has no price. -/
private theorem not_endsEmpty_iff (intent : OrderIntentRecord) :
    ¬(format text).EndsEmpty intent ↔ priced intent = true := by
  cases h : intent.price with
  | none => simp [RecordFormat.EndsEmpty, format, priced, h, NumberText.encodeOptionalDouble]
  | some price =>
    simp [RecordFormat.EndsEmpty, format, priced, h, NumberText.encodeOptionalDouble, hoptional.ne_empty]

include hprecise hoptional in
/-- The file gives the intents with a price back. -/
theorem load_flush {intents : List OrderIntentRecord}
    (hclean : ∀ intent ∈ intents, ∀ t ∈ intent.texts, Clean t) :
    load text (some (flush text intents)) =
      some ((intents.filter priced).map (OrderIntentRecord.round rnd rndOptional)) := by
  have hfilter : intents.filter (fun intent => ¬(format text).EndsEmpty intent) = intents.filter priced :=
    List.filter_congr fun intent _ => by
      rw [Bool.eq_iff_iff, decide_eq_true_iff, not_endsEmpty_iff hoptional]
  rw [load, flush, RecordFormat.load_flush (reads hprecise hoptional) hclean, hfilter]

include hrnd hrndOptional in
private theorem upToRounding_round {intent intent' : OrderIntentRecord}
    (h : OrderIntentRecord.UpToRounding rnd rndOptional intent intent') :
    OrderIntentRecord.UpToRounding rnd rndOptional intent (intent'.round rnd rndOptional) := by
  rcases h with rfl | rfl
  · exact .inr rfl
  · refine .inr ?_
    cases intent with
    | mk _ _ _ _ _ quantity price =>
      cases price <;>
        simp [OrderIntentRecord.round, hrnd.fixed_iff.2 (hrnd.mem _), hrndOptional.fixed_iff.2 (hrndOptional.mem _)]

private theorem priced_of_upToRounding {intent intent' : OrderIntentRecord}
    (h : OrderIntentRecord.UpToRounding rnd rndOptional intent intent') : priced intent = priced intent' := by
  rcases h with rfl | rfl
  · rfl
  · simp [priced, OrderIntentRecord.round]

/-- The repository holds these intents up to rounding, and its file those of them that have a price. -/
structure Follows (text : NumberText) (rnd rndOptional : ℚ → ℚ) (intents : List OrderIntentRecord)
    (repository : FileStore.Opened (List OrderIntentRecord) (Option String)) : Prop where
  contents : List.Forall₂ (OrderIntentRecord.UpToRounding rnd rndOptional) intents repository.contents
  clean : ∀ intent ∈ repository.contents, ∀ t ∈ intent.texts, Clean t
  file : ∃ loaded, load text repository.file = some loaded ∧
    List.Forall₂ (OrderIntentRecord.UpToRounding rnd rndOptional) (intents.filter priced) loaded

variable {intents : List OrderIntentRecord} {repository : FileStore.Opened (List OrderIntentRecord) (Option String)}
  (h : Follows text rnd rndOptional intents repository)

include hprecise hoptional h

include hrnd hrndOptional in
private theorem follows_call {intent : OrderIntentRecord} (hclean : ∀ t ∈ intent.texts, Clean t) :
    Follows text rnd rndOptional (intents ++ [intent]) ((store text).call repository intent) := by
  have hcontents : List.Forall₂ (OrderIntentRecord.UpToRounding rnd rndOptional) (intents ++ [intent])
      (repository.contents ++ [intent]) := List.rel_append h.contents (.cons (.inl rfl) .nil)
  have hcleans : ∀ i ∈ repository.contents ++ [intent], ∀ t ∈ i.texts, Clean t :=
    List.forall_mem_append.2 ⟨h.clean, List.forall_mem_singleton.2 hclean⟩
  refine ⟨hcontents, hcleans, _, load_flush hprecise hoptional hcleans, ?_⟩
  rw [List.forall₂_map_right_iff]
  have hpriced := List.rel_filter (p := priced) (q := priced)
    (fun i i' hi => Bool.eq_iff_iff.1 (priced_of_upToRounding hi)) hcontents
  exact hpriced.imp fun i i' hi => upToRounding_round hrnd hrndOptional hi

private theorem follows_construct : ∃ repository', (store text).construct repository.file = some repository' ∧
    Follows text rnd rndOptional (intents.filter priced) repository' := by
  obtain ⟨loaded, hload, hfile⟩ := h.file
  have hclean : ∀ intent ∈ loaded, ∀ t ∈ intent.texts, Clean t :=
    RecordFormat.clean_load (reads hprecise hoptional) hload
  refine ⟨{ contents := loaded, file := repository.file }, ?_, hfile, hclean, loaded, hload, ?_⟩
  · exact Option.map_eq_some_iff.2 ⟨loaded, hload, rfl⟩
  · rwa [List.filter_filter, List.filter_congr fun i _ => Bool.and_self _]

omit h in
include hrnd hrndOptional in
/-- After any calls and restarts the repository holds what is kept. -/
theorem follows_run {events : List Event} (hclean : ∀ intent ∈ appended events, ∀ t ∈ intent.texts, Clean t) :
    ∃ repository, run text events = some repository ∧ Follows text rnd rndOptional (kept events) repository := by
  induction events using List.reverseRecOn with
  | nil => exact ⟨empty, rfl, .nil, by simp [empty], [], rfl, .nil⟩
  | append_singleton events event ih =>
    rw [run, List.foldlM_append]
    cases event with
    | append intent =>
      rw [appended_append, List.forall_mem_append, List.forall_mem_singleton] at hclean
      obtain ⟨repository, hrun, h⟩ := ih hclean.1
      rw [run] at hrun
      rw [hrun, kept_append]
      exact ⟨_, rfl, follows_call hprecise hrnd hoptional hrndOptional h hclean.2⟩
    | restart =>
      rw [appended_restart] at hclean
      obtain ⟨repository, hrun, h⟩ := ih hclean
      obtain ⟨repository', hconstruct, h'⟩ := follows_construct hprecise hoptional h
      rw [run] at hrun
      rw [hrun, kept_restart]
      refine ⟨repository', ?_, h'⟩
      simp [step, hconstruct]

omit h in
include hrnd hrndOptional in
/-- From an empty directory, calls and restarts never fail, and `all_intents` returns every appended intent, once each
and in order, its numbers up to rounding, exactly if every intent that a restart comes after has a price. -/
theorem no_intent_lost_iff {events : List Event}
    (hclean : ∀ intent ∈ appended events, ∀ t ∈ intent.texts, Clean t) :
    (∃ repository, run text events = some repository ∧
        List.Forall₂ (OrderIntentRecord.UpToRounding rnd rndOptional) (appended events) repository.contents) ↔
      events.Pairwise fun event later => later = .restart → ∀ intent ∈ event.intent?, intent.price.isSome := by
  obtain ⟨repository, hrun, h⟩ := follows_run hprecise hrnd hoptional hrndOptional hclean
  rw [← kept_eq_appended_iff]
  constructor
  · rintro ⟨repository', hrun', hall⟩
    obtain rfl : repository = repository' := Option.some.inj (hrun.symm.trans hrun')
    exact (kept_sublist events).eq_of_length (h.contents.length_eq.trans hall.length_eq.symm)
  · intro heq
    exact ⟨repository, hrun, heq ▸ h.contents⟩

end Runs

/-- An intent with a price or without. -/
def exampleIntent (price : Option ℚ) : OrderIntentRecord where
  requestId := "req-1"
  strategyId := "threshold"
  instrumentId := "btc-usdt"
  orderType := .market
  quantity := 1 / 2
  price := price

theorem no_intent_lost_iff_exampleIntent :
    ∃ repository, run decimalText [.append (exampleIntent (some 42000)), .restart, .append (exampleIntent none)] =
        some repository ∧
      List.Forall₂ (OrderIntentRecord.UpToRounding (roundSignificant 10 17) (roundTo ((10 : ℚ) ^ (-6 : ℤ))))
        [exampleIntent (some 42000), exampleIntent none] repository.contents :=
  (no_intent_lost_iff (numerals_significant 17) nearest_precise (numerals_fixed 6) nearest_toString
    (by decide)).2 (by simp [Event.intent?, exampleIntent])

/-- A market order without a price is gone after one restart, and the call after the restart erases it from the
file. -/
theorem unpriced_intent_lost :
    (∀ t ∈ (exampleIntent none).texts, Clean t) ∧
      (¬∃ repository, run decimalText [.append (exampleIntent none), .restart] = some repository ∧
        List.Forall₂ (OrderIntentRecord.UpToRounding (roundSignificant 10 17) (roundTo ((10 : ℚ) ^ (-6 : ℤ))))
          [exampleIntent none] repository.contents) ∧
      (run decimalText [.append (exampleIntent none), .restart, .append (exampleIntent (some 42000)), .restart]).map
        FileStore.Opened.contents = some [exampleIntent (some 42000)] := by
  have hcontents : (run decimalText [.append (exampleIntent none), .restart]).map FileStore.Opened.contents =
      some [] := by decide +kernel
  refine ⟨by decide, ?_, by decide +kernel⟩
  rintro ⟨repository, hrun, hall⟩
  rw [hrun, Option.map_some, Option.some.injEq] at hcontents
  rw [hcontents] at hall
  cases hall

end PostgresOrderIntentRepository

end Wall
