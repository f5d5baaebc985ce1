import Wall.Types
import Wall.Lib.Largest

/-!
# Metrics

`monitoring/metrics.cpp`: counters and latencies by name.  Instrumented code is described by the calls that it makes of
the metrics boundary (`MetricCall`), in order; `InMemoryMetricsCollector` reads them.  Whatever the calls, a counter is
the sum of its increments, and a latency has the count, the sum and the largest of its observations (`record_calls`).
-/

namespace Wall

open KeyedMap Largest

structure LatencyMetric where
  sampleCount : Int := 0
  totalMs : Int := 0
  maxMs : Int := 0
  deriving DecidableEq, Inhabited, Repr

/-- A call of `IMetricsCollector`. -/
inductive MetricCall
  | increment (name : String) (delta : Int)
  | observeLatency (name : String) (durationMs : Int)
  deriving DecidableEq, Repr

namespace MetricCall

/-- The increment, if this counter is incremented. -/
def deltaOf (name : String) : MetricCall → Option Int
  | increment name' delta => if name' = name then some delta else none
  | observeLatency .. => none

/-- The duration, if this latency is observed. -/
def durationOf (name : String) : MetricCall → Option Int
  | increment .. => none
  | observeLatency name' durationMs => if name' = name then some durationMs else none

end MetricCall

/-- The increments of one counter, in order. -/
def deltas (name : String) (calls : List MetricCall) : List Int := calls.filterMap (MetricCall.deltaOf name)

/-- The durations observed for one latency, in order. -/
def durations (name : String) (calls : List MetricCall) : List Int := calls.filterMap (MetricCall.durationOf name)

@[simp] theorem deltas_append (name : String) (calls calls' : List MetricCall) :
    deltas name (calls ++ calls') = deltas name calls ++ deltas name calls' := List.filterMap_append

@[simp] theorem durations_append (name : String) (calls calls' : List MetricCall) :
    durations name (calls ++ calls') = durations name calls ++ durations name calls' := List.filterMap_append

/-- What a counter gains by these calls. -/
def total (name : String) (calls : List MetricCall) : Int := (deltas name calls).sum

@[simp] theorem total_nil (name : String) : total name [] = 0 := rfl

theorem total_cons (name : String) (metricCall : MetricCall) (calls : List MetricCall) :
    total name (metricCall :: calls) = (metricCall.deltaOf name).getD 0 + total name calls := by
  unfold total deltas
  cases h : metricCall.deltaOf name <;> simp [h]

@[simp] theorem total_append (name : String) (calls calls' : List MetricCall) :
    total name (calls ++ calls') = total name calls + total name calls' := by
  rw [total, deltas_append, List.sum_append]
  rfl

structure InMemoryMetricsCollector where
  counters : StringMap Int := ∅
  latencies : StringMap LatencyMetric := ∅

namespace InMemoryMetricsCollector

def increment (collector : InMemoryMetricsCollector) (name : String) (delta : Int) : InMemoryMetricsCollector :=
  { collector with counters := modifyD collector.counters name (· + delta) }

def observeLatency (collector : InMemoryMetricsCollector) (name : String) (durationMs : Int) :
    InMemoryMetricsCollector :=
  { collector with
    latencies := modifyD collector.latencies name fun metric =>
      { sampleCount := metric.sampleCount + 1
        totalMs := metric.totalMs + durationMs
        maxMs := max metric.maxMs durationMs } }

def counter (collector : InMemoryMetricsCollector) (name : String) : Int := (collector.counters[name]?).getD 0

def latency (collector : InMemoryMetricsCollector) (name : String) : LatencyMetric :=
  (collector.latencies[name]?).getD {}

/-- The collector after a call. -/
def call (collector : InMemoryMetricsCollector) : MetricCall → InMemoryMetricsCollector
  | .increment name delta => collector.increment name delta
  | .observeLatency name durationMs => collector.observeLatency name durationMs

/-- A collector after these calls. -/
def record (calls : List MetricCall) : InMemoryMetricsCollector := calls.foldl call {}

private theorem counter_call (collector : InMemoryMetricsCollector) (metricCall : MetricCall) (name : String) :
    (collector.call metricCall).counter name = collector.counter name + (metricCall.deltaOf name).getD 0 := by
  cases metricCall with
  | increment name' delta =>
    rw [call, counter, increment, getElem?_modifyD, MetricCall.deltaOf]
    by_cases h : name' = name
    · rw [if_pos h, if_pos h, h]
      rfl
    · rw [if_neg h, if_neg h]
      exact (add_zero _).symm
  | observeLatency => exact (add_zero _).symm

/-- A latency is the summary of its observations. -/
def summary (durations : List Int) : LatencyMetric where
  sampleCount := durations.length
  totalMs := durations.sum
  maxMs := largest 0 durations

private theorem summary_concat (durations : List Int) (durationMs : Int) :
    summary (durations ++ [durationMs]) =
      { sampleCount := (summary durations).sampleCount + 1
        totalMs := (summary durations).totalMs + durationMs
        maxMs := max (summary durations).maxMs durationMs } := by
  rw [summary, largest_concat, List.length_append, List.sum_append, List.sum_singleton, max_comm]
  rfl

private theorem latency_call {collector : InMemoryMetricsCollector} {name : String} {observed : List Int}
    (h : collector.latency name = summary observed) (metricCall : MetricCall) :
    (collector.call metricCall).latency name = summary (observed ++ (metricCall.durationOf name).toList) := by
  cases metricCall with
  | increment => rwa [MetricCall.durationOf, Option.toList_none, List.append_nil]
  | observeLatency name' durationMs =>
    rw [call, latency, observeLatency, getElem?_modifyD, MetricCall.durationOf]
    by_cases hname : name' = name
    · rw [if_pos hname, if_pos hname, Option.toList_some, summary_concat, ← h, hname]
      rfl
    · rw [if_neg hname, if_neg hname, Option.toList_none, List.append_nil]
      exact h

/-- A counter is the sum of its increments, and a latency the summary of its observations. -/
theorem record_calls (calls : List MetricCall) (name : String) :
    (record calls).counter name = total name calls ∧
      (record calls).latency name = summary (durations name calls) := by
  induction calls using List.reverseRecOn with
  | nil => exact ⟨rfl, rfl⟩
  | append_singleton calls metricCall ih =>
    have hrecord : record (calls ++ [metricCall]) = (record calls).call metricCall := List.foldl_concat ..
    have htotal : total name [metricCall] = (metricCall.deltaOf name).getD 0 := by
      rw [total_cons, total_nil, add_zero]
    have hdurations : durations name [metricCall] = (metricCall.durationOf name).toList := by
      cases h : metricCall.durationOf name <;> simp [durations, h]
    rw [hrecord, total_append, durations_append, htotal, hdurations]
    exact ⟨by rw [counter_call, ih.1], latency_call ih.2 metricCall⟩

end InMemoryMetricsCollector

end Wall
