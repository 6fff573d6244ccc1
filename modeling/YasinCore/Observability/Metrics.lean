import YasinCore.Library.Json
import Mathlib.Algebra.GroupWithZero.Nat
import Mathlib.Data.List.Sort

namespace YasinCore.Observability

open YasinCore.Library

variable {ρ : Type}

inductive Reading (ρ : Type)
  | counter (value : ρ)
  | gauge (value : ρ)
  | histogram (values : List ρ)

structure Metric (ρ : Type) where
  name : Str
  description : Str
  labels : Dict Str Str
  reading : Reading ρ

def Reading.typeName : Reading ρ → String
  | .counter _ => "Counter"
  | .gauge _ => "Gauge"
  | .histogram _ => "Histogram"

def Reading.value [Zero ρ] : Reading ρ → ρ
  | .counter value | .gauge value => value
  | .histogram _ => 0

-- A metric of this name and these labels is there with another type.
structure TypeError where
  name : Str
  existing : String
  wanted : String

abbrev MetricKey := Str × List (Str × Str)

structure MetricsRegistry (ρ : Type) where
  metrics : Dict MetricKey (Metric ρ)

namespace MetricsRegistry

def empty : MetricsRegistry ρ := ⟨.empty⟩

-- The order of two strings by their code points.
def notAfter (first second : Str) : Bool := !List.lex second first fun c d => decide (c < d)

def getKey (name : Str) (labels : Dict Str Str) : MetricKey :=
  (name, labels.entries.insertionSort fun first second => notAfter first.1 second.1 = true)

-- Retrieves or creates a series and gives it a new reading.
def change (name description : Str) (labels : Dict Str Str) (initial : Reading ρ)
    (next : Reading ρ → Option (Reading ρ)) (m : MetricsRegistry ρ) :
    Except TypeError (MetricsRegistry ρ) :=
  let metric := (m.metrics.get? (getKey name labels)).getD ⟨name, description, labels, initial⟩
  match next metric.reading with
  | some reading => .ok ⟨m.metrics.set (getKey name labels) { metric with reading := reading }⟩
  | none => .error ⟨name, metric.reading.typeName, initial.typeName⟩

-- counter(...).inc()
def inc [Zero ρ] [One ρ] [Add ρ] (name description : Str) (labels : Dict Str Str) :
    MetricsRegistry ρ → Except TypeError (MetricsRegistry ρ) :=
  change name description labels (.counter 0) fun
    | .counter value => some (.counter (value + 1))
    | _ => none

-- gauge(...).set(value)
def setGauge [Zero ρ] (name description : Str) (labels : Dict Str Str) (value : ρ) :
    MetricsRegistry ρ → Except TypeError (MetricsRegistry ρ) :=
  change name description labels (.gauge 0) fun
    | .gauge _ => some (.gauge value)
    | _ => none

-- The value of a series; one that has not been written to counts as zero.
def valueAt [Zero ρ] (m : MetricsRegistry ρ) (key : MetricKey) : ρ :=
  ((m.metrics.get? key).map fun metric => metric.reading.value).getD 0

def value [Zero ρ] (m : MetricsRegistry ρ) (name : Str) (labels : Dict Str Str) : ρ :=
  m.valueAt (getKey name labels)

-- As get_metric_value reads it: there is no value of a series that is not there.
def value? [Zero ρ] (m : MetricsRegistry ρ) (name : Str) (labels : Dict Str Str) : Option ρ :=
  (m.metrics.get? (getKey name labels)).map fun metric => metric.reading.value

-- All series are counters, and none of them has one of these names.
def CountersBut (others : List Str) (m : MetricsRegistry ρ) : Prop :=
  ∀ key metric, m.metrics.get? key = some metric →
    key.1 ∉ others ∧ ∃ value, metric.reading = .counter value

variable {others : List Str} {m : MetricsRegistry ρ} {name description : Str} {labels : Dict Str Str}

theorem CountersBut.set (h : m.CountersBut others) {key : MetricKey} {metric : Metric ρ}
    (hname : key.1 ∉ others) (hcounter : ∃ value, metric.reading = .counter value) :
    CountersBut others ⟨m.metrics.set key metric⟩ := by
  intro other found hf
  rw [Dict.get?_set] at hf
  split at hf
  · rename_i ho
    cases hf
    exact ⟨ho ▸ hname, hcounter⟩
  · exact h other found hf

theorem CountersBut.value?_eq_none [Zero ρ] (h : m.CountersBut others) (hname : name ∈ others) :
    m.value? name labels = none := by
  unfold value?
  cases hget : m.metrics.get? (getKey name labels) with
  | none => rfl
  | some metric => exact absurd hname (h _ metric hget).1

theorem valueAt_set [Zero ρ] (m : MetricsRegistry ρ) (key other : MetricKey) (metric : Metric ρ) :
    valueAt ⟨m.metrics.set key metric⟩ other =
      if other = key then metric.reading.value else m.valueAt other := by
  rw [valueAt, valueAt, Dict.get?_set]
  split
  · rfl
  · rfl

-- An increment adds one to its series and nothing to any other.
theorem inc_spec [Zero ρ] [One ρ] [Add ρ] (h : m.CountersBut others) (hname : name ∉ others)
    (description : Str) (labels : Dict Str Str) : ∃ t, m.inc name description labels = .ok t ∧
      t.CountersBut others ∧ ∀ key, t.valueAt key =
        if key = getKey name labels then m.valueAt key + 1 else m.valueAt key := by
  have hreading : ∃ metric value, (m.metrics.get? (getKey name labels)).getD
      ⟨name, description, labels, .counter 0⟩ = metric ∧ metric.reading = .counter value ∧
        m.valueAt (getKey name labels) = value := by
    unfold valueAt
    cases hget : m.metrics.get? (getKey name labels) with
    | none => exact ⟨_, 0, rfl, rfl, rfl⟩
    | some metric =>
        obtain ⟨-, value, hvalue⟩ := h _ _ hget
        exact ⟨metric, value, rfl, hvalue, congrArg Reading.value hvalue⟩
  obtain ⟨metric, value, hmetric, hvalue, hold⟩ := hreading
  refine ⟨⟨m.metrics.set (getKey name labels) { metric with reading := .counter (value + 1) }⟩,
    ?_, h.set hname ⟨value + 1, rfl⟩, fun key => ?_⟩
  · simp only [inc, change, hmetric, hvalue]
  · rw [valueAt_set]
    split
    · rename_i hkey
      rw [hkey, hold]
      rfl
    · rfl

end MetricsRegistry

end YasinCore.Observability
