import Mathlib.Algebra.Ring.Int.Defs
import Mathlib.Order.Defs.LinearOrder
import YasinCore.Observability.Metrics

namespace YasinCore.Observability

open YasinCore.Library

variable {ρ : Type}

-- The number that a series is asked for
def Reading.amount [Zero ρ] [Add ρ] : Reading ρ → ρ
  | .counter value | .gauge value => value
  | .histogram values => values.foldl (· + ·) 0

-- A call that retrieves a series, and the update that comes with it
inductive MetricCall (ρ : Type)
  | counter
  | counterInc (value : ρ)
  | counterReset
  | gauge
  | gaugeSet (value : ρ)
  | gaugeInc (value : ρ)
  | gaugeDec (value : ρ)
  | histogram
  | observe (value : ρ)

-- The series that is made when there is none
def MetricCall.initial [Zero ρ] : MetricCall ρ → Reading ρ
  | .counter | .counterInc _ | .counterReset => .counter 0
  | .gauge | .gaugeSet _ | .gaugeInc _ | .gaugeDec _ => .gauge 0
  | .histogram | .observe _ => .histogram []

-- Increments of a counter are not negative.
def MetricCall.update [Zero ρ] [Add ρ] [Sub ρ] [LT ρ] [DecidableLT ρ] :
    MetricCall ρ → Reading ρ → Option (Reading ρ)
  | .counterInc value, .counter old => if value < 0 then none else some (.counter (old + value))
  | .counterReset, .counter _ => some (.counter 0)
  | .gaugeSet value, .gauge _ => some (.gauge value)
  | .gaugeInc value, .gauge old => some (.gauge (old + value))
  | .gaugeDec value, .gauge old => some (.gauge (old - value))
  | .observe value, .histogram values => some (.histogram (values ++ [value]))
  | .counter, reading | .gauge, reading | .histogram, reading => some reading
  | _, _ => none

inductive MetricAction (ρ : Type)
  | series (name description : Str) (labels : Dict Str Str) (call : MetricCall ρ)
  | register (metric : Metric ρ)
  | clear

namespace MetricsRegistry

-- counter, gauge and histogram: the series that is there, unless it is of another type, or a new one
def retrieve (m : MetricsRegistry ρ) (name description : Str) (labels : Dict Str Str)
    (initial : Reading ρ) : Except TypeError (Metric ρ × MetricsRegistry ρ) :=
  match m.metrics.get? (getKey name labels) with
  | some metric =>
      if metric.reading.typeName ≠ initial.typeName then
        .error ⟨name, metric.reading.typeName, initial.typeName⟩
      else .ok (metric, m)
  | none =>
      let metric := ⟨name, description, labels, initial⟩
      .ok (metric, ⟨m.metrics.set (getKey name labels) metric⟩)

-- A call that raises leaves what it has done so far.
def perform [Zero ρ] [Add ρ] [Sub ρ] [LT ρ] [DecidableLT ρ] (m : MetricsRegistry ρ) :
    MetricAction ρ → MetricsRegistry ρ
  | .series name description labels call =>
      match m.retrieve name description labels call.initial with
      | .error _ => m
      | .ok (metric, m) =>
          match call.update metric.reading with
          | none => m
          | some reading => ⟨m.metrics.set (getKey name labels) { metric with reading := reading }⟩
  | .register metric =>
      if getKey metric.name metric.labels ∈ m.metrics then m
      else ⟨m.metrics.set (getKey metric.name metric.labels) metric⟩
  | .clear => empty

-- The name is not compared when it is empty. A series may have more labels than are asked for.
def Matches (name : Str) (labels : Dict Str Str) (metric : Metric ρ) : Prop :=
  (name = [] ∨ metric.name = name) ∧
    ∀ label ∈ labels.entries, metric.labels.get? label.1 = some label.2

instance (name : Str) (labels : Dict Str Str) (metric : Metric ρ) :
    Decidable (Matches name labels metric) :=
  inferInstanceAs (Decidable (_ ∧ _))

def queryMetrics (m : MetricsRegistry ρ) (name : Str) (labels : Dict Str Str) : List (Metric ρ) :=
  m.metrics.values.filter fun metric => Matches name labels metric

-- The number of the first series that is found
def getMetricValue [Zero ρ] [Add ρ] (m : MetricsRegistry ρ) (name : Str) (labels : Dict Str Str) :
    Option ρ :=
  (m.queryMetrics name labels)[0]?.map fun metric => metric.reading.amount

-- The calls, one after the other, on a new registry
def performAll [Zero ρ] [Add ρ] [Sub ρ] [LT ρ] [DecidableLT ρ] (acts : List (MetricAction ρ)) :
    MetricsRegistry ρ := acts.foldl perform empty

-- The series of exactly this name and these labels
def series? (m : MetricsRegistry ρ) (name : Str) (labels : Dict Str Str) : Option (Metric ρ) :=
  m.metrics.get? (getKey name labels)

-- The series that was registered first among those that have the name, or any name if it is empty, and at
-- least the labels
def FirstMatch (m : MetricsRegistry ρ) (name : Str) (labels : Dict Str Str) (metric : Metric ρ) : Prop :=
  ∃ earlier later, m.metrics.values = earlier ++ metric :: later ∧ Matches name labels metric ∧
    ∀ other ∈ earlier, ¬Matches name labels other

-- Every series is kept under its name and labels.
def Keyed (m : MetricsRegistry ρ) : Prop :=
  ∀ key metric, m.metrics.get? key = some metric → key = getKey metric.name metric.labels

section Registry

variable {m : MetricsRegistry ρ} {name : Str} {labels : Dict Str Str} {metric : Metric ρ}

theorem Keyed.set (h : m.Keyed) (metric : Metric ρ) :
    Keyed ⟨m.metrics.set (getKey metric.name metric.labels) metric⟩ := by
  intro key found hfound
  rw [Dict.get?_set] at hfound
  split at hfound
  · rename_i hkey
    rw [hkey, ← Option.some.inj hfound]
  · exact h key found hfound

-- What is retrieved is in the registry.
theorem Keyed.retrieve (h : m.Keyed) {m' : MetricsRegistry ρ} {description : Str} {initial : Reading ρ}
    (hget : m.retrieve name description labels initial = .ok (metric, m')) :
    m'.Keyed ∧ getKey name labels = getKey metric.name metric.labels := by
  unfold MetricsRegistry.retrieve at hget
  split at hget
  · rename_i found hfound
    split at hget
    · cases hget
    · obtain ⟨rfl, rfl⟩ := Prod.mk.inj (Except.ok.inj hget)
      exact ⟨h, h _ _ hfound⟩
  · obtain ⟨rfl, rfl⟩ := Prod.mk.inj (Except.ok.inj hget)
    exact ⟨h.set ⟨name, description, labels, initial⟩, rfl⟩

theorem Keyed.perform [Zero ρ] [Add ρ] [Sub ρ] [LT ρ] [DecidableLT ρ] (h : m.Keyed)
    (act : MetricAction ρ) : (m.perform act).Keyed := by
  cases act with
  | series name description labels call =>
      unfold MetricsRegistry.perform
      dsimp only
      split
      · exact h
      · rename_i metric m' hget
        obtain ⟨hkeyed, hkey⟩ := h.retrieve hget
        split
        · exact hkeyed
        · rename_i reading _
          rw [hkey]
          exact hkeyed.set { metric with reading := reading }
  | register metric =>
      unfold MetricsRegistry.perform
      dsimp only
      split
      · exact h
      · exact h.set metric
  | clear => exact fun key metric hget => absurd hget (by simp [MetricsRegistry.perform, empty])

theorem keyed_performAll [Zero ρ] [Add ρ] [Sub ρ] [LT ρ] [DecidableLT ρ] (acts : List (MetricAction ρ)) :
    (performAll acts).Keyed := by
  have hempty : (empty : MetricsRegistry ρ).Keyed := fun key metric hget =>
    absurd hget (by simp [empty])
  exact List.foldlRecOn acts perform hempty fun _ h act _ => h.perform act

-- Equal keys come from equal names and labels.
theorem matches_of_getKey (h : getKey name labels = getKey metric.name metric.labels) :
    Matches name labels metric := by
  obtain ⟨hname, hsorted⟩ := Prod.mk.inj h
  refine ⟨.inr hname.symm, fun label hl => ?_⟩
  rw [← Dict.mem_entries_iff]
  have hmem : label ∈ labels.entries.insertionSort fun first second => notAfter first.1 second.1 = true :=
    (List.perm_insertionSort _ _).mem_iff.mpr hl
  rw [hsorted] at hmem
  exact (List.perm_insertionSort _ _).mem_iff.mp hmem

theorem Keyed.series_matches (h : m.Keyed) (hget : m.series? name labels = some metric) :
    Matches name labels metric := matches_of_getKey (h _ _ hget)

-- The query finds the first match, and nothing only where there is none.
theorem firstMatch_iff :
    m.FirstMatch name labels metric ↔ (m.queryMetrics name labels)[0]? = some metric := by
  rw [← List.head?_eq_getElem?, queryMetrics, List.head?_filter, List.find?_eq_some_iff_append]
  unfold FirstMatch
  simp only [decide_eq_true_iff, Bool.not_eq_true', decide_eq_false_iff_not]
  constructor
  · rintro ⟨earlier, later, hvalues, hmatches, hfirst⟩
    exact ⟨hmatches, earlier, later, hvalues, hfirst⟩
  · rintro ⟨hmatches, earlier, later, hvalues, hfirst⟩
    exact ⟨earlier, later, hvalues, hmatches, hfirst⟩

-- Where the series itself is there, something matches.
theorem Keyed.exists_firstMatch (h : m.Keyed) (hget : m.series? name labels = some metric) :
    ∃ first, m.FirstMatch name labels first := by
  have hvalue : metric ∈ m.metrics.values := (Dict.mem_values_iff _ _).mpr ⟨_, hget⟩
  have hfound : metric ∈ m.queryMetrics name labels :=
    List.mem_filter.mpr ⟨hvalue, decide_eq_true (h.series_matches hget)⟩
  obtain ⟨first, rest, hquery⟩ := List.exists_cons_of_ne_nil (List.ne_nil_of_mem hfound)
  exact ⟨first, firstMatch_iff.mpr (by rw [hquery]; rfl)⟩

theorem Keyed.series?_eq_none (h : m.Keyed) (hquery : (m.queryMetrics name labels)[0]? = none) :
    m.series? name labels = none := by
  cases hget : m.series? name labels with
  | none => rfl
  | some metric =>
      obtain ⟨first, hfirst⟩ := h.exists_firstMatch hget
      rw [firstMatch_iff.mp hfirst] at hquery
      cases hquery

theorem Keyed.found_iff (h : m.Keyed) : (m.queryMetrics name labels)[0]? = m.series? name labels ↔
    ∀ first, m.FirstMatch name labels first → m.series? name labels = some first := by
  constructor
  · intro hfound first hfirst
    rw [← hfound]
    exact firstMatch_iff.mp hfirst
  · intro hexact
    cases hquery : (m.queryMetrics name labels)[0]? with
    | some first => exact (hexact first (firstMatch_iff.mpr hquery)).symm
    | none => exact (h.series?_eq_none hquery).symm

variable [Zero ρ] [Add ρ]

theorem Keyed.getMetricValue_iff (h : m.Keyed) :
    m.getMetricValue name labels = (m.series? name labels).map (fun metric => metric.reading.amount) ↔
      ∀ first, m.FirstMatch name labels first →
        ∃ metric, m.series? name labels = some metric ∧ metric.reading.amount = first.reading.amount := by
  unfold getMetricValue
  constructor
  · intro hvalue first hfirst
    rw [firstMatch_iff.mp hfirst] at hvalue
    exact Option.map_eq_some_iff.mp hvalue.symm
  · intro hexact
    cases hquery : (m.queryMetrics name labels)[0]? with
    | some first =>
        obtain ⟨metric, hget, hamount⟩ := hexact first (firstMatch_iff.mpr hquery)
        rw [hget, Option.map_some, Option.map_some, hamount]
    | none => rw [h.series?_eq_none hquery]

end Registry

-- The query finds the series of this name and these labels, or that there is none, exactly when the
-- first match is this series or nothing matches.
theorem queryMetrics_found_iff [Zero ρ] [Add ρ] [Sub ρ] [LT ρ] [DecidableLT ρ]
    (acts : List (MetricAction ρ)) (name : Str) (labels : Dict Str Str) :
    ((performAll acts).queryMetrics name labels)[0]? = (performAll acts).series? name labels ↔
      ∀ first, (performAll acts).FirstMatch name labels first →
        (performAll acts).series? name labels = some first :=
  (keyed_performAll acts).found_iff

-- Whatever has been registered and updated, a query gives the number of the series of this name and these
-- labels exactly when it finds that series, as above, or the first match happens to show its number.
theorem getMetricValue_exact_iff [Zero ρ] [Add ρ] [Sub ρ] [LT ρ] [DecidableLT ρ]
    (acts : List (MetricAction ρ)) (name : Str) (labels : Dict Str Str) :
    (performAll acts).getMetricValue name labels =
        ((performAll acts).series? name labels).map (fun metric => metric.reading.amount) ↔
      ∀ first, (performAll acts).FirstMatch name labels first →
        ∃ metric, (performAll acts).series? name labels = some metric ∧
          metric.reading.amount = first.reading.amount :=
  (keyed_performAll acts).getMetricValue_iff

-- A series with a label is registered before the one without labels and hides it.
theorem labelled_series_found :
    let labels := Dict.empty.set (Str.ofString "env") (Str.ofString "test")
    let m : MetricsRegistry Int := performAll
      [.series (Str.ofString "requests") [] labels (.counterInc 5),
        .series (Str.ofString "requests") [] .empty (.counterInc 1)]
    m.getMetricValue (Str.ofString "requests") .empty = some 5 ∧
      (m.series? (Str.ofString "requests") .empty).map (fun metric => metric.reading.amount) = some 1 := by
  decide +kernel

end MetricsRegistry

end YasinCore.Observability
