import YasinCore.Events.Delivery
import YasinCore.Observability.Metrics
import YasinCore.Plugins.Errors

namespace YasinCore.Observability

open YasinCore.Library

variable {φ : Type}

-- What an event of the core carries: a dictionary, or another event around one.
inductive Payload (φ : Type)
  | dict (entries : List (Str × Json φ))
  | event (inner : Events.Event (List (Str × Json φ)))

def Payload.entries : Payload φ → List (Str × Json φ)
  | .dict entries => entries
  | .event inner => inner.content

def Payload.get (key : String) (default : Json φ) (payload : Payload φ) : Json φ :=
  (Entries.lookup (.ofString key) payload.entries).getD default

structure ErrorRecord (φ : Type) where
  component : String
  message : Json φ
  metadata : List (Str × Json φ)

structure ErrorTracker (φ : Type) where
  maxErrors : Nat
  errors : List (ErrorRecord φ)

def ErrorTracker.recordCustomError (error : ErrorRecord φ) (tracker : ErrorTracker φ) :
    ErrorTracker φ :=
  let errors := tracker.errors ++ [error]
  { tracker with errors := if tracker.maxErrors < errors.length then errors.tail else errors }

-- The events that have a counter of their own.
inductive Kind
  | taskStarted
  | taskCompleted
  | taskFailed
  | agentRegistered
  | agentStarted
  | agentStopped
  deriving DecidableEq

namespace Kind

def all : List Kind :=
  [taskStarted, taskCompleted, taskFailed, agentRegistered, agentStarted, agentStopped]

def event : Kind → String
  | taskStarted => "task_started"
  | taskCompleted => "task_completed"
  | taskFailed => "task_failed"
  | agentRegistered => "agent_registered"
  | agentStarted => "agent_started"
  | agentStopped => "agent_stopped"

def counter : Kind → String
  | taskStarted => "yasin_tasks_started_total"
  | taskCompleted => "yasin_tasks_completed_total"
  | taskFailed => "yasin_tasks_failed_total"
  | agentRegistered => "yasin_agents_registered_total"
  | agentStarted => "yasin_agents_started_total"
  | agentStopped => "yasin_agents_stopped_total"

def description : Kind → String
  | taskStarted => "Total number of tasks started"
  | taskCompleted => "Total number of tasks successfully completed"
  | taskFailed => "Total number of tasks that failed"
  | agentRegistered => "Total number of agents registered"
  | agentStarted => "Total number of agents started"
  | agentStopped => "Total number of agents stopped"

-- The labels of the counter, each with the key of the payload that it is read from.
def labels : Kind → List (String × String)
  | taskStarted | taskCompleted | taskFailed => [("task_id", "id"), ("task_name", "name")]
  | agentRegistered | agentStarted | agentStopped => [("agent_name", "name")]

-- The labels with some values.
def labelled (kind : Kind) (values : List Str) : Dict Str Str :=
  .ofEntries ((kind.labels.map fun label => .ofString label.1).zip values)

end Kind

structure ObservabilityService (φ : Type) where
  metrics : MetricsRegistry Nat
  errors : ErrorTracker φ

namespace ObservabilityService

def empty : ObservabilityService φ := ⟨.empty, ⟨500, []⟩⟩

abbrev Program (φ : Type) := EStateM TypeError (ObservabilityService φ)

def changeMetrics (f : MetricsRegistry Nat → Except TypeError (MetricsRegistry Nat)) :
    Program φ Unit := do
  let s ← get
  match f s.metrics with
  | .ok metrics => set { s with metrics := metrics }
  | .error e => throw e

def inc (name description : String) (labels : Dict Str Str) : Program φ Unit :=
  changeMetrics (MetricsRegistry.inc (.ofString name) (.ofString description) labels)

-- The text of a label; the payloads of the core hold no other values there.
def label? : Json φ → Option Str
  | .str text => some text
  | _ => none

def unknown : Str := .ofString "unknown"

-- One branch of _handle_event.
def count (kind : Kind) (payload : Payload φ) : Program φ Unit := do
  match kind.labels.mapM fun label => label? (payload.get label.2 (.str unknown)) with
  | some values => inc kind.counter kind.description (kind.labelled values)
  | none => return
  if kind = .taskFailed then
    let message := payload.get "error" (.str (.ofString "Task execution failed"))
    modify fun s =>
      { s with errors := s.errors.recordCustomError ⟨"task_executor", message, payload.entries⟩ }

def handleEvent (event : Events.Event (Payload φ)) : Program φ Unit := do
  inc "yasin_event_bus_events_total" "Total number of events published on the Event Bus"
    (.ofEntries [(.ofString "event_name", event.name)])
  match Kind.all.find? fun kind => event.name = .ofString kind.event with
  | some kind => count kind event.content
  | none => pure ()

def setGauge (name description : String) (value : Nat) : Program φ Unit :=
  changeMetrics (MetricsRegistry.setGauge (.ofString name) (.ofString description) .empty value)

-- The part of collect_all that is about the plugins; what it raises goes no further.
def collectPlugins (report : Plugins.StatusInfo) : Program φ Unit :=
  tryCatch (do
    setGauge "yasin_plugins_total" "Total discovered plugins" report.plugins.size
    setGauge "yasin_plugins_active" "Currently active plugins"
      (report.plugins.values.countP (·.state = "active"))) fun _ => pure ()

end ObservabilityService

section Keys

theorem getKey_single (name key value : Str) :
    MetricsRegistry.getKey name (.ofEntries [(key, value)]) = (name, [(key, value)]) := rfl

theorem getKey_pair (name : Str) {first second : Str} (hne : second ≠ first)
    (hle : MetricsRegistry.notAfter first second = true) (value other : Str) :
    MetricsRegistry.getKey name (.ofEntries [(first, value), (second, other)]) =
      (name, [(first, value), (second, other)]) := by
  have hentries : (Dict.ofEntries [(first, value), (second, other)]).entries =
      [(first, value), (second, other)] := by
    have hnodup : (([(first, value), (second, other)] : List (Str × Str)).map Prod.fst).Nodup := by
      simpa using Ne.symm hne
    exact congrArg Dict.entries (Dict.ofEntries_entries ⟨_, hnodup⟩)
  rw [MetricsRegistry.getKey, hentries]
  simp only [List.insertionSort_cons, List.insertionSort_nil, List.orderedInsert_nil,
    List.orderedInsert_cons]
  rw [if_pos hle]

namespace Kind

theorem mem_all (kind : Kind) : kind ∈ all := by
  cases kind <;> decide

-- The series that counts for some values of the labels.
def key (kind : Kind) (values : List Str) : MetricKey :=
  MetricsRegistry.getKey (.ofString kind.counter) (kind.labelled values)

-- What a payload without names is counted under.
def unknowns (kind : Kind) : List Str := kind.labels.map fun _ => ObservabilityService.unknown

theorem event_injective {kind other : Kind}
    (h : Str.ofString kind.event = .ofString other.event) : kind = other := by
  have hall : ∀ kind ∈ all, ∀ other ∈ all,
      Str.ofString kind.event = .ofString other.event → kind = other := by decide
  exact hall kind kind.mem_all other other.mem_all h

theorem counter_injective {kind other : Kind}
    (h : Str.ofString kind.counter = .ofString other.counter) : kind = other := by
  have hall : ∀ kind ∈ all, ∀ other ∈ all,
      Str.ofString kind.counter = .ofString other.counter → kind = other := by decide
  exact hall kind kind.mem_all other other.mem_all h

theorem key_eq {kind : Kind} {values : List Str} (h : values.length = kind.labels.length) :
    kind.key values =
      (.ofString kind.counter, (kind.labels.map fun label => .ofString label.1).zip values) := by
  have hne : Str.ofString "task_name" ≠ .ofString "task_id" := by decide
  have hle : MetricsRegistry.notAfter (.ofString "task_id") (.ofString "task_name") = true := by decide
  cases kind with
  | taskStarted | taskCompleted | taskFailed =>
      obtain ⟨id, name, rfl⟩ := List.length_eq_two.mp h
      exact getKey_pair _ hne hle id name
  | agentRegistered | agentStarted | agentStopped =>
      obtain ⟨name, rfl⟩ := List.length_eq_one_iff.mp h
      exact getKey_single _ _ name

theorem key_injective {kind other : Kind} {values others : List Str}
    (h : values.length = kind.labels.length) (ho : others.length = other.labels.length)
    (hkey : kind.key values = other.key others) : kind = other ∧ values = others := by
  rw [key_eq h, key_eq ho] at hkey
  obtain ⟨hcounter, hzip⟩ := Prod.mk.inj hkey
  obtain rfl := counter_injective hcounter
  refine ⟨rfl, ?_⟩
  have hvalues := congrArg (List.map Prod.snd) hzip
  rwa [List.map_snd_zip (by simp [h]), List.map_snd_zip (by simp [ho])] at hvalues

theorem length_unknowns (kind : Kind) : kind.unknowns.length = kind.labels.length :=
  List.length_map _

end Kind

end Keys

namespace ObservabilityService

def gauges : List Str := [.ofString "yasin_plugins_total", .ofString "yasin_plugins_active"]

-- A payload in which neither an identifier nor a name is found.
def Nameless (payload : Payload φ) : Prop :=
  ∀ kind : Kind, ∀ label ∈ kind.labels, Entries.lookup (.ofString label.2) payload.entries = none

-- The program returns, and of the series for the kinds it changes those that are told.
def Counts (prog : Program φ Unit) (s : ObservabilityService φ)
    (counted : Kind → List Str → Prop) [∀ kind values, Decidable (counted kind values)] : Prop :=
  ∃ t, prog s = .ok () t ∧ t.metrics.CountersBut gauges ∧
    ∀ kind values, values.length = kind.labels.length →
      t.metrics.valueAt (kind.key values) =
        s.metrics.valueAt (kind.key values) + if counted kind values then 1 else 0

theorem inc_run {s : ObservabilityService φ} (h : s.metrics.CountersBut gauges) {name : String}
    (hname : Str.ofString name ∉ gauges) (description : String) (labels : Dict Str Str) :
    ∃ metrics, inc name description labels s = .ok () { s with metrics := metrics } ∧
      metrics.CountersBut gauges ∧ ∀ key, metrics.valueAt key =
        if key = MetricsRegistry.getKey (.ofString name) labels then s.metrics.valueAt key + 1
        else s.metrics.valueAt key := by
  obtain ⟨metrics, hinc, htyped, hvalue⟩ :=
    MetricsRegistry.inc_spec h hname (.ofString description) labels
  refine ⟨metrics, ?_, htyped, hvalue⟩
  unfold inc changeMetrics
  rw [run_get_bind, hinc]
  rfl

theorem count_counts {s : ObservabilityService φ} (h : s.metrics.CountersBut gauges) (kind : Kind)
    {payload : Payload φ} (hp : Nameless payload) :
    Counts (count kind payload) s fun other values => other = kind ∧ values = other.unknowns := by
  have hlabels : (kind.labels.mapM fun label => label? (payload.get label.2 (.str unknown))) =
      some kind.unknowns := by
    have hread (labels : List (String × String)) (hl : ∀ label ∈ labels,
        Entries.lookup (.ofString label.2) payload.entries = none) :
        (labels.mapM fun label => label? (payload.get label.2 (.str unknown))) =
          some (labels.map fun _ => unknown) := by
      induction labels with
      | nil => rfl
      | cons label labels ih =>
          rw [List.mapM_cons, Payload.get, hl label List.mem_cons_self,
            ih fun other ho => hl other (.tail _ ho)]
          rfl
    exact hread kind.labels (hp kind)
  have hname : Str.ofString kind.counter ∉ gauges := by
    have hall : ∀ kind ∈ Kind.all, Str.ofString kind.counter ∉ gauges := by decide
    exact hall kind kind.mem_all
  obtain ⟨metrics, hinc, htyped, hvalue⟩ :=
    inc_run h hname kind.description (kind.labelled kind.unknowns)
  have hvalue : ∀ key, metrics.valueAt key = if key = kind.key kind.unknowns then
      s.metrics.valueAt key + 1 else s.metrics.valueAt key := hvalue
  have hcounted (t : ObservabilityService φ) (ht : t.metrics = metrics) (other : Kind)
      (values : List Str) (hlength : values.length = other.labels.length) :
      t.metrics.valueAt (other.key values) = s.metrics.valueAt (other.key values) +
        if other = kind ∧ values = other.unknowns then 1 else 0 := by
    rw [ht, hvalue]
    by_cases hkey : other.key values = kind.key kind.unknowns
    · obtain ⟨rfl, rfl⟩ := Kind.key_injective hlength kind.length_unknowns hkey
      rw [if_pos hkey, if_pos ⟨rfl, rfl⟩]
    · have hother : ¬(other = kind ∧ values = other.unknowns) := by
        rintro ⟨rfl, rfl⟩
        exact hkey rfl
      rw [if_neg hkey, if_neg hother]
      rfl
  unfold Counts count
  simp only [hlabels, run_bind_ok hinc]
  by_cases hk : kind = .taskFailed
  · rw [if_pos hk]
    exact ⟨_, rfl, htyped, hcounted _ rfl⟩
  · rw [if_neg hk]
    exact ⟨_, rfl, htyped, hcounted _ rfl⟩

-- An event with a counter of its own but without a name is counted for the unknown.
theorem handleEvent_counts {s : ObservabilityService φ} (h : s.metrics.CountersBut gauges)
    {event : Events.Event (Payload φ)}
    (hp : ∀ kind : Kind, event.name = .ofString kind.event → Nameless event.content) :
    Counts (handleEvent event) s fun kind values =>
      event.name = .ofString kind.event ∧ values = kind.unknowns := by
  have hname : Str.ofString "yasin_event_bus_events_total" ∉ gauges := by decide
  obtain ⟨metrics, hinc, htyped, hvalue⟩ := inc_run h hname
    "Total number of events published on the Event Bus"
    (.ofEntries [(.ofString "event_name", event.name)])
  have hother (kind : Kind) (values : List Str) (hlength : values.length = kind.labels.length) :
      metrics.valueAt (kind.key values) = s.metrics.valueAt (kind.key values) := by
    rw [hvalue, if_neg]
    intro hkey
    rw [Kind.key_eq hlength, getKey_single] at hkey
    have hall : ∀ kind ∈ Kind.all,
        Str.ofString kind.counter ≠ .ofString "yasin_event_bus_events_total" := by decide
    exact hall kind kind.mem_all (Prod.mk.inj hkey).1
  unfold Counts handleEvent
  rw [run_bind_ok hinc]
  cases hf : Kind.all.find? fun kind => event.name = .ofString kind.event with
  | none =>
      refine ⟨{ s with metrics := metrics }, rfl, htyped, fun kind values hlength => ?_⟩
      have hnone := List.find?_eq_none.mp hf kind kind.mem_all
      rw [hother kind values hlength, if_neg fun hc => hnone (decide_eq_true hc.1), Nat.add_zero]
  | some kind =>
      have hfound := List.find?_some hf
      have hkind : event.name = .ofString kind.event := of_decide_eq_true hfound
      obtain ⟨t, hrun, ht, hcount⟩ := count_counts (s := { s with metrics := metrics }) htyped kind
        (hp kind hkind)
      refine ⟨t, hrun, ht, fun other values hlength => ?_⟩
      have hiff : Str.ofString kind.event = .ofString other.event ↔ other = kind :=
        ⟨fun heq => (Kind.event_injective heq).symm, fun heq => heq ▸ rfl⟩
      rw [hcount other values hlength, hother other values hlength, hkind]
      simp only [hiff]

end ObservabilityService

end YasinCore.Observability
