import YasinCore.Plugins.Stability

namespace YasinCore.Plugins

open YasinCore.Library

-- The events of the registry.
def pluginEvents : List String :=
  ["plugin_registered", "plugin_loaded", "plugin_unloaded", "plugin_started", "plugin_stopped",
    "plugin_failed"]

def Record.Plain : Record → Prop
  | .published event _ _ => event ∈ pluginEvents
  | .registered _ | .called .. => True

-- Nothing but the events of the registry has been published.
def Registry.Plain (s : Registry) : Prop := ∀ record ∈ s.history, record.Plain

theorem Registry.Plain.record {s : Registry} (h : s.Plain) {record : Record} (hr : record.Plain) :
    Registry.Plain { s with history := record :: s.history } := by
  intro other ho
  rcases List.mem_cons.mp ho with rfl | ho
  · exact hr
  · exact h other ho

namespace Operation

variable {hooks : Hooks} {name : PluginName}

theorem setState_plain {state : PluginState} : Maintains Registry.Plain (setState name state) :=
  .modify fun _ hs => hs

theorem clearError_plain : Maintains Registry.Plain (clearError name) := .modify fun _ hs => hs

theorem setError_plain {message : String} : Maintains Registry.Plain (setError name message) :=
  .modify fun _ hs => hs

theorem publish_plain {event : String} {details : List (String × String)}
    (he : event ∈ pluginEvents) : Maintains Registry.Plain (publish event name details) :=
  .modify fun _ hs => hs.record he

theorem callHook_plain (hook : Hook) : Maintains Registry.Plain (callHook hooks name hook) := by
  refine .bind .get fun s => .bind (.modify fun t ht => ht.record trivial) fun _ => ?_
  split
  · exact .pure
  · exact .throw

theorem fail_plain {stage : String} {e : PluginError} : Maintains Registry.Plain (fail name stage e) :=
  .bind setState_plain fun _ => .bind setError_plain fun _ =>
    .bind (publish_plain (by decide)) fun _ => .throw

theorem validate_plain {depth : Nat} : Maintains Registry.Plain (validate depth name) := Stable.validate

-- A hook, a new state and an event, or a failure.
theorem settle_plain {hook : Hook} {state : PluginState} {event stage : String}
    (he : event ∈ pluginEvents) :
    Maintains Registry.Plain (tryCatch (do
      callHook hooks name hook
      setState name state
      publish event name []) (fail name stage)) :=
  .tryCatch (.bind (callHook_plain hook) fun _ => .bind setState_plain fun _ => publish_plain he)
    fun _ => fail_plain

theorem completeLoad_plain : Maintains Registry.Plain (completeLoad hooks name) :=
  .bind (callHook_plain _) fun _ => .bind (callHook_plain _) fun _ => .bind setState_plain fun _ =>
    .bind clearError_plain fun _ => publish_plain (by decide)

theorem loadPlugin_plain (depth : Nat) (name : PluginName) :
    Maintains Registry.Plain (loadPlugin hooks depth name) :=
  loadPlugin_maintains (fun _ _ _ _ => trivial) (fun _ _ _ => fail_plain)
    (fun _ _ => completeLoad_plain) depth name

theorem startPlugin_plain (depth : Nat) (name : PluginName) :
    Maintains Registry.Plain (startPlugin hooks depth name) :=
  startPlugin_maintains (fun _ _ _ _ => trivial) loadPlugin_plain
    (fun _ _ => settle_plain (by decide)) depth name

theorem stopPlugin_plain : Maintains Registry.Plain (stopPlugin hooks name) := by
  refine .bind .get fun s => ?_
  split
  · exact .bind .get fun t => .ite (fun _ => .pure) fun _ => settle_plain (by decide)
  · exact .throw

theorem unloadPlugin_plain : Maintains Registry.Plain (unloadPlugin hooks name) := by
  have hrelease : Maintains Registry.Plain (releasePlugin hooks name) := settle_plain (by decide)
  refine .bind .get fun s => ?_
  split
  · refine .bind .get fun t => ?_
    split
    · exact .pure
    · exact .bind stopPlugin_plain fun _ => hrelease
    · exact hrelease
    · exact hrelease
    · exact hrelease
  · exact .throw

theorem ignoringErrors_plain {operation : Operation Unit} (h : Maintains Registry.Plain operation) :
    Maintains Registry.Plain (ignoringErrors operation) := .tryCatch h fun _ => .pure

theorem runIf_plain {condition : Prop} [Decidable condition] {operation : Operation Unit}
    (h : Maintains Registry.Plain operation) : Maintains Registry.Plain (runIf condition operation) :=
  .ite (fun _ => h) fun _ => .pure

theorem initializeAll_plain (depth : Nat) :
    Maintains Registry.Plain (initializeAll hooks depth) := by
  refine .bind .get fun s => .forM fun other _ => .tryCatch ?_ fun e => ?_
  · exact .bind validate_plain fun _ => loadPlugin_plain depth other
  · exact .bind setState_plain fun _ => setError_plain

theorem shutdown_plain : Maintains Registry.Plain (shutdown hooks) := by
  refine .bind .get fun s => .forM fun other _ => ignoringErrors_plain ?_
  refine .bind .get fun t => .bind (runIf_plain stopPlugin_plain) fun _ => ?_
  exact .bind .get fun u => runIf_plain unloadPlugin_plain

end Operation

theorem operation_plain (hooks : Hooks) (act : Action) :
    Maintains Registry.Plain (act.operation hooks) := by
  cases act with
  | register plugin =>
      exact .bind (.modify fun s hs => hs.record trivial) fun _ =>
        .bind Operation.clearError_plain fun _ => Operation.publish_plain (by decide)
  | unregister name =>
      refine .bind .get fun s => .bind (Operation.runIf_plain .throw) fun _ => ?_
      refine .bind (Operation.runIf_plain .throw) fun _ => ?_
      refine .bind (Operation.runIf_plain
        (Operation.ignoringErrors_plain Operation.stopPlugin_plain)) fun _ => ?_
      refine .bind (Operation.runIf_plain
        (Operation.ignoringErrors_plain Operation.unloadPlugin_plain)) fun _ => ?_
      exact .modify fun _ ht => ht
  | loadPlugin depth name => exact Operation.loadPlugin_plain depth name
  | startPlugin depth name => exact Operation.startPlugin_plain depth name
  | stopPlugin name => exact Operation.stopPlugin_plain
  | unloadPlugin name => exact Operation.unloadPlugin_plain
  | initializeAll depth => exact Operation.initializeAll_plain depth
  | shutdown => exact Operation.shutdown_plain
  | reload depth =>
      refine .bind .get fun s => .bind Operation.shutdown_plain fun _ => ?_
      refine .bind (Operation.initializeAll_plain depth) fun _ => .forM fun other _ => ?_
      refine .bind .get fun t => .ite (fun _ => ?_) fun _ => .pure
      exact Operation.ignoringErrors_plain (Operation.startPlugin_plain depth other)

end YasinCore.Plugins
