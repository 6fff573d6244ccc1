import YasinCore.Library.Hoare
import YasinCore.Plugins.Registry

namespace YasinCore.Plugins

open YasinCore.Library

section Updates

variable (s : Registry) (name other : PluginName) (state : PluginState)

theorem state_set : ({ s with states := s.states.set name state } : Registry).state other =
    if other = name then state else s.state other := by
  unfold Registry.state
  rw [Dict.get?_set]
  split <;> rfl

end Updates

-- A property that survives records, error texts and every change of a state to one of the allowed.
structure Stable (allowed : PluginState → Prop) (inv : Registry → Prop) : Prop where
  history : ∀ s history, inv s → inv { s with history := history }
  errors : ∀ s errors, inv s → inv { s with errors := errors }
  states : ∀ s name state, allowed state → inv s → inv { s with states := s.states.set name state }

namespace Stable

variable {allowed : PluginState → Prop} {inv : Registry → Prop} {hooks : Hooks} {name : PluginName}

theorem setState (h : Stable allowed inv) {state : PluginState} (ha : allowed state) :
    Maintains inv (Operation.setState name state) :=
  .modify fun s => h.states s name state ha

theorem clearError (h : Stable allowed inv) : Maintains inv (Operation.clearError name) :=
  .modify fun s => h.errors s _

theorem setError (h : Stable allowed inv) {message : String} :
    Maintains inv (Operation.setError name message) :=
  .modify fun s => h.errors s _

theorem publish (h : Stable allowed inv) {event : String} {details : List (String × String)} :
    Maintains inv (Operation.publish event name details) :=
  .modify fun s => h.history s _

theorem callHook (h : Stable allowed inv) {hook : Hook} :
    Maintains inv (Operation.callHook hooks name hook) := by
  refine .bind .get fun s => .bind (.modify fun t => h.history t _) fun _ => ?_
  split
  · exact .pure
  · exact .throw

theorem fail (h : Stable allowed inv) (hf : allowed .failed) {stage : String} {e : PluginError} :
    Maintains inv (Operation.fail name stage e) :=
  .bind (h.setState hf) fun _ => .bind h.setError fun _ => .bind h.publish fun _ => .throw

theorem validate {depth : Nat} : Maintains inv (Operation.validate depth name) := by
  refine .bind .get fun s => ?_
  split
  · exact .pure
  · exact .throw

theorem completeLoad (h : Stable allowed inv) (hl : allowed .loaded) :
    Maintains inv (Operation.completeLoad hooks name) :=
  .bind h.callHook fun _ => .bind h.callHook fun _ => .bind (h.setState hl) fun _ =>
    .bind h.clearError fun _ => h.publish

theorem activatePlugin (h : Stable allowed inv) (hf : allowed .failed) (ha : allowed .active) :
    Maintains inv (Operation.activatePlugin hooks name) :=
  .tryCatch (.bind h.callHook fun _ => .bind (h.setState ha) fun _ => h.publish) fun _ => h.fail hf

end Stable

namespace Operation

variable {inv : Registry → Prop} {known : PluginName → Prop} {hooks : Hooks}

-- What a load does, however deep it goes: it fails, or completes, for plugins of the registry.
theorem loadPlugin_maintains (hknown : ∀ s name, inv s → name ∈ s.plugins → known name)
    (hfail : ∀ name e, known name → Maintains inv (fail name "load" e))
    (hcomplete : ∀ name, known name → Maintains inv (completeLoad hooks name))
    (depth : Nat) (name : PluginName) : Maintains inv (loadPlugin hooks depth name) := by
  induction depth generalizing name with
  | zero => exact .throw
  | succ depth ih =>
      refine Triple.of_state fun s hs => .get_bind_eq ?_
      split
      · rename_i plugin hplugin
        have hname : known name := hknown s name hs ((Dict.mem_iff ..).mpr ⟨plugin, hplugin⟩)
        refine .get_bind_eq (.ite (fun _ => .pure fun t ht => ht ▸ hs) fun _ => ?_)
        refine Triple.pre_imp (Maintains.tryCatch ?_ fun e => hfail name e hname) fun t ht => ht ▸ hs
        refine .bind Stable.validate fun _ => .bind (.forM fun dep _ => ?_) fun _ => hcomplete name hname
        exact .bind .get fun t => .ite (fun _ => ih dep) fun _ => .pure
      · exact .throw fun t ht => ht ▸ hs

-- What a start does: loads, and then activations for plugins of the registry.
theorem startPlugin_maintains (hknown : ∀ s name, inv s → name ∈ s.plugins → known name)
    (hload : ∀ depth name, Maintains inv (loadPlugin hooks depth name))
    (hactivate : ∀ name, known name → Maintains inv (activatePlugin hooks name))
    (depth : Nat) (name : PluginName) : Maintains inv (startPlugin hooks depth name) := by
  induction depth generalizing name with
  | zero => exact .throw
  | succ depth ih =>
      refine Triple.of_state fun s hs => .get_bind_eq ?_
      split
      · rename_i plugin hplugin
        have hname : known name := hknown s name hs ((Dict.mem_iff ..).mpr ⟨plugin, hplugin⟩)
        refine .get_bind_eq (.ite (fun _ => .pure fun t ht => ht ▸ hs) fun _ => ?_)
        refine Triple.pre_imp (Maintains.bind ?_ fun _ => .bind (.forM fun dep _ => ?_)
          fun _ => hactivate name hname) fun t ht => ht ▸ hs
        · exact .bind .get fun t => .ite (fun _ => hload depth name) fun _ => .pure
        · exact .bind .get fun t => .ite (fun _ => ih dep) fun _ => .pure
      · exact .throw fun t ht => ht ▸ hs

end Operation

namespace Stable

variable {allowed : PluginState → Prop} {inv : Registry → Prop} {hooks : Hooks}

theorem loadPlugin (h : Stable allowed inv) (hf : allowed .failed) (hl : allowed .loaded)
    (depth : Nat) (name : PluginName) : Maintains inv (Operation.loadPlugin hooks depth name) :=
  Operation.loadPlugin_maintains (fun _ _ _ _ => trivial) (fun _ _ _ => h.fail hf)
    (fun _ _ => h.completeLoad hl) depth name

theorem startPlugin (h : Stable allowed inv) (hf : allowed .failed) (hl : allowed .loaded)
    (ha : allowed .active) (depth : Nat) (name : PluginName) :
    Maintains inv (Operation.startPlugin hooks depth name) :=
  Operation.startPlugin_maintains (fun _ _ _ _ => trivial)
    (fun depth name => h.loadPlugin hf hl depth name)
    (fun _ _ => h.activatePlugin hf ha) depth name

end Stable

end YasinCore.Plugins
