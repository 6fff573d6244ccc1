import YasinCore.Library.Transition
import YasinCore.Plugins.Lifecycle

namespace YasinCore.Plugins

open YasinCore.Library

def PluginState.value : PluginState → String
  | .registered => "REGISTERED"
  | .loaded => "LOADED"
  | .active => "ACTIVE"
  | .stopped => "STOPPED"
  | .failed => "FAILED"

structure HealthInfo where
  status : String
  healthy : Bool
  failedPlugins : List (PluginName × String)

-- health raises over a failed plugin without an error.
def Registry.health (s : Registry) : Option HealthInfo := do
  let failed := s.states.entries.filter fun entry => entry.2 = .failed
  let failedPlugins ← failed.mapM fun entry => (s.errors.get? entry.1).map (entry.1, ·)
  let healthy := failedPlugins.isEmpty
  return ⟨if healthy then "healthy" else "unhealthy", healthy, failedPlugins⟩

structure PluginStatus where
  state : String
  version : String
  dependencies : List PluginName
  coreVersionCompat : String
  description : String
  error : Option String

structure StatusInfo where
  state : String
  pluginCount : Nat
  plugins : Dict PluginName PluginStatus

def Registry.status (describe : YasinPlugin → String) (s : Registry) : StatusInfo where
  state := "active"
  pluginCount := s.plugins.size
  plugins := s.plugins.mapValues fun name plugin => {
    state := (s.state name).value
    version := plugin.version
    dependencies := plugin.dependencies
    coreVersionCompat := plugin.coreVersionCompat
    description := describe plugin
    error := s.errors.get? name }

-- The errors are those of the failed plugins, and the reports say so.
structure ErrorsCurrent (s : Registry) : Prop where
  states : ∀ name, name ∈ s.states ↔ name ∈ s.plugins
  errors : ∀ name, name ∈ s.errors ↔ s.states.get? name = some .failed
  health : s.health.isSome
  status : ∀ describe name report, (s.status describe).plugins.get? name = some report →
    (report.error.isSome ↔ s.states.get? name = some .failed)

-- The two facts on which the reports rest.
structure Agrees (s : Registry) : Prop where
  states : ∀ name, name ∈ s.states ↔ name ∈ s.plugins
  errors : ∀ name, name ∈ s.errors ↔ s.states.get? name = some .failed

-- A failed plugin comes back: its start or unload hook returns.
def Record.recovers (name : PluginName) : Record → Bool
  | .called other hook state raised =>
      other = name && (hook = .start || hook = .unload) && state = .failed && raised.isNone
  | _ => false

def Registry.recoveries (s : Registry) (name : PluginName) : Nat :=
  s.history.countP (Record.recovers name)

-- One call, whether or not it raises.
def call (hooks : Hooks) (s : Registry) (act : Action) : Option Registry :=
  some (finalState (act.operation hooks) s)

-- No failed plugin comes back in the call, but for one that the call unregisters.
def NoRecovery (hooks : Hooks) (s : Registry) (act : Action) : Prop :=
  ∀ name, act ≠ .unregister name →
    (finalState (act.operation hooks) s).recoveries name = s.recoveries name

-- In a call that has seen so many recoveries: the errors are current but for those of the skipped
-- plugins and of those that have come back.
structure KeptExcept (skip : PluginName → Prop) (plugins : Dict PluginName YasinPlugin)
    (seen : PluginName → Nat) (s : Registry) : Prop where
  registry : s.plugins = plugins
  states : ∀ name, name ∈ s.states ↔ name ∈ plugins
  grown : ∀ name, seen name ≤ s.recoveries name
  failed : ∀ name, ¬skip name → s.states.get? name = some .failed → name ∈ s.errors
  errors : ∀ name, ¬skip name → name ∈ s.errors →
    s.states.get? name = some .failed ∨ seen name < s.recoveries name

abbrev Kept := KeptExcept fun _ => False

section Updates

variable {skip : PluginName → Prop} {plugins : Dict PluginName YasinPlugin}
  {seen : PluginName → Nat} {s : Registry} {name other : PluginName} {state : PluginState}

theorem recoveries_record (record : Record) :
    ({ s with history := record :: s.history } : Registry).recoveries name =
      s.recoveries name + if record.recovers name then 1 else 0 :=
  List.countP_cons

theorem KeptExcept.record (h : KeptExcept skip plugins seen s) (record : Record) :
    KeptExcept skip plugins seen { s with history := record :: s.history } where
  registry := h.registry
  states := h.states
  grown name := by
    rw [recoveries_record]
    exact Nat.le_add_right_of_le (h.grown name)
  failed := h.failed
  errors name hs he := by
    rw [recoveries_record]
    exact (h.errors name hs he).imp_right fun hlt => Nat.lt_add_right _ hlt

theorem Kept.but (h : Kept plugins seen s) (name : PluginName) :
    KeptExcept (· = name) plugins seen s :=
  ⟨h.registry, h.states, h.grown, fun other _ => h.failed other id, fun other _ => h.errors other id⟩

theorem Kept.setState (h : Kept plugins seen s) (hname : name ∈ plugins) (state : PluginState) :
    KeptExcept (· = name) plugins seen { s with states := s.states.set name state } where
  registry := h.registry
  states other := by
    rw [Dict.mem_set, h.states]
    refine or_iff_right_of_imp ?_
    rintro rfl
    exact hname
  grown := h.grown
  failed other ho hf := by
    rw [Dict.get?_set_of_ne _ _ ho] at hf
    exact h.failed other id hf
  errors other ho he := by
    rw [Dict.get?_set_of_ne _ _ ho]
    exact h.errors other id he

-- Nothing has to be skipped any more once the plugin itself is in order.
theorem Kept.of_except (name : PluginName) (h : KeptExcept (· = name) plugins seen s)
    (hfailed : s.states.get? name = some .failed → name ∈ s.errors)
    (herrors : name ∈ s.errors → s.states.get? name = some .failed ∨ seen name < s.recoveries name) :
    Kept plugins seen s where
  registry := h.registry
  states := h.states
  grown := h.grown
  failed other _ := by
    by_cases ho : other = name
    · rw [ho]
      exact hfailed
    · exact h.failed other ho
  errors other _ := by
    by_cases ho : other = name
    · rw [ho]
      exact herrors
    · exact h.errors other ho

theorem KeptExcept.setError (h : KeptExcept (· = name) plugins seen s)
    (hstate : s.states.get? name = some .failed) (message : String) :
    Kept plugins seen { s with errors := s.errors.set name message } := by
  refine Kept.of_except name ⟨h.registry, h.states, h.grown, ?_, ?_⟩ ?_ ?_
  · intro other ho hf
    exact (Dict.mem_set ..).mpr (.inr (h.failed other ho hf))
  · intro other ho he
    exact h.errors other ho (((Dict.mem_set ..).mp he).resolve_left ho)
  · intro _
    exact (Dict.mem_set ..).mpr (.inl rfl)
  · intro _
    exact .inl hstate

theorem KeptExcept.clearError (h : KeptExcept (· = name) plugins seen s)
    (hstate : s.states.get? name ≠ some .failed) :
    Kept plugins seen { s with errors := s.errors.erase name } := by
  refine Kept.of_except name ⟨h.registry, h.states, h.grown, ?_, ?_⟩ ?_ ?_
  · intro other ho hf
    exact (Dict.mem_erase ..).mpr ⟨ho, h.failed other ho hf⟩
  · intro other ho he
    exact h.errors other ho ((Dict.mem_erase ..).mp he).2
  · intro hf
    exact absurd hf hstate
  · intro he
    exact absurd rfl ((Dict.mem_erase ..).mp he).1

-- Nothing remains of a plugin that is taken out.
theorem Kept.remove (h : Kept plugins seen s) (name : PluginName) :
    Kept (plugins.erase name) seen { s with
      plugins := s.plugins.erase name
      states := s.states.erase name
      errors := s.errors.erase name } where
  registry := by rw [h.registry]
  states other := by rw [Dict.mem_erase, Dict.mem_erase, h.states]
  grown := h.grown
  failed other _ hf := by
    rw [Dict.get?_erase] at hf
    split at hf
    · cases hf
    · exact (Dict.mem_erase ..).mpr ⟨‹_›, h.failed other id hf⟩
  errors other _ he := by
    obtain ⟨ho, he⟩ := (Dict.mem_erase ..).mp he
    rw [Dict.get?_erase_of_ne _ ho]
    exact h.errors other id he

theorem Agrees.kept (h : Agrees s) : Kept s.plugins s.recoveries s where
  registry := rfl
  states := h.states
  grown _ := le_rfl
  failed name _ hf := (h.errors name).mpr hf
  errors name _ he := .inl ((h.errors name).mp he)

-- The errors agree again when no plugin that has one came back.
theorem Kept.agrees (h : Kept plugins seen s)
    (hseen : ∀ name ∈ s.errors, s.recoveries name = seen name) : Agrees s where
  states name := by rw [h.states, h.registry]
  errors name := by
    refine ⟨fun he => (h.errors name id he).resolve_right ?_, h.failed name id⟩
    rw [hseen name he]
    exact lt_irrefl _

end Updates

namespace Operation

variable {hooks : Hooks} {skip : PluginName → Prop} {plugins : Dict PluginName YasinPlugin}
  {seen : PluginName → Nat} {name : PluginName}

theorem callHook_kept (hook : Hook) :
    Maintains (KeptExcept skip plugins seen) (callHook hooks name hook) :=
  callHook_triple hook (fun _ hs => hs.record _) fun _ _ hs => hs.record _

theorem publish_kept {event : String} {details : List (String × String)} :
    Maintains (KeptExcept skip plugins seen) (publish event name details) :=
  .modify fun _ hs => hs.record _

-- After a start or unload call that returns, a plugin with an error has come back. A stop call is
-- made on plugins without errors.
theorem callHook_returns {hook : Hook} (hhook : hook = .start ∨ hook = .unload ∨ hook = .stop) :
    Triple (fun s => Kept plugins seen s ∧ (hook = .stop → s.state name = .active))
      (callHook hooks name hook)
      (fun _ s => Kept plugins seen s ∧ (name ∈ s.errors → seen name < s.recoveries name))
      fun _ => Kept plugins seen := by
  refine callHook_triple hook (fun s ⟨hs, hstop⟩ => ⟨hs.record _, fun he => ?_⟩)
    fun s message hs => hs.1.record _
  rw [recoveries_record]
  rcases hs.errors name id he with hfailed | hlt
  · have hstate : s.state name = .failed := by rw [Registry.state, hfailed, Option.getD_some]
    have hrecovers : Record.recovers name (.called name hook (s.state name) none) = true := by
      rcases hhook with rfl | rfl | rfl
      · simp [Record.recovers, hstate]
      · simp [Record.recovers, hstate]
      · rw [hstop rfl] at hstate
        cases hstate
    rw [if_pos hrecovers]
    exact Nat.lt_succ_of_le (hs.grown name)
  · exact Nat.lt_add_right _ hlt

theorem setFailed_kept (hname : name ∈ plugins) :
    Triple (Kept plugins seen) (setState name .failed)
      (fun _ s => KeptExcept (· = name) plugins seen s ∧ s.states.get? name = some .failed)
      fun _ => Kept plugins seen :=
  .modify fun _ hs => ⟨hs.setState hname .failed, Dict.get?_set_self ..⟩

theorem setError_kept (message : String) :
    Triple (fun s => KeptExcept (· = name) plugins seen s ∧ s.states.get? name = some .failed)
      (setError name message) (fun _ => Kept plugins seen) fun _ => Kept plugins seen :=
  .modify fun _ hs => hs.1.setError hs.2 message

theorem fail_kept (hname : name ∈ plugins) {stage : String} {e : PluginError} :
    Maintains (Kept plugins seen) (fail name stage e) := by
  refine Triple.bind (setFailed_kept hname) fun _ => ?_
  exact Triple.bind (setError_kept e.str) fun _ => publish_kept.bind fun _ => .throw

-- What the three operations that end with one hook call and one change of state have in common.
theorem settle_kept (hname : name ∈ plugins) {hook : Hook}
    (hhook : hook = .start ∨ hook = .unload ∨ hook = .stop) {state : PluginState}
    (hstate : state ≠ .failed) {event stage : String} :
    Triple (fun s => Kept plugins seen s ∧ (hook = .stop → s.state name = .active))
      (tryCatch (do callHook hooks name hook; setState name state; publish event name [])
        fun e => fail name stage e)
      (fun _ => Kept plugins seen) fun _ => Kept plugins seen := by
  have hset : Triple
      (fun s => Kept plugins seen s ∧ (name ∈ s.errors → seen name < s.recoveries name))
      (setState name state) (fun _ => Kept plugins seen) fun _ => Kept plugins seen := by
    refine .modify fun s ⟨hs, herrors⟩ => .of_except name (hs.setState hname state) ?_ ?_
    · intro hf
      rw [Dict.get?_set_self] at hf
      exact absurd (Option.some.inj hf) hstate
    · exact fun he => .inr (herrors he)
  exact .tryCatch (.bind (callHook_returns hhook) fun _ => .bind hset fun _ => publish_kept)
    fun e => fail_kept hname

theorem completeLoad_kept (hname : name ∈ plugins) :
    Maintains (Kept plugins seen) (completeLoad hooks name) := by
  have hset : Triple (Kept plugins seen) (setState name .loaded)
      (fun _ s => KeptExcept (· = name) plugins seen s ∧ s.states.get? name ≠ some .failed)
      fun _ => Kept plugins seen := by
    refine .modify fun s hs => ⟨hs.setState hname .loaded, ?_⟩
    rw [Dict.get?_set_self]
    decide
  have hclear : Triple
      (fun s => KeptExcept (· = name) plugins seen s ∧ s.states.get? name ≠ some .failed)
      (clearError name) (fun _ => Kept plugins seen) fun _ => Kept plugins seen :=
    .modify fun s hs => hs.1.clearError hs.2
  refine .bind (callHook_kept .init) fun _ => .bind (callHook_kept .load) fun _ => ?_
  exact Triple.bind hset fun _ => Triple.bind hclear fun _ => publish_kept

-- The operations look their plugin up in the registry.
theorem kept_get_bind {α : Type} {next : Registry → Operation α}
    (h : ∀ s, s.plugins = plugins → Maintains (Kept plugins seen) (next s)) :
    Maintains (Kept plugins seen) (MonadState.get >>= next) := by
  refine Triple.get_bind fun s => ?_
  rintro t ⟨rfl, ht⟩
  exact h t ht.registry t ht

theorem known_of_kept (s : Registry) (name : PluginName) (h : Kept plugins seen s)
    (hname : name ∈ s.plugins) : name ∈ plugins := h.registry ▸ hname

theorem loadPlugin_kept (depth : Nat) (name : PluginName) :
    Maintains (Kept plugins seen) (loadPlugin hooks depth name) :=
  loadPlugin_maintains known_of_kept (fun _ _ hname => fail_kept hname)
    (fun _ => completeLoad_kept) depth name

theorem stopPlugin_kept : Maintains (Kept plugins seen) (stopPlugin hooks name) := by
  refine kept_get_bind fun s hs => ?_
  split
  · rename_i plugin hplugin
    have hname : name ∈ plugins := (Dict.mem_iff ..).mpr ⟨plugin, hs ▸ hplugin⟩
    refine Triple.get_bind fun t => .ite (fun _ => .pure fun _ ht => ht.2) fun ha => ?_
    refine (settle_kept hname (.inr (.inr rfl)) (by decide)).pre_imp ?_
    rintro u ⟨rfl, hu⟩
    exact ⟨hu, fun _ => not_not.mp ha⟩
  · exact .throw

theorem releasePlugin_kept (hname : name ∈ plugins) :
    Maintains (Kept plugins seen) (releasePlugin hooks name) :=
  (settle_kept hname (.inr (.inl rfl)) (by decide)).pre_imp fun _ hs => ⟨hs, nofun⟩

theorem unloadPlugin_kept : Maintains (Kept plugins seen) (unloadPlugin hooks name) := by
  refine kept_get_bind fun s hs => ?_
  split
  · rename_i plugin hplugin
    have hname : name ∈ plugins := (Dict.mem_iff ..).mpr ⟨plugin, hs ▸ hplugin⟩
    refine .bind .get fun t => ?_
    split
    · exact .pure
    · exact .bind stopPlugin_kept fun _ => releasePlugin_kept hname
    · exact releasePlugin_kept hname
    · exact releasePlugin_kept hname
    · exact releasePlugin_kept hname
  · exact .throw

theorem startPlugin_kept (depth : Nat) (name : PluginName) :
    Maintains (Kept plugins seen) (startPlugin hooks depth name) :=
  startPlugin_maintains known_of_kept loadPlugin_kept (fun _ hname =>
    (settle_kept hname (.inl rfl) (by decide)).pre_imp fun _ ht => ⟨ht, nofun⟩) depth name

theorem ignoringErrors_kept {operation : Operation Unit} (h : Maintains (Kept plugins seen) operation) :
    Maintains (Kept plugins seen) (ignoringErrors operation) := .tryCatch h fun _ => .pure

theorem runIf_kept {condition : Prop} [Decidable condition] {operation : Operation Unit}
    (h : Maintains (Kept plugins seen) operation) :
    Maintains (Kept plugins seen) (runIf condition operation) :=
  .ite (fun _ => h) fun _ => .pure

theorem initializeAll_kept (depth : Nat) : Maintains (Kept plugins seen) (initializeAll hooks depth) := by
  refine kept_get_bind fun s hs => .forM fun other ho => .tryCatch ?_ fun e => ?_
  · exact .bind Stable.validate fun _ => loadPlugin_kept depth other
  · have hother : other ∈ plugins := hs ▸ ho
    exact Triple.bind (setFailed_kept hother) fun _ => setError_kept e.str

theorem shutdown_kept : Maintains (Kept plugins seen) (shutdown hooks) := by
  refine .bind .get fun s => .forM fun other _ => ignoringErrors_kept ?_
  refine .bind .get fun t => .bind (runIf_kept stopPlugin_kept) fun _ => ?_
  exact .bind .get fun u => runIf_kept unloadPlugin_kept

theorem reload_kept (depth : Nat) : Maintains (Kept plugins seen) (reload hooks depth) := by
  refine .bind .get fun s => .bind shutdown_kept fun _ => .bind (initializeAll_kept depth) fun _ => ?_
  refine .forM fun other _ => .bind .get fun t => .ite (fun _ => ?_) fun _ => .pure
  exact ignoringErrors_kept (startPlugin_kept depth other)

theorem register_agrees {s : Registry} (h : Agrees s) (plugin : YasinPlugin) :
    Agrees (finalState (register plugin) s) := by
  refine ⟨fun name => ?_, fun name => ?_⟩
  · change name ∈ s.states.set plugin.name .registered ↔ name ∈ s.plugins.set plugin.name plugin
    rw [Dict.mem_set, Dict.mem_set, h.states]
  · change name ∈ s.errors.erase plugin.name ↔
      (s.states.set plugin.name .registered).get? name = some .failed
    rw [Dict.mem_erase, h.errors, Dict.get?_set]
    by_cases hn : name = plugin.name <;> simp [hn]

-- A call of unregister raises before it does anything, or takes the plugin out.
theorem unregister_kept {s : Registry} (h : Agrees s) :
    Triple (· = s) (unregister hooks name)
      (fun _ t => Kept (s.plugins.erase name) s.recoveries t ∧ name ∉ t.errors) fun _ => (· = s) := by
  have hrefuse {condition : Prop} [Decidable condition] {e : PluginError} :
      Triple (· = s) (runIf condition (throw e)) (fun _ => (· = s)) fun _ => (· = s) :=
    .ite (fun _ => .throw fun _ => id) fun _ => .pure fun _ => id
  have hquietly {operation : Operation Unit} {condition : Prop} [Decidable condition]
      (ho : Maintains (Kept s.plugins s.recoveries) operation) :
      Triple (Kept s.plugins s.recoveries) (runIf condition (ignoringErrors operation))
        (fun _ => Kept s.plugins s.recoveries) fun _ _ => False :=
    .ite (fun _ => .tryCatch ho fun _ => .pure fun _ => id) fun _ => .pure fun _ => id
  refine Triple.get_bind_eq (Triple.bind hrefuse fun _ => Triple.bind hrefuse fun _ => ?_)
  refine Triple.bind ((hquietly stopPlugin_kept).of_total.pre_imp ?_) fun _ =>
    Triple.bind (hquietly unloadPlugin_kept).of_total fun _ => .modify fun t ht => ⟨ht.remove name, ?_⟩
  · rintro t rfl
    exact h.kept
  · rw [Dict.mem_erase]
    exact fun he => he.1 rfl

end Operation

-- What one call without recoveries keeps.
theorem agrees_operation {hooks : Hooks} {s : Registry} (h : Agrees s) {act : Action}
    (hquiet : NoRecovery hooks s act) : Agrees (finalState (act.operation hooks) s) := by
  have hkept (hne : ∀ name, act ≠ .unregister name)
      (hm : Maintains (Kept s.plugins s.recoveries) (act.operation hooks)) :
      Agrees (finalState (act.operation hooks) s) :=
    (hm.finalState h.kept).agrees fun name _ => hquiet name (hne name)
  cases act with
  | register plugin => exact Operation.register_agrees h plugin
  | unregister name =>
      rcases (Operation.unregister_kept h).outcome rfl with ⟨_, _, hk, hn⟩ | ⟨_, _, he⟩
      · refine hk.agrees fun other ho => hquiet other fun heq => ?_
        cases heq
        exact hn ho
      · change Agrees (finalState (Operation.unregister hooks name) s)
        rw [he]
        exact h
  | loadPlugin depth name => exact hkept nofun (Operation.loadPlugin_kept depth name)
  | startPlugin depth name => exact hkept nofun (Operation.startPlugin_kept depth name)
  | stopPlugin name => exact hkept nofun Operation.stopPlugin_kept
  | unloadPlugin name => exact hkept nofun Operation.unloadPlugin_kept
  | initializeAll depth => exact hkept nofun (Operation.initializeAll_kept depth)
  | shutdown => exact hkept nofun Operation.shutdown_kept
  | reload depth => exact hkept nofun (Operation.reload_kept depth)

theorem mapM_isSome {α β : Type} {f : α → Option β} {items : List α}
    (h : ∀ item ∈ items, ∃ found, f item = some found) : (items.mapM f).isSome := by
  induction items with
  | nil => rfl
  | cons item items ih =>
      obtain ⟨found, hfound⟩ := h item List.mem_cons_self
      obtain ⟨rest, hrest⟩ := Option.isSome_iff_exists.mp (ih fun other ho => h other (.tail _ ho))
      rw [List.mapM_cons, hfound, hrest]
      rfl

-- The reports never fail and show the errors of the failed plugins.
theorem Agrees.current {s : Registry} (h : Agrees s) : ErrorsCurrent s where
  states := h.states
  errors := h.errors
  health := by
    have hfailed : ((s.states.entries.filter fun entry => entry.2 = .failed).mapM fun entry =>
        (s.errors.get? entry.1).map (entry.1, ·)).isSome := by
      refine mapM_isSome fun ⟨name, state⟩ he => ?_
      obtain ⟨he, hstate⟩ := List.mem_filter.mp he
      obtain rfl : state = .failed := of_decide_eq_true hstate
      rw [Dict.mem_entries_iff] at he
      obtain ⟨message, hmessage⟩ := (Dict.mem_iff ..).mp ((h.errors name).mpr he)
      exact ⟨(name, message), by rw [hmessage]; rfl⟩
    obtain ⟨failedPlugins, hf⟩ := Option.isSome_iff_exists.mp hfailed
    rw [Registry.health, hf]
    rfl
  status describe name report hr := by
    rw [Registry.status, Dict.get?_mapValues] at hr
    obtain ⟨plugin, _, rfl⟩ := Option.map_eq_some_iff.mp hr
    rw [← h.errors, Dict.mem_iff, ← Option.isSome_iff_exists]

-- In every run whose start and unload calls all raise where they meet a failed plugin, the errors
-- are current in every state reached.
theorem errors_current (hooks : Hooks) (acts : List Action)
    (hquiet : Meets (call hooks) (NoRecovery hooks) .empty acts) :
    Always (call hooks) ErrorsCurrent .empty acts := by
  refine always_iff.mpr fun first second s he hr => ?_
  rw [he] at hquiet
  have hempty : Agrees .empty := ⟨fun _ => Iff.rfl, fun name => by
    constructor
    · exact nofun
    · exact nofun⟩
  refine Agrees.current (hr.invariant Agrees ?_ ((Meets.append hr).mp hquiet).1 hempty)
  intro t act u ht hg hu
  exact Option.some.inj hu ▸ agrees_operation ht hg

-- Whether no hook has returned over a failed plugin so far.
def Registry.quiet (s : Registry) : Bool :=
  s.history.all fun
    | .called _ _ .failed none => false
    | _ => true

theorem recoveries_of_quiet {s : Registry} (h : s.quiet) (name : PluginName) :
    s.recoveries name = 0 := by
  refine List.countP_eq_zero.mpr fun record hr => ?_
  have hrecord := List.all_eq_true.mp h record hr
  unfold Record.recovers
  split
  · rename_i state raised
    cases state with
    | failed =>
        cases raised with
        | none => cases hrecord
        | some message => simp
    | registered | loaded | active | stopped => simp
  · exact Bool.false_ne_true

theorem noRecovery_of_quiet {hooks : Hooks} {s : Registry} {act : Action} (hs : s.quiet)
    (ht : (finalState (act.operation hooks) s).quiet) : NoRecovery hooks s act := fun name _ => by
  rw [recoveries_of_quiet hs, recoveries_of_quiet ht]

-- A plugin that fails to start has an error until it is registered again.
def brokenStart : Hooks := fun _ _ hook => if hook = .start then some "no port" else none

def registerAgain : List Action :=
  [.register brokenPlugin, .startPlugin 900 "broken", .register brokenPlugin]

theorem registerAgain_quiet : Meets (call brokenStart) (NoRecovery brokenStart) .empty registerAgain := by
  refine .cons rfl (noRecovery_of_quiet (by decide) (by decide)) ?_
  refine .cons rfl (noRecovery_of_quiet (by decide) (by decide)) ?_
  exact .cons rfl (noRecovery_of_quiet (by decide) (by decide)) trivial

theorem errors_current_registerAgain : Always (call brokenStart) ErrorsCurrent .empty registerAgain :=
  errors_current brokenStart registerAgain registerAgain_quiet

-- A plugin that failed to load and is active all the same is still shown with its error.
theorem stale_error : ¬Always (call brokenLoad) ErrorsCurrent .empty startBroken := by
  intro h
  have hrun : Run (call brokenLoad) .empty startBroken (perform brokenLoad startBroken) :=
    .of_foldlM rfl
  have hcurrent := always_iff.mp h startBroken [] _ rfl hrun
  have hactive : (perform brokenLoad startBroken).states.get? "broken" = some .active := rfl
  have herror : "broken" ∈ (perform brokenLoad startBroken).errors :=
    (Dict.mem_iff ..).mpr ⟨"no resources", rfl⟩
  have hfailed := (hcurrent.errors "broken").mp herror
  rw [hactive] at hfailed
  cases hfailed

end YasinCore.Plugins
