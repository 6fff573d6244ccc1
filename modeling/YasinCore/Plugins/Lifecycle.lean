import YasinCore.Plugins.Stability

namespace YasinCore.Plugins

open YasinCore.Library

-- The states of a plugin that is in service or was.
def PluginState.Loaded (state : PluginState) : Prop :=
  state = .loaded ∨ state = .active ∨ state = .stopped

instance (state : PluginState) : Decidable state.Loaded := inferInstanceAs (Decidable (_ ∨ _ ∨ _))

-- Whether a record decides that the plugin is loaded, or that it is not.
def Record.settles (name : PluginName) : Record → Option Bool
  | .registered other => if other = name then some false else none
  | .called other .load _ none => if other = name then some true else none
  | .called other .unload _ _ => if other = name then some false else none
  | _ => none

-- The load hook of the plugin has returned since its last registration or unload.
def LoadedSince (name : PluginName) (history : List Record) : Prop :=
  history.findSome? (Record.settles name) = some true

-- A property of every start call: the plugin, its state at the call, and what came before.
def EveryStart (prop : PluginName → PluginState → List Record → Prop) : List Record → Prop
  | [] => True
  | .called name .start state _ :: older => prop name state older ∧ EveryStart prop older
  | _ :: older => EveryStart prop older

def StartsLoaded : List Record → Prop := EveryStart fun name _ older => LoadedSince name older

-- Where the registry calls start on a plugin it holds as FAILED, the plugin is loaded all the same.
def FailedStartsLoaded : List Record → Prop :=
  EveryStart fun name state older => state = .failed → LoadedSince name older

-- The hooks have been called in lifecycle order.
def LifecycleOrder (s : Registry) : Prop :=
  StartsLoaded s.history ∧ ∀ name, (s.state name).Loaded → LoadedSince name s.history

-- The calls of a client, one after the other, from a registry without plugins.
def perform (hooks : Hooks) (acts : List Action) : Registry :=
  acts.foldl (fun s act => finalState (act.operation hooks) s) .empty

section History

variable {name other : PluginName} {record : Record} {history : List Record}

theorem loadedSince_cons : LoadedSince name (record :: history) ↔
    record.settles name = some true ∨ record.settles name = none ∧ LoadedSince name history := by
  unfold LoadedSince
  rw [List.findSome?_cons]
  cases record.settles name with
  | none => simp
  | some answer => simp

theorem everyStart_imp {prop weaker : PluginName → PluginState → List Record → Prop}
    (himp : ∀ name state older, prop name state older → weaker name state older)
    (h : EveryStart prop history) : EveryStart weaker history := by
  induction history with
  | nil => trivial
  | cons record older ih =>
      cases record with
      | registered | published => exact ih h
      | called name hook state raised =>
          cases hook with
          | start => exact ⟨himp name state older h.1, ih h.2⟩
          | init | load | stop | unload => exact ih h

end History

-- The order of the hooks, for all plugins but the skipped ones, as far as the starts allow it.
def SoundExcept (skip : PluginName → Prop) (s : Registry) : Prop :=
  FailedStartsLoaded s.history →
    StartsLoaded s.history ∧ ∀ name, ¬skip name → (s.state name).Loaded → LoadedSince name s.history

def Sound : Registry → Prop := SoundExcept fun _ => False

def SoundBut (name : PluginName) : Registry → Prop := SoundExcept (· = name)

-- When the starts so far allow it, the plugin is loaded.
def LoadedIn (name : PluginName) (s : Registry) : Prop :=
  FailedStartsLoaded s.history → LoadedSince name s.history

theorem Sound.but {s : Registry} (h : Sound s) (name : PluginName) : SoundBut name s :=
  fun hf => ⟨(h hf).1, fun other _ => (h hf).2 other id⟩

section States

variable {s : Registry} {name : PluginName}

-- Once the plugin is not taken for loaded any more, or is loaded, nothing has to be skipped.
theorem SoundBut.setState {state : PluginState} (h : SoundBut name s)
    (hl : state.Loaded → LoadedIn name s) :
    Sound { s with states := s.states.set name state } := by
  intro hf
  refine ⟨(h hf).1, fun other _ ho => ?_⟩
  rw [state_set] at ho
  by_cases he : other = name
  · subst he
    rw [if_pos rfl] at ho
    exact hl ho hf
  · rw [if_neg he] at ho
    exact (h hf).2 other he ho

-- A record that is no start and settles nothing but the skipped plugins.
theorem SoundExcept.record {skip : PluginName → Prop} (h : SoundExcept skip s) {record : Record}
    (hstart : ∀ other state raised, record ≠ .called other .start state raised)
    (hsettles : ∀ other, ¬skip other → record.settles other = none) :
    SoundExcept skip { s with history := record :: s.history } := by
  have hevery (prop : PluginName → PluginState → List Record → Prop) :
      EveryStart prop (record :: s.history) ↔ EveryStart prop s.history := by
    cases record with
    | registered | published => rfl
    | called other hook state raised =>
        cases hook with
        | start => exact absurd rfl (hstart other state raised)
        | init | load | stop | unload => rfl
  intro hf
  obtain ⟨hs, hl⟩ := h ((hevery _).mp hf)
  refine ⟨(hevery _).mpr hs, fun other ho hstate => loadedSince_cons.mpr (.inr ⟨hsettles other ho, ?_⟩)⟩
  exact hl other ho hstate

end States

namespace Operation

variable {hooks : Hooks} {name : PluginName}

theorem callHook_eq (hook : Hook) (s : Registry) : callHook hooks name hook s =
    match hooks s.history name hook with
    | none => .ok () { s with history := .called name hook (s.state name) none :: s.history }
    | some message => .error (.hook message)
        { s with history := .called name hook (s.state name) (some message) :: s.history } := by
  cases hr : hooks s.history name hook with
  | none =>
      change (match hooks s.history name hook with | none => _ | some _ => _ : Operation Unit) _ = _
      rw [hr]
      rfl
  | some message =>
      change (match hooks s.history name hook with | none => _ | some _ => _ : Operation Unit) _ = _
      rw [hr]
      rfl

-- What holds after a call of a hook follows from the record that the call leaves.
theorem callHook_triple {pre : Registry → Prop} {post : Registry → Prop} {raised : Registry → Prop}
    (hook : Hook)
    (hpost : ∀ s, pre s →
      post { s with history := .called name hook (s.state name) none :: s.history })
    (hraised : ∀ s message, pre s →
      raised { s with history := .called name hook (s.state name) (some message) :: s.history }) :
    Triple pre (callHook hooks name hook) (fun _ => post) fun _ => raised := by
  intro s hs
  rw [callHook_eq]
  cases hooks s.history name hook with
  | none => exact hpost s hs
  | some message => exact hraised s message hs

theorem callHook_init : Maintains Sound (callHook hooks name .init) := by
  refine callHook_triple .init (fun s hs => SoundExcept.record hs ?_ fun other _ => ?_)
    fun s message hs => SoundExcept.record hs ?_ fun other _ => ?_
  all_goals simp [Record.settles]

-- A plugin that is stopped while it is active is loaded.
theorem callHook_stop : Triple (fun s => Sound s ∧ s.state name = .active) (callHook hooks name .stop)
    (fun _ s => Sound s ∧ LoadedIn name s) fun _ => Sound := by
  have hsound (s : Registry) (raised : Option String) (hs : Sound s) :
      Sound { s with history := .called name .stop (s.state name) raised :: s.history } :=
    SoundExcept.record hs (by simp) fun other _ => by simp [Record.settles]
  refine callHook_triple .stop (fun s hs => ⟨hsound s none hs.1, fun hf => ?_⟩)
    fun s message hs => hsound s (some message) hs.1
  have hl : LoadedSince name s.history := (hs.1 hf).2 name id (.inr (.inl hs.2))
  exact loadedSince_cons.mpr (.inr ⟨by simp [Record.settles], hl⟩)

-- After an unload call nothing is known about the plugin itself.
theorem callHook_unload : Triple Sound (callHook hooks name .unload) (fun _ => SoundBut name)
    fun _ => SoundBut name := by
  refine callHook_triple .unload (fun s hs => (hs.but name).record (by simp) fun other ho => ?_)
    fun s message hs => (hs.but name).record (by simp) fun other ho => ?_
  all_goals simp [Record.settles, Ne.symm ho]

theorem callHook_load : Triple Sound (callHook hooks name .load)
    (fun _ s => SoundBut name s ∧ LoadedIn name s) fun _ => Sound := by
  refine callHook_triple .load (fun s hs => ⟨?_, fun _ => ?_⟩) fun s message hs => ?_
  · exact (hs.but name).record (by simp) fun other ho => by simp [Record.settles, Ne.symm ho]
  · exact loadedSince_cons.mpr (.inl (by simp [Record.settles]))
  · exact SoundExcept.record hs (by simp) fun other _ => by simp [Record.settles]

-- A start call is in order unless it meets a failed plugin that is not loaded.
theorem callHook_start :
    Triple (fun s => Sound s ∧ s.state name ≠ .registered) (callHook hooks name .start)
      (fun _ s => Sound s ∧ LoadedIn name s) fun _ => Sound := by
  have hloaded (s : Registry) (hs : Sound s) (hstate : s.state name ≠ .registered)
      (hf : FailedStartsLoaded s.history) (hfail : s.state name = .failed → LoadedSince name s.history) :
      LoadedSince name s.history := by
    have hl := (hs hf).2 name id
    cases hstate' : s.state name with
    | registered => exact absurd hstate' hstate
    | failed => exact hfail hstate'
    | loaded => exact hl (.inl hstate')
    | active => exact hl (.inr (.inl hstate'))
    | stopped => exact hl (.inr (.inr hstate'))
  have hkeep (other : PluginName) (state : PluginState) (raised : Option String)
      (history : List Record) : LoadedSince other (.called name .start state raised :: history) ↔
        LoadedSince other history := by
    simp [loadedSince_cons, Record.settles]
  have hsound (s : Registry) (raised : Option String) (hs : Sound s)
      (hstate : s.state name ≠ .registered) :
      Sound { s with history := .called name .start (s.state name) raised :: s.history } := by
    rintro ⟨hfail, hf⟩
    refine ⟨⟨hloaded s hs hstate hf hfail, (hs hf).1⟩, fun other ho hl => (hkeep ..).mpr ?_⟩
    exact (hs hf).2 other ho hl
  refine callHook_triple .start (fun s hs => ⟨hsound s none hs.1 hs.2, fun hf => (hkeep ..).mpr ?_⟩)
    fun s message hs => hsound s (some message) hs.1 hs.2
  exact hloaded s hs.1 hs.2 hf.2 hf.1

theorem setState_sound {state : PluginState} :
    Triple (fun s => SoundBut name s ∧ (state.Loaded → LoadedIn name s)) (setState name state)
      (fun _ => Sound) fun _ => Sound :=
  .modify fun _ hs => hs.1.setState hs.2

theorem clearError_sound : Maintains Sound (clearError name) := .modify fun _ hs => hs

theorem setError_sound {message : String} : Maintains Sound (setError name message) :=
  .modify fun _ hs => hs

theorem publish_sound {event : String} {details : List (String × String)} :
    Maintains Sound (publish event name details) :=
  .modify fun _ hs => SoundExcept.record hs (by simp) fun _ _ => rfl

theorem setFailed_sound : Triple (SoundBut name) (setState name .failed) (fun _ => Sound)
    fun _ => Sound :=
  setState_sound.pre_imp fun _ hs => ⟨hs, by simp [PluginState.Loaded]⟩

theorem fail_sound {stage : String} {e : PluginError} :
    Triple (SoundBut name) (fail name stage e) (fun _ => Sound) fun _ => Sound :=
  .bind setFailed_sound fun _ => .bind setError_sound fun _ => .bind publish_sound fun _ => Maintains.throw

theorem validate_sound {depth : Nat} : Maintains Sound (validate depth name) := Stable.validate

theorem completeLoad_sound : Maintains Sound (completeLoad hooks name) := by
  refine .bind callHook_init fun _ => Triple.bind callHook_load fun _ => ?_
  refine .bind (setState_sound.pre_imp fun s hs => ⟨hs.1, fun _ => hs.2⟩) fun _ => ?_
  exact .bind clearError_sound fun _ => publish_sound

theorem loadPlugin_sound (depth : Nat) (name : PluginName) :
    Maintains Sound (loadPlugin hooks depth name) :=
  loadPlugin_maintains (fun _ _ _ _ => trivial)
    (fun name _ _ => fail_sound.pre_imp fun _ hs => hs.but name)
    (fun _ _ => completeLoad_sound) depth name

-- What the three operations that end with one hook call and one change of state have in common.
theorem settle_sound {pre : Registry → Prop} {hook : Hook} {state : PluginState} {event stage : String}
    (h : Triple pre (callHook hooks name hook)
      (fun _ s => SoundBut name s ∧ (state.Loaded → LoadedIn name s)) fun _ => SoundBut name) :
    Triple pre
      (tryCatch (do callHook hooks name hook; setState name state; publish event name [])
        fun e => fail name stage e) (fun _ => Sound) fun _ => Sound := by
  refine .tryCatch (Triple.bind h fun _ => ?_) fun e => fail_sound
  refine Triple.bind (setState_sound.imp (fun _ => id) (fun _ _ => id) fun _ _ hs => hs.but name)
    fun _ => ?_
  exact publish_sound.imp (fun _ => id) (fun _ _ => id) fun _ _ hs => hs.but name

theorem stopPlugin_sound : Maintains Sound (stopPlugin hooks name) := by
  refine .bind .get fun s => ?_
  split
  · refine Triple.get_bind fun t => .ite (fun _ => .pure fun _ hs => hs.2) fun ha => ?_
    have hactive : t.state name = .active := not_not.mp ha
    refine settle_sound (callHook_stop.imp ?_ ?_ ?_)
    · rintro s ⟨rfl, hs⟩
      exact ⟨hs, hactive⟩
    · exact fun _ s hs => ⟨hs.1.but name, fun _ => hs.2⟩
    · exact fun _ s hs => hs.but name
  · exact .throw

theorem releasePlugin_sound : Maintains Sound (releasePlugin hooks name) :=
  settle_sound (callHook_unload.imp (fun _ => id)
    (fun _ _ hs => ⟨hs, by simp [PluginState.Loaded]⟩) fun _ _ => id)

theorem unloadPlugin_sound : Maintains Sound (unloadPlugin hooks name) := by
  refine .bind .get fun s => ?_
  split
  · refine .bind .get fun t => ?_
    split
    · exact .pure
    · exact .bind stopPlugin_sound fun _ => releasePlugin_sound
    · exact releasePlugin_sound
    · exact releasePlugin_sound
    · exact releasePlugin_sound
  · exact .throw

theorem activatePlugin_sound : Triple (fun s => Sound s ∧ s.state name ≠ .registered)
    (activatePlugin hooks name) (fun _ => Sound) fun _ => Sound :=
  settle_sound (callHook_start.imp (fun _ => id) (fun _ _ hs => ⟨hs.1.but name, fun _ => hs.2⟩)
    fun _ _ hs => hs.but name)

-- Loading and starting never bring a plugin back to REGISTERED.
theorem stable_not_registered (name : PluginName) :
    Stable (· ≠ .registered) fun s => s.state name ≠ .registered where
  history _ _ := id
  errors _ _ := id
  states s other state ha hs := by
    rw [state_set]
    split
    · exact ha
    · exact hs

theorem fail_raises {stage : String} {e : PluginError} :
    Triple (fun _ => True) (fail name stage e) (fun _ _ => False) fun _ _ => True :=
  .bind .trivial fun _ => .bind .trivial fun _ => .bind .trivial fun _ => .throw fun _ => id

theorem completeLoad_state : Triple (fun _ => True) (completeLoad hooks name)
    (fun _ s => s.state name = .loaded) fun _ _ => True := by
  have hset : Triple (fun _ => True) (setState name .loaded) (fun _ s => s.state name = .loaded)
      fun _ _ => True := .modify fun s _ => by rw [state_set, if_pos rfl]
  refine .bind .trivial fun _ => .bind .trivial fun _ => .bind hset fun _ => ?_
  exact .bind (.modify fun _ => id) fun _ => .modify fun _ => id

-- A call of load_plugin that returns leaves the plugin beyond REGISTERED.
theorem loadPlugin_state (depth : Nat) : Triple (fun _ => True) (loadPlugin hooks depth name)
    (fun _ s => s.state name ≠ .registered) fun _ _ => True := by
  cases depth with
  | zero => exact .throw fun _ => id
  | succ depth =>
      refine .bind .trivial fun s => ?_
      split
      · refine Triple.get_bind fun t => .ite (fun hne => .pure ?_) fun _ => ?_
        · rintro s ⟨rfl, _⟩
          exact hne
        · refine .tryCatch (.bind .trivial fun _ => .bind .trivial fun _ => completeLoad_state.imp
            (fun _ => id) (fun _ _ h => by simp [h]) fun _ _ => id) fun e => ?_
          exact fail_raises.imp (fun _ => id) (fun _ _ h => h.elim) fun _ _ => id
      · exact .throw fun _ => id

theorem loadIfRegistered_sound (depth : Nat) : Triple Sound (loadIfRegistered hooks depth name)
    (fun _ s => Sound s ∧ s.state name ≠ .registered) fun _ => Sound := by
  refine Triple.get_bind fun t => .ite (fun _ => ?_) fun hne => .pure ?_
  · refine Triple.imp ((loadPlugin_sound depth name).and (loadPlugin_state depth)) ?_ (fun _ _ => id)
      fun _ _ hs => hs.1
    exact fun s hs => ⟨hs.2, trivial⟩
  · rintro s ⟨rfl, hs⟩
    exact ⟨hs, hne⟩

theorem startPlugin_sound (depth : Nat) (name : PluginName) :
    Maintains Sound (startPlugin hooks depth name) := by
  induction depth generalizing name with
  | zero => exact .throw
  | succ depth ih =>
      refine .bind .get fun s => ?_
      split
      · rename_i plugin _
        refine .bind .get fun t => .ite (fun _ => .pure) fun _ => ?_
        have hdeps : Maintains (fun s => Sound s ∧ s.state name ≠ .registered)
            (plugin.dependencies.forM fun dep => do
              if (← get).state dep ≠ .active then
                startPlugin hooks depth dep) := by
          refine .forM fun dep _ => .bind .get fun u => .ite (fun _ => ?_) fun _ => .pure
          exact (ih dep).and ((stable_not_registered name).startPlugin (by simp) (by simp) (by simp) depth dep)
        refine Triple.bind (loadIfRegistered_sound depth) fun _ => ?_
        refine Triple.bind (hdeps.imp (fun _ => id) (fun _ _ => id) fun _ _ hs => hs.1) fun _ => ?_
        exact activatePlugin_sound
      · exact .throw

theorem ignoringErrors_sound {operation : Operation Unit} (h : Maintains Sound operation) :
    Maintains Sound (ignoringErrors operation) := .tryCatch h fun _ => .pure

theorem register_sound (plugin : YasinPlugin) : Maintains Sound (register plugin) := by
  refine .bind (.modify fun s hs => ?_) fun _ => .bind clearError_sound fun _ => publish_sound
  have hrecord : SoundBut plugin.name { s with history := .registered plugin.name :: s.history } :=
    (hs.but plugin.name).record (by simp) fun other ho => by simp [Record.settles, Ne.symm ho]
  exact hrecord.setState (by simp [PluginState.Loaded])

theorem runIf_sound {condition : Prop} [Decidable condition] {operation : Operation Unit}
    (h : Maintains Sound operation) : Maintains Sound (runIf condition operation) :=
  .ite (fun _ => h) fun _ => .pure

theorem unregister_sound : Maintains Sound (unregister hooks name) := by
  refine .bind .get fun s => .bind (runIf_sound .throw) fun _ => .bind (runIf_sound .throw) fun _ => ?_
  refine .bind (runIf_sound (ignoringErrors_sound stopPlugin_sound)) fun _ => ?_
  refine .bind (runIf_sound (ignoringErrors_sound unloadPlugin_sound)) fun _ => .modify fun t ht hf => ?_
  refine ⟨(ht hf).1, fun other ho hl => (ht hf).2 other ho ?_⟩
  by_cases he : other = name
  · subst he
    simp [Registry.state, PluginState.Loaded] at hl
  · simpa [Registry.state, Dict.get?_erase_of_ne _ he] using hl

theorem initializeAll_sound (depth : Nat) : Maintains Sound (initializeAll hooks depth) := by
  refine .bind .get fun s => .forM fun other _ => .tryCatch ?_ fun e => ?_
  · exact .bind validate_sound fun _ => loadPlugin_sound depth other
  · exact Triple.bind (setFailed_sound.pre_imp fun s hs => hs.but other) fun _ => setError_sound

theorem shutdown_sound : Maintains Sound (shutdown hooks) := by
  refine .bind .get fun s => .forM fun other _ => ignoringErrors_sound ?_
  refine .bind .get fun t => .bind (runIf_sound stopPlugin_sound) fun _ => ?_
  exact .bind .get fun u => runIf_sound unloadPlugin_sound

theorem reload_sound (depth : Nat) : Maintains Sound (reload hooks depth) := by
  refine .bind .get fun s => .bind shutdown_sound fun _ => .bind (initializeAll_sound depth) fun _ => ?_
  refine .forM fun other _ => .bind .get fun t => .ite (fun _ => ?_) fun _ => .pure
  exact ignoringErrors_sound (startPlugin_sound depth other)

end Operation

theorem operation_sound (hooks : Hooks) (act : Action) : Maintains Sound (act.operation hooks) := by
  cases act with
  | register plugin => exact Operation.register_sound plugin
  | unregister name => exact Operation.unregister_sound
  | loadPlugin depth name => exact Operation.loadPlugin_sound depth name
  | startPlugin depth name => exact Operation.startPlugin_sound depth name
  | stopPlugin name => exact Operation.stopPlugin_sound
  | unloadPlugin name => exact Operation.unloadPlugin_sound
  | initializeAll depth => exact Operation.initializeAll_sound depth
  | shutdown => exact Operation.shutdown_sound
  | reload depth => exact Operation.reload_sound depth

theorem sound_perform (hooks : Hooks) (acts : List Action) : Sound (perform hooks acts) := by
  unfold perform
  suffices h : ∀ s, Sound s → Sound (acts.foldl (fun s act => finalState (act.operation hooks) s) s) by
    exact h _ fun _ => ⟨trivial, fun name _ hl => by simp [Registry.state, Registry.empty,
      PluginState.Loaded] at hl⟩
  induction acts with
  | nil => exact fun _ => id
  | cons act rest ih => exact fun s hs => ih _ ((operation_sound hooks act).finalState hs)

-- After every sequence of calls: the hooks were called in lifecycle order exactly when no start
-- call met a failed plugin whose load hook had not returned since its registration or unload.
theorem lifecycle_order_iff (hooks : Hooks) (acts : List Action) :
    LifecycleOrder (perform hooks acts) ↔ FailedStartsLoaded (perform hooks acts).history := by
  constructor
  · rintro ⟨hs, _⟩
    exact everyStart_imp (fun _ _ _ h _ => h) hs
  · intro hf
    obtain ⟨hs, hl⟩ := sound_perform hooks acts hf
    exact ⟨hs, fun name => hl name id⟩

-- A plugin whose load hook raises is started, and then active, all the same.
def brokenLoad : Hooks := fun _ _ hook => if hook = .load then some "no resources" else none

def brokenPlugin : YasinPlugin := ⟨"broken", "1.0.0", [], "*"⟩

def startBroken : List Action :=
  [.register brokenPlugin, .loadPlugin 900 "broken", .startPlugin 900 "broken"]

theorem start_without_load :
    ((perform brokenLoad startBroken).state "broken").Loaded ∧
      ¬LoadedSince "broken" (perform brokenLoad startBroken).history ∧
      .called "broken" .start .failed none ∈ (perform brokenLoad startBroken).history := by
  have hactive : (perform brokenLoad startBroken).state "broken" = .active := rfl
  have hunloaded : (perform brokenLoad startBroken).history.findSome? (Record.settles "broken") =
      some false := rfl
  refine ⟨.inr (.inl hactive), ?_, ?_⟩
  · rw [LoadedSince, hunloaded]
    simp
  · exact List.mem_cons_of_mem _ List.mem_cons_self

end YasinCore.Plugins
