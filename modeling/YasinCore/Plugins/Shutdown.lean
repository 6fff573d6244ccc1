import YasinCore.Plugins.Dependencies

namespace YasinCore.Plugins

open YasinCore.Library

-- The states of the plugins after some records, the newest of which comes first.
def replay (states : PluginName → PluginState) : List Record → PluginName → PluginState
  | [] => states
  | .published event name _ :: older =>
      match event with
      | "plugin_loaded" => Function.update (replay states older) name .loaded
      | "plugin_started" => Function.update (replay states older) name .active
      | "plugin_stopped" => Function.update (replay states older) name .stopped
      | "plugin_unloaded" => Function.update (replay states older) name .registered
      | "plugin_failed" => Function.update (replay states older) name .failed
      | _ => replay states older
  | _ :: older => replay states older

-- While the records were made, no stop or unload hook was called on a plugin that another one, not
-- yet unloaded, declares as a dependency.
def DependentsFirst (s : Registry) (records : List Record) : Prop :=
  ∀ later earlier dep hook state raised,
    records = later ++ .called dep hook state raised :: earlier → hook = .stop ∨ hook = .unload →
      ∀ name, s.Needs name dep → ¬(replay s.state earlier name).Loaded

-- Whoever declares a loaded plugin as a dependency, and is loaded, was registered after it.
def RegisteredInOrder (s : Registry) : Prop :=
  ∀ before dep after, s.plugins.keys = before ++ dep :: after → (s.state dep).Loaded →
    ∀ name, s.Needs name dep → (s.state name).Loaded → name ∈ after

def Record.about : Record → PluginName
  | .registered name => name
  | .called name _ _ _ => name
  | .published _ name _ => name

-- Hooks that do not raise.
def quiet : Hooks := fun _ _ _ => none

-- What shutdown records about one plugin.
def turnRecords (name : PluginName) : PluginState → List Record
  | .active =>
      [.published "plugin_unloaded" name [], .called name .unload .stopped none,
        .published "plugin_stopped" name [], .called name .stop .active none]
  | .loaded => [.published "plugin_unloaded" name [], .called name .unload .loaded none]
  | .stopped => [.published "plugin_unloaded" name [], .called name .unload .stopped none]
  | .registered | .failed => []

-- The turn of a plugin in shutdown.
def turn (s : Registry) (name : PluginName) : Registry :=
  { s with
    states := if (s.state name).Loaded then s.states.set name .registered else s.states
    history := turnRecords name (s.state name) ++ s.history }

namespace Operation

variable {s : Registry} {name : PluginName} {plugin : YasinPlugin}

theorem callHook_quiet (hook : Hook) : callHook quiet name hook s =
    .ok () { s with history := .called name hook (s.state name) none :: s.history } := rfl

theorem stopPlugin_quiet (h : s.plugins.get? name = some plugin) (ha : s.state name = .active) :
    stopPlugin quiet name s = .ok () { s with
      states := s.states.set name .stopped
      history := .published "plugin_stopped" name [] :: .called name .stop .active none ::
        s.history } := by
  simp only [stopPlugin, run_get_bind, h, ha, ne_eq, not_true_eq_false, if_false]
  refine run_tryCatch_ok ?_ _
  rw [run_bind_ok (callHook_quiet .stop), ha]
  rfl

theorem releasePlugin_quiet : releasePlugin quiet name s = .ok () { s with
    states := s.states.set name .registered
    history := .published "plugin_unloaded" name [] :: .called name .unload (s.state name) none ::
      s.history } := by
  refine run_tryCatch_ok ?_ _
  rw [run_bind_ok (callHook_quiet .unload)]
  rfl

theorem unloadPlugin_quiet (h : s.plugins.get? name = some plugin)
    (hs : s.state name = .loaded ∨ s.state name = .stopped) :
    unloadPlugin quiet name s = releasePlugin quiet name s := by
  simp only [unloadPlugin, run_get_bind, h]
  rcases hs with hs | hs <;> rw [hs]

-- What shutdown does for one name.
def shutdownPlugin (hooks : Hooks) (name : PluginName) : Operation Unit :=
  ignoringErrors do
    runIf ((← get).states.get? name = some .active) (stopPlugin hooks name)
    let state := (← get).states.get? name
    runIf (state = some .loaded ∨ state = some .stopped) (unloadPlugin hooks name)

theorem shutdown_eq (hooks : Hooks) (s : Registry) :
    shutdown hooks s = s.plugins.keys.reverse.forM (shutdownPlugin hooks) s := rfl

-- The second half of a turn, for a plugin that is not active any more.
theorem unloadIdle_quiet (h : s.plugins.get? name = some plugin) (ha : s.state name ≠ .active) :
    (do
      let state := (← get).states.get? name
      runIf (state = some .loaded ∨ state = some .stopped) (unloadPlugin quiet name) :
        Operation Unit) s = .ok () (turn s name) := by
  rw [run_get_bind]
  by_cases hs : s.states.get? name = some .loaded ∨ s.states.get? name = some .stopped
  · have hstate : s.state name = .loaded ∨ s.state name = .stopped := by
      refine hs.imp (fun h => ?_) fun h => ?_
      · rw [Registry.state, h, Option.getD_some]
      · rw [Registry.state, h, Option.getD_some]
    have hloaded : (s.state name).Loaded := hstate.imp_right .inr
    have hrecords : turnRecords name (s.state name) =
        [.published "plugin_unloaded" name [], .called name .unload (s.state name) none] := by
      rcases hstate with h | h <;> rw [h] <;> rfl
    rw [runIf, if_pos hs, unloadPlugin_quiet h hstate, releasePlugin_quiet, turn, if_pos hloaded,
      hrecords]
    rfl
  · rw [runIf, if_neg hs]
    show EStateM.Result.ok () s = _
    have hidle : s.state name = .registered ∨ s.state name = .failed := by
      rw [Registry.state] at ha ⊢
      cases hg : s.states.get? name with
      | none => exact .inl rfl
      | some state =>
          rw [hg] at hs ha
          cases state with
          | registered => exact .inl rfl
          | loaded => exact absurd (.inl rfl) hs
          | active => exact absurd rfl ha
          | stopped => exact absurd (.inr rfl) hs
          | failed => exact .inr rfl
    have hloaded : ¬(s.state name).Loaded := by
      rcases hidle with h | h <;> rw [h] <;> decide
    have hrecords : turnRecords name (s.state name) = [] := by
      rcases hidle with h | h <;> rw [h] <;> rfl
    rw [turn, if_neg hloaded, hrecords]
    rfl

theorem shutdownPlugin_quiet (h : s.plugins.get? name = some plugin) :
    shutdownPlugin quiet name s = .ok () (turn s name) := by
  refine run_tryCatch_ok ?_ _
  rw [run_get_bind]
  by_cases ha : s.states.get? name = some .active
  · have hstate : s.state name = .active := by rw [Registry.state, ha, Option.getD_some]
    rw [runIf, if_pos ha, run_bind_ok (stopPlugin_quiet h hstate)]
    generalize ht : ({ s with
      states := s.states.set name .stopped
      history := .published "plugin_stopped" name [] :: .called name .stop .active none ::
        s.history } : Registry) = t
    have hstopped : t.state name = .stopped := by
      rw [← ht, Registry.state, Dict.get?_set_self, Option.getD_some]
    have hplugin : t.plugins.get? name = some plugin := by
      rw [← ht]
      exact h
    rw [unloadIdle_quiet hplugin (by rw [hstopped]; decide)]
    rw [turn, turn, hstopped, hstate, if_pos (by decide), if_pos (by decide), ← ht, Dict.set_set]
    rfl
  · have hstate : s.state name ≠ .active := by
      rw [Registry.state]
      cases hg : s.states.get? name with
      | none => decide
      | some state =>
          rw [Option.getD_some]
          rintro rfl
          exact ha hg
    rw [runIf, if_neg ha]
    exact unloadIdle_quiet h hstate

-- The turns of several plugins, one after another.
theorem shutdownPlugins_quiet (names : List PluginName) (h : ∀ name ∈ names, name ∈ s.plugins) :
    names.forM (shutdownPlugin quiet) s = .ok () (names.foldl turn s) := by
  induction names generalizing s with
  | nil => rfl
  | cons name names ih =>
      obtain ⟨plugin, hp⟩ := (Dict.mem_iff _ _).mp (h name (.head _))
      have hrest : ∀ other ∈ names, other ∈ (turn s name).plugins :=
        fun other ho => h other (.tail _ ho)
      show (shutdownPlugin quiet name >>= fun _ => names.forM (shutdownPlugin quiet)) s = _
      rw [run_bind_ok (shutdownPlugin_quiet hp), ih hrest]
      rfl

end Operation

section Turns

variable {s : Registry} {name other : PluginName}

theorem state_turn : (turn s name).state other =
    if other = name ∧ (s.state name).Loaded then .registered else s.state other := by
  by_cases hl : (s.state name).Loaded
  · rw [turn, if_pos hl, Registry.state, Dict.get?_set]
    by_cases ho : other = name
    · rw [if_pos ho, if_pos ⟨ho, hl⟩, Option.getD_some]
    · rw [if_neg ho, if_neg fun h => ho h.1, Registry.state]
  · rw [turn, if_neg hl, if_neg fun h => hl h.2]
    rfl

theorem history_turns {names : List PluginName} (h : names.Nodup) :
    (names.foldl turn s).history =
      names.reverse.flatMap (fun name => turnRecords name (s.state name)) ++ s.history := by
  induction names generalizing s with
  | nil => rfl
  | cons name names ih =>
      have hsame : names.reverse.flatMap (fun other => turnRecords other ((turn s name).state other)) =
          names.reverse.flatMap (fun other => turnRecords other (s.state other)) := by
        refine List.flatMap_congr fun other ho => ?_
        have hne : other ≠ name := by
          rintro rfl
          exact (List.nodup_cons.mp h).1 (List.mem_reverse.mp ho)
        rw [state_turn, if_neg fun h => hne h.1]
      rw [List.foldl_cons, ih (List.nodup_cons.mp h).2, hsame, List.reverse_cons, List.flatMap_append,
        List.append_assoc]
      simp [turn]

section Replay

variable (states : PluginName → PluginState) (older : List Record)

theorem replay_called (hook : Hook) (state : PluginState) (raised : Option String) :
    replay states (.called name hook state raised :: older) = replay states older := rfl

theorem replay_stopped : replay states (.published "plugin_stopped" name [] :: older) =
    Function.update (replay states older) name .stopped := rfl

theorem replay_unloaded : replay states (.published "plugin_unloaded" name [] :: older) =
    Function.update (replay states older) name .registered := rfl

-- The states in which the records of one turn leave the plugins.
theorem replay_turn (state : PluginState) : replay states (turnRecords name state ++ older) other =
    if other = name ∧ state.Loaded then .registered else replay states older other := by
  unfold turnRecords
  cases state with
  | active =>
      simp only [List.cons_append, List.nil_append, replay_unloaded, replay_called, replay_stopped]
      by_cases ho : other = name
      · subst ho
        simp [PluginState.Loaded]
      · simp [ho]
  | loaded =>
      simp only [List.cons_append, List.nil_append, replay_unloaded, replay_called]
      simp [Function.update_apply, PluginState.Loaded]
  | stopped =>
      simp only [List.cons_append, List.nil_append, replay_unloaded, replay_called]
      simp [Function.update_apply, PluginState.Loaded]
  | _ => simp [PluginState.Loaded]

end Replay

theorem replay_turns (states : PluginName → PluginState) (names : List PluginName) :
    replay states (names.flatMap fun name => turnRecords name (states name)) other =
      if other ∈ names ∧ (states other).Loaded then .registered else states other := by
  induction names with
  | nil => simp [replay]
  | cons name names ih =>
      rw [List.flatMap_cons, replay_turn, ih]
      by_cases ho : other = name
      · subst ho
        by_cases hl : (states other).Loaded <;> simp [hl]
      · simp [ho]

theorem states_turns {names : List PluginName} (h : names.Nodup) :
    (names.foldl turn s).state other =
      if other ∈ names ∧ (s.state other).Loaded then .registered else s.state other := by
  induction names generalizing s with
  | nil => simp
  | cons name names ih =>
      rw [List.foldl_cons, ih (List.nodup_cons.mp h).2, state_turn]
      by_cases ho : other = name
      · subst ho
        have hnot : other ∉ names := (List.nodup_cons.mp h).1
        by_cases hl : (s.state other).Loaded
        · simp [hl, hnot]
        · simp [hl]
      · simp [ho]

-- A record of the turns is a record of one of them.
theorem turns_split {record : Record} {records : PluginName → List Record} {names : List PluginName}
    {later earlier : List Record} (h : names.flatMap records = later ++ record :: earlier) :
    ∃ before name after front back, names = before ++ name :: after ∧
      records name = front ++ record :: back ∧ earlier = back ++ after.flatMap records := by
  induction names generalizing later with
  | nil => exact absurd h.symm (by simp)
  | cons name names ih =>
      rw [List.flatMap_cons] at h
      rcases List.append_eq_append_iff.mp h with ⟨front, hl, hr⟩ | ⟨back, hn, hr⟩
      · obtain ⟨before, other, after, front, back, hnames, hother, he⟩ := ih hr
        exact ⟨name :: before, other, after, front, back, by rw [hnames]; rfl, hother, he⟩
      · cases back with
        | nil =>
            obtain ⟨before, other, after, front, back, hnames, hother, he⟩ :=
              @ih [] hr.symm
            exact ⟨name :: before, other, after, front, back, by rw [hnames]; rfl, hother, he⟩
        | cons first back =>
            rw [List.cons_append, List.cons.injEq] at hr
            obtain ⟨rfl, he⟩ := hr
            exact ⟨[], name, names, later, back, rfl, hn, he⟩

theorem about_turnRecords {state : PluginState} {record : Record}
    (h : record ∈ turnRecords name state) : record.about = name := by
  cases state with
  | registered => cases h
  | failed => cases h
  | active =>
      simp only [turnRecords, List.mem_cons, List.not_mem_nil, or_false] at h
      rcases h with rfl | rfl | rfl | rfl <;> rfl
  | loaded =>
      simp only [turnRecords, List.mem_cons, List.not_mem_nil, or_false] at h
      rcases h with rfl | rfl <;> rfl
  | stopped =>
      simp only [turnRecords, List.mem_cons, List.not_mem_nil, or_false] at h
      rcases h with rfl | rfl <;> rfl

-- Records about one plugin change the state of no other.
theorem replay_append {states : PluginName → PluginState} {records older : List Record}
    (h : ∀ record ∈ records, record.about = name) (ho : other ≠ name) :
    replay states (records ++ older) other = replay states older other := by
  induction records with
  | nil => rfl
  | cons record records ih =>
      have hrest := ih fun record hr => h record (.tail _ hr)
      cases record with
      | registered _ => exact hrest
      | called _ _ _ _ => exact hrest
      | published event subject details =>
          have hsubject : subject = name := h _ (.head _)
          have hne : other ≠ subject := by rwa [hsubject]
          rw [List.cons_append]
          conv_lhs => unfold replay
          split
          all_goals first | exact hrest | rw [Function.update_of_ne hne, hrest]

theorem loaded_of_called {state seen : PluginState} {hook : Hook} {dep : PluginName}
    {raised : Option String} (h : .called dep hook seen raised ∈ turnRecords name state) :
    state.Loaded := by
  cases state with
  | registered => cases h
  | failed => cases h
  | _ => decide

-- The oldest record of the turn of a loaded plugin.
theorem turnRecords_oldest {state : PluginState} (h : state.Loaded) :
    ∃ later hook seen, turnRecords name state = later ++ [.called name hook seen none] ∧
      (hook = .stop ∨ hook = .unload) := by
  rcases h with rfl | rfl | rfl
  · exact ⟨[.published "plugin_unloaded" name []], .unload, .loaded, rfl, .inr rfl⟩
  · exact ⟨[.published "plugin_unloaded" name [], .called name .unload .stopped none,
      .published "plugin_stopped" name []], .stop, .active, rfl, .inl rfl⟩
  · exact ⟨[.published "plugin_unloaded" name []], .unload, .stopped, rfl, .inr rfl⟩

-- What shutdown records, with hooks that do not raise.
def shutdownRecords (s : Registry) : List Record :=
  s.plugins.keys.flatMap fun name => turnRecords name (s.state name)

-- A loaded plugin with a loaded dependant that was not registered after it gets its hook called
-- while the dependant is loaded.
theorem registeredInOrder_of_dependentsFirst (h : DependentsFirst s (shutdownRecords s)) :
    RegisteredInOrder s := by
  intro before dep after hkeys hdep name hneeds hname
  obtain ⟨later, hook, seen, hturn, hhook⟩ := turnRecords_oldest hdep
  have hsplit : shutdownRecords s =
      (before.flatMap (fun name => turnRecords name (s.state name)) ++ later) ++
        .called dep hook seen none :: after.flatMap fun name => turnRecords name (s.state name) := by
    rw [shutdownRecords, hkeys, List.flatMap_append, List.flatMap_cons, hturn]
    simp only [List.append_assoc, List.cons_append, List.nil_append]
  have hstate := h _ _ dep hook seen none hsplit hhook name hneeds
  rw [replay_turns] at hstate
  by_contra hnot
  rw [if_neg fun h => hnot h.1] at hstate
  exact hstate hname

theorem dependentsFirst_of_registeredInOrder (h : RegisteredInOrder s) :
    DependentsFirst s (shutdownRecords s) := by
  intro later earlier dep hook seen raised hsplit _ name hneeds
  obtain ⟨before, owner, after, front, back, hkeys, hturn, hearlier⟩ := turns_split hsplit
  have hmem : .called dep hook seen raised ∈ turnRecords owner (s.state owner) := by
    rw [hturn]
    simp
  have howner : dep = owner := about_turnRecords hmem
  have hdep : (s.state owner).Loaded := loaded_of_called hmem
  have hback : ∀ record ∈ back, record.about = owner := by
    intro record hr
    have hm : record ∈ turnRecords owner (s.state owner) := by
      rw [hturn]
      exact List.mem_append_right _ (.tail _ hr)
    exact about_turnRecords hm
  have hnodup : owner ∉ after := by
    have hn : s.plugins.keys.Nodup := s.plugins.nodup
    rw [hkeys] at hn
    exact (List.nodup_cons.mp (List.nodup_append.mp hn).2.1).1
  subst howner
  by_cases hname : (s.state name).Loaded
  · have hafter : name ∈ after := h before dep after hkeys hdep name hneeds hname
    have hne : name ≠ dep := by
      rintro rfl
      exact hnodup hafter
    rw [hearlier, replay_append hback hne, replay_turns, if_pos ⟨hafter, hname⟩]
    decide
  · have hne : name ≠ dep := by
      rintro rfl
      exact hname hdep
    rw [hearlier, replay_append hback hne, replay_turns, if_neg fun h => hname h.2]
    exact hname

end Turns

theorem shutdown_quiet (s : Registry) : ∃ t, Operation.shutdown quiet s = .ok () t ∧
    t.history = shutdownRecords s ++ s.history ∧ t.state = replay s.state (shutdownRecords s) := by
  have hnodup : s.plugins.keys.reverse.Nodup := List.nodup_reverse.mpr s.plugins.nodup
  refine ⟨s.plugins.keys.reverse.foldl turn s, ?_, ?_, ?_⟩
  · rw [Operation.shutdown_eq]
    refine Operation.shutdownPlugins_quiet _ fun name hn => ?_
    exact List.mem_reverse.mp hn
  · rw [history_turns hnodup, List.reverse_reverse, shutdownRecords]
  · funext name
    rw [states_turns hnodup, shutdownRecords, replay_turns]
    simp only [List.mem_reverse]

-- shutdown goes by the order of registration: no plugin is stopped or unloaded before a dependant of
-- it is unloaded exactly when whoever depends on a loaded plugin, and is loaded, was registered later.
theorem shutdown_dependents_first_iff (s : Registry) : ∃ t records,
    Operation.shutdown quiet s = .ok () t ∧ t.history = records ++ s.history ∧
      t.state = replay s.state records ∧ (DependentsFirst s records ↔ RegisteredInOrder s) := by
  obtain ⟨t, hrun, hhistory, hstate⟩ := shutdown_quiet s
  exact ⟨t, shutdownRecords s, hrun, hhistory, hstate, registeredInOrder_of_dependentsFirst,
    dependentsFirst_of_registeredInOrder⟩

def appPlugin : YasinPlugin := ⟨"app", "1.0.0", ["lib"], "*"⟩

def libPlugin : YasinPlugin := ⟨"lib", "1.0.0", [], "*"⟩

-- The dependant is registered first, as a client may do, and started.
def appFirst : Registry :=
  perform quiet [.register appPlugin, .register libPlugin, .startPlugin 900 "app"]

theorem needs_appFirst {name dep : PluginName} (h : appFirst.Needs name dep) :
    name = "app" ∧ dep = "lib" := by
  have hplugins : appFirst.plugins =
      (Dict.empty.set "app" appPlugin).set "lib" libPlugin := rfl
  rw [Registry.Needs, Registry.dependencies, hplugins, Dict.get?_set, Dict.get?_set] at h
  split_ifs at h with hl ha
  · cases h
  · exact ⟨ha, List.mem_singleton.mp h⟩
  · cases h

theorem dependency_stopped_under_dependant :
    (∀ name, ¬Relation.TransGen appFirst.Needs name name) ∧ ∃ t records,
      Operation.shutdown quiet appFirst = .ok () t ∧ t.history = records ++ appFirst.history ∧
        t.state = replay appFirst.state records ∧ ¬DependentsFirst appFirst records := by
  constructor
  · intro name h
    obtain ⟨dep, hfirst, -⟩ := Relation.TransGen.head'_iff.mp h
    obtain ⟨last, -, hlast⟩ := Relation.TransGen.tail'_iff.mp h
    have happ : name = "app" := (needs_appFirst hfirst).1
    have hlib : name = "lib" := (needs_appFirst hlast).2
    rw [happ] at hlib
    exact absurd hlib (by decide)
  · obtain ⟨t, hrun, hhistory, hstate⟩ := shutdown_quiet appFirst
    refine ⟨t, _, hrun, hhistory, hstate, fun h => ?_⟩
    have hrecords : shutdownRecords appFirst =
        [.published "plugin_unloaded" "app" [], .called "app" .unload .stopped none,
          .published "plugin_stopped" "app" [], .called "app" .stop .active none,
          .published "plugin_unloaded" "lib" [], .called "lib" .unload .stopped none,
          .published "plugin_stopped" "lib" []] ++ .called "lib" .stop .active none :: [] := rfl
    have hneeds : appFirst.Needs "app" "lib" := List.mem_singleton_self _
    refine h _ _ "lib" .stop .active none hrecords (.inl rfl) "app" hneeds ?_
    decide

end YasinCore.Plugins
