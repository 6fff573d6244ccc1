import YasinCore.Plugins.Lifecycle
import Mathlib.Logic.Relation

namespace YasinCore.Plugins

open YasinCore.Library Relation

-- One plugin names the other among its dependencies.
def Registry.Needs (s : Registry) (name dep : PluginName) : Prop := dep ∈ s.dependencies name

-- The plugins that a call of load_plugin would reach: through REGISTERED plugins only.
inductive Waiting (s : Registry) : PluginName → PluginName → Prop
  | here {name : PluginName} (state : s.state name = .registered) : Waiting s name name
  | through {name dep other : PluginName} (state : s.state name = .registered)
      (needs : s.Needs name dep) (rest : Waiting s dep other) : Waiting s name other

-- The first registry has become the second by the plugins in question turning LOADED.
structure LoadedOver (s : Registry) (which : PluginName → Prop) (t : Registry) : Prop where
  plugins : t.plugins = s.plugins
  loaded : ∀ name, which name → t.state name = .loaded
  same : ∀ name, ¬which name → t.state name = s.state name

section Waiting

variable {s t u : Registry} {name dep other : PluginName}

theorem Waiting.registered (h : Waiting s name other) : s.state name = .registered := by
  cases h with
  | here state => exact state
  | through state _ _ => exact state

theorem Waiting.trans (h : Waiting s name dep) (h' : Waiting s dep other) : Waiting s name other := by
  induction h with
  | here _ => exact h'
  | through state needs _ ih => exact .through state needs (ih h')

theorem LoadedOver.needs {which : PluginName → Prop} (h : LoadedOver s which t) :
    t.Needs name dep ↔ s.Needs name dep := by
  rw [Registry.Needs, Registry.Needs, Registry.dependencies, Registry.dependencies, h.plugins]

theorem LoadedOver.refl {which : PluginName → Prop} (h : ∀ name, ¬which name) :
    LoadedOver s which s :=
  ⟨rfl, fun name hl => absurd hl (h name), fun _ _ => rfl⟩

-- What still waits after some plugins were loaded waited before.
theorem LoadedOver.waiting {which : PluginName → Prop} (h : LoadedOver s which t)
    (hw : Waiting t name other) : Waiting s name other := by
  have hstate (name : PluginName) (hr : t.state name = .registered) : s.state name = .registered := by
    by_cases hl : which name
    · have hloaded := h.loaded name hl
      rw [hr] at hloaded
      cases hloaded
    · rw [← h.same name hl, hr]
  induction hw with
  | here state => exact .here (hstate _ state)
  | through state needs _ ih => exact .through (hstate _ state) (h.needs.mp needs) ih

-- What waited before waits still, or has been loaded in the meantime.
theorem LoadedOver.waiting_or {which : PluginName → Prop} (h : LoadedOver s which t)
    (hclosed : ∀ name other, which name → Waiting s name other → which other)
    (hw : Waiting s name other) : which other ∨ Waiting t name other := by
  induction hw with
  | @here name state =>
      by_cases hl : which name
      · exact .inl hl
      · exact .inr (.here ((h.same name hl).trans state))
  | @through name dep other state needs rest ih =>
      by_cases hl : which name
      · exact .inl (hclosed name other hl (.through state needs rest))
      · exact ih.imp_right fun hw => .through ((h.same name hl).trans state) (h.needs.mpr needs) hw

theorem LoadedOver.trans {which also : PluginName → Prop} (h : LoadedOver s which t)
    (h' : LoadedOver t also u) : LoadedOver s (fun name => which name ∨ also name) u where
  plugins := h'.plugins.trans h.plugins
  loaded name hl := by
    by_cases ha : also name
    · exact h'.loaded name ha
    · rw [h'.same name ha]
      exact h.loaded name (hl.resolve_right ha)
  same name hn := by
    have ha : ¬also name := fun ha => hn (.inr ha)
    rw [h'.same name ha, h.same name fun hl => hn (.inl hl)]

theorem LoadedOver.congr {which also : PluginName → Prop} (h : LoadedOver s which t)
    (hiff : ∀ name, which name ↔ also name) : LoadedOver s also t where
  plugins := h.plugins
  loaded name hl := h.loaded name ((hiff name).mpr hl)
  same name hn := h.same name fun hl => hn ((hiff name).mp hl)

-- Loading one dependency more.
theorem LoadedOver.next {which : PluginName → Prop} (h : LoadedOver s which t)
    (hclosed : ∀ name other, which name → Waiting s name other → which other)
    (h' : LoadedOver t (Waiting t dep) u) :
    LoadedOver s (fun name => which name ∨ Waiting s dep name) u := by
  refine (h.trans h').congr fun name => ⟨fun hl => ?_, fun hl => ?_⟩
  · exact hl.imp_right h.waiting
  · exact hl.elim .inl (h.waiting_or hclosed)

theorem waiting_iff (hr : s.state name = .registered) : Waiting s name other ↔
    other = name ∨ ∃ dep ∈ s.dependencies name, Waiting s dep other := by
  constructor
  · intro h
    cases h with
    | here _ => exact .inl rfl
    | through _ needs rest => exact .inr ⟨_, needs, rest⟩
  · rintro (rfl | ⟨dep, needs, rest⟩)
    · exact .here hr
    · exact .through hr needs rest

end Waiting

namespace Operation

variable {hooks : Hooks} {name : PluginName}

theorem completeLoad_spec (s : Registry) : Triple (· = s) (completeLoad hooks name)
    (fun _ t => LoadedOver s (· = name) t) fun _ _ => True := by
  have hcall (hook : Hook) : Triple (fun t => t.plugins = s.plugins ∧ t.states = s.states)
      (callHook hooks name hook) (fun _ t => t.plugins = s.plugins ∧ t.states = s.states)
      fun _ _ => True := callHook_triple hook (fun _ => id) fun _ _ _ => trivial
  have hset : Triple (fun t => t.plugins = s.plugins ∧ t.states = s.states) (setState name .loaded)
      (fun _ t => LoadedOver s (· = name) t) fun _ _ => True := by
    refine .modify fun t ⟨hp, hs⟩ => ⟨hp, fun other ho => ?_, fun other ho => ?_⟩
    · rw [state_set, if_pos ho]
    · rw [state_set, if_neg ho, Registry.state, hs, Registry.state]
  have hrest : Maintains (LoadedOver s (· = name)) (clearError name) :=
    .modify fun t h => ⟨h.plugins, h.loaded, h.same⟩
  have hpublish : Maintains (LoadedOver s (· = name)) (publish "plugin_loaded" name []) :=
    .modify fun t h => ⟨h.plugins, h.loaded, h.same⟩
  refine .bind ((hcall .init).pre_imp fun t ht => ?_) fun _ => .bind (hcall .load) fun _ =>
    .bind hset fun _ => ?_
  · subst ht
    exact ⟨rfl, rfl⟩
  · refine .bind (hrest.imp (fun _ => id) (fun _ _ => id) fun _ _ _ => trivial) fun _ => ?_
    exact hpublish.imp (fun _ => id) (fun _ _ => id) fun _ _ _ => trivial

-- The loop over the dependencies loads what waits behind them.
theorem loadDependencies_spec (depth : Nat) (deps : List PluginName) (s : Registry)
    (ih : ∀ name t, Triple (· = t) (loadPlugin hooks depth name)
      (fun _ u => LoadedOver t (Waiting t name) u) fun _ _ => True) :
    Triple (· = s) (deps.forM fun dep => loadIfRegistered hooks depth dep)
      (fun _ t => LoadedOver s (fun other => ∃ dep ∈ deps, Waiting s dep other) t) fun _ _ => True := by
  have hloop : Triple (LoadedOver s fun other => ∃ dep ∈ ([] : List PluginName), Waiting s dep other)
      (deps.forM fun dep => loadIfRegistered hooks depth dep)
      (fun _ t => LoadedOver s (fun other => ∃ dep ∈ deps, Waiting s dep other) t) fun _ _ => True := by
    refine .forM (fun done => LoadedOver s fun other => ∃ dep ∈ done, Waiting s dep other)
      fun done dep rest _ => ?_
    intro t ht
    have hclosed : ∀ name other, (∃ dep ∈ done, Waiting s dep name) → Waiting s name other →
        ∃ dep ∈ done, Waiting s dep other :=
      fun name other ⟨dep, hd, hw⟩ hw' => ⟨dep, hd, hw.trans hw'⟩
    have hone : Triple (· = t) (loadIfRegistered hooks depth dep)
        (fun _ u => LoadedOver t (Waiting t dep) u) fun _ _ => True := by
      refine .get_bind_eq (.ite (fun _ => ih dep t) fun hne => .pure ?_)
      rintro u rfl
      exact .refl fun other hw => hne hw.registered
    refine (hone.imp (fun _ => id) (fun _ u hu => ?_) fun _ _ => id) t rfl
    have hnext := ht.next hclosed hu
    simpa only [List.mem_append, List.mem_singleton, or_and_right, exists_or, exists_eq_left] using hnext
  refine hloop.pre_imp fun t ht => ?_
  subst ht
  exact .refl fun other ⟨_, hd, _⟩ => by simp at hd

-- A call of load_plugin that returns has loaded exactly the plugins that were waiting.
theorem loadPlugin_spec (depth : Nat) (name : PluginName) (s : Registry) :
    Triple (· = s) (loadPlugin hooks depth name) (fun _ t => LoadedOver s (Waiting s name) t)
      fun _ _ => True := by
  induction depth generalizing name s with
  | zero => exact .throw fun _ _ => trivial
  | succ depth ih =>
      refine .get_bind_eq ?_
      split
      · rename_i plugin hplugin
        refine .get_bind_eq (.ite (fun hne => .pure ?_) fun hr => ?_)
        · rintro t rfl
          exact .refl fun other hw => hne hw.registered
        · have hregistered : s.state name = .registered := not_not.mp hr
          have hdeps : s.dependencies name = plugin.dependencies := by
            rw [Registry.dependencies, hplugin]
          have hvalidate : Triple (· = s) (validate depth name) (fun _ t => t = s) fun _ _ => True :=
            Stable.validate.imp (fun _ => id) (fun _ _ => id) fun _ _ _ => trivial
          have hcomplete (t : Registry)
              (ht : LoadedOver s (fun other => ∃ dep ∈ plugin.dependencies, Waiting s dep other) t) :
              Triple (· = t) (completeLoad hooks name) (fun _ u => LoadedOver s (Waiting s name) u)
                fun _ _ => True := by
            refine (completeLoad_spec t).imp (fun _ => id) (fun _ u hu => ?_) fun _ _ => id
            refine (ht.trans hu).congr fun other => ?_
            rw [waiting_iff hregistered, hdeps, or_comm]
          refine .tryCatch (.bind hvalidate fun _ => .bind
            (loadDependencies_spec depth plugin.dependencies s ih) fun _ t ht => hcomplete t ht t rfl)
            fun e => ?_
          exact fail_raises.imp (fun _ => id) (fun _ _ h => h.elim) fun _ _ => id
      · exact .throw fun _ _ => trivial

end Operation

-- A call that returns leaves the plugin LOADED if it loads it now or finds it so; a FAILED, an ACTIVE
-- or a STOPPED one is left as it is.
theorem LoadedOver.state_eq_loaded_iff {s t : Registry} {name : PluginName}
    (h : LoadedOver s (Waiting s name) t) :
    t.state name = .loaded ↔ s.state name = .registered ∨ s.state name = .loaded := by
  by_cases hr : s.state name = .registered
  · exact iff_of_true (h.loaded name (.here hr)) (.inl hr)
  · rw [h.same name fun hw => hr hw.registered, or_iff_right hr]

-- After a call of load_plugin that returns and leaves the plugin LOADED, all plugins that this one
-- needs, directly or not, are loaded exactly when each of them already was, or was REGISTERED and
-- reached through REGISTERED plugins only. A FAILED plugin is skipped, and with it what only it
-- depends on.
theorem dependencies_loaded_iff (hooks : Hooks) (depth : Nat) (name : PluginName) (s t : Registry)
    (h : Operation.loadPlugin hooks depth name s = .ok () t) :
    (t.state name = .loaded →
        ∀ other, ReflTransGen t.Needs name other → (t.state other).Loaded) ↔
      (s.state name = .registered ∨ s.state name = .loaded →
        ∀ other, ReflTransGen s.Needs name other → (s.state other).Loaded ∨ Waiting s name other) := by
  have hspec : LoadedOver s (Waiting s name) t := by
    have htriple : Triple _ (Operation.loadPlugin hooks depth name) _ _ :=
      Operation.loadPlugin_spec depth name s
    have hr := htriple s rfl
    rwa [h] at hr
  have hneeds : t.Needs = s.Needs := by
    funext first second
    exact propext hspec.needs
  rw [hneeds]
  refine imp_congr hspec.state_eq_loaded_iff (forall₂_congr fun other _ => ?_)
  by_cases hw : Waiting s name other
  · exact iff_of_true (.inl (hspec.loaded other hw)) (.inr hw)
  · rw [hspec.same other hw, or_iff_left hw]

def storePlugin : YasinPlugin := ⟨"store", "1.0.0", [], "*"⟩

def reportPlugin : YasinPlugin := ⟨"report", "1.0.0", ["store"], "*"⟩

def twoPlugins : Registry :=
  perform (fun _ _ _ => none) [.register storePlugin, .register reportPlugin]

theorem load_reaches_dependency : ∃ t,
    Operation.loadPlugin (fun _ _ _ => none) 900 "report" twoPlugins = .ok () t ∧
      t.state "report" = .loaded ∧
      ∀ other, ReflTransGen t.Needs "report" other → (t.state other).Loaded := by
  have hload : Operation.loadPlugin (fun _ _ _ => none) 900 "report" twoPlugins =
      .ok () (finalState (Operation.loadPlugin (fun _ _ _ => none) 900 "report") twoPlugins) := rfl
  have hplugins : twoPlugins.plugins =
      (Dict.empty.set "store" storePlugin).set "report" reportPlugin := rfl
  have hneeds (name dep : PluginName) (h : twoPlugins.Needs name dep) :
      name = "report" ∧ dep = "store" := by
    rw [Registry.Needs, Registry.dependencies, hplugins, Dict.get?_set, Dict.get?_set] at h
    split_ifs at h with hr hs
    · exact ⟨hr, List.mem_singleton.mp h⟩
    · cases h
    · cases h
  refine ⟨_, hload, rfl, (dependencies_loaded_iff _ 900 "report" twoPlugins _ hload).mpr
    (fun _ other h => ?_) rfl⟩
  have hstore : Waiting twoPlugins "store" "store" := .here rfl
  rcases h.cases_tail with rfl | ⟨name, _, h⟩
  · exact .inr (.here rfl)
  · obtain ⟨rfl, rfl⟩ := hneeds name other h
    exact .inr (.through rfl h hstore)

-- With a failed dependency the plugin is loaded without it.
def brokenStore : Hooks := fun _ name hook =>
  if name = "store" ∧ hook = .load then some "no resources" else none

theorem load_over_failed_dependency : ∃ t,
    Operation.loadPlugin brokenStore 900 "report" (perform brokenStore
        [.register storePlugin, .loadPlugin 900 "store", .register reportPlugin]) = .ok () t ∧
      t.state "report" = .loaded ∧ t.Needs "report" "store" ∧ ¬(t.state "store").Loaded := by
  refine ⟨_, rfl, rfl, List.mem_singleton_self _, ?_⟩
  decide

end YasinCore.Plugins
