import YasinCore.Plugins.Validation
import YasinCore.Plugins.Shutdown

namespace YasinCore.Plugins

open YasinCore.Library Relation

-- The exceptions of the package, and those that stand for a recursion without end.
def PluginError.IsPluginError : PluginError → Prop
  | .invalidNumber _ | .recursion | .hook _ => False
  | _ => True

def PluginError.Runaway : PluginError → Prop
  | .recursion => True
  | .failed _ _ cause => cause.Runaway
  | _ => False

-- With enough frames of the stack, whatever their number, the call ends with the plugin ACTIVE or with
-- a PluginError that does not come from the stack.
def Settles (hooks : Hooks) (name : PluginName) (s : Registry) : Prop :=
  ∃ bound, ∀ depth, bound ≤ depth →
    match Operation.startPlugin hooks depth name s with
    | .ok _ t => t.state name = .active
    | .error e _ => e.IsPluginError ∧ ¬e.Runaway

namespace Registry

-- The plugin is running, or it can be started after its dependencies as far as the registry can tell.
inductive Startable (s : Registry) : PluginName → Prop
  | active {name : PluginName} (state : s.state name = .active) : Startable s name
  | idle {name : PluginName} (known : name ∈ s.plugins)
      (valid : s.state name = .registered → s.Valid name)
      (rest : ∀ dep ∈ s.dependencies name, Startable s dep) : Startable s name

-- A plugin that is not loaded any more, or was loaded before, is held up by the first of its
-- dependencies that cannot be started.
structure Stalls (s : Registry) (name dep : PluginName) : Prop where
  known : name ∈ s.plugins
  loaded : s.state name ≠ .registered
  inactive : s.state name ≠ .active
  first : ∃ before after, s.dependencies name = before ++ dep :: after ∧
    (∀ other ∈ before, s.Startable other) ∧ ¬s.Startable dep

-- Going from one plugin to what holds it up never comes back.
def NoReturn (s : Registry) (name : PluginName) : Prop :=
  ∀ other, ReflTransGen s.Stalls name other → ¬TransGen s.Stalls other other

-- What a start may have made of the registry: only plugins that could be started have changed, and
-- they have gone forward.
structure Advanced (s t : Registry) : Prop where
  plugins : t.plugins = s.plugins
  same : ∀ name, ¬s.Startable name → t.state name = s.state name
  registered : ∀ name, t.state name = .registered → s.state name = .registered
  active : ∀ name, s.state name = .active → t.state name = .active

end Registry

section Startable

variable {s t : Registry} {name : PluginName}

open Registry

theorem Registry.Startable.valid (h : s.Startable name) (hr : s.state name = .registered) :
    s.Valid name := by
  cases h with
  | active state =>
      rw [hr] at state
      cases state
  | idle _ valid _ => exact valid hr

theorem Registry.Valid.settled (h : s.Valid name) : (dependencyWalk s).Settled name :=
  (valid_iff_sound.mp h).settled checked_mem

-- Whatever is valid can be started.
theorem startable_of_settled (h : (dependencyWalk s).Settled name) : s.Startable name := by
  induction h with
  | @intro name passes rest ih =>
      have hvalid : s.Valid name := valid_iff_sound.mpr (Walk.Settled.intro passes rest).sound
      exact .idle (checked_mem _ passes) (fun _ => hvalid) ih

theorem Registry.Valid.startable (h : s.Valid name) : s.Startable name :=
  startable_of_settled h.settled

theorem Registry.Stalls.not_startable {dep : PluginName} (h : s.Stalls name dep) :
    ¬s.Startable name := by
  obtain ⟨before, after, hdeps, -, hnot⟩ := h.first
  intro hs
  cases hs with
  | active state => exact h.inactive state
  | idle _ _ rest => exact hnot (rest dep (by rw [hdeps]; simp))

-- What holds a plugin up is something it needs, so that it takes a cycle of dependencies to come back.
theorem Registry.NoReturn.of_acyclic
    (h : ∀ other, ReflTransGen s.Needs name other → ¬TransGen s.Needs other other) :
    s.NoReturn name := by
  have hneeds (first second : PluginName) (hs : s.Stalls first second) : s.Needs first second := by
    obtain ⟨before, after, hdeps, -⟩ := hs.first
    show second ∈ s.dependencies first
    rw [hdeps]
    simp
  exact fun other hreach hcycle => h other (ReflTransGen.mono hneeds _ _ hreach)
    (TransGen.mono hneeds _ _ hcycle)

namespace Registry.Advanced

theorem refl (s : Registry) : Advanced s s := ⟨rfl, fun _ _ => rfl, fun _ => id, fun _ => id⟩

theorem dependencies (h : Advanced s t) (name : PluginName) :
    t.dependencies name = s.dependencies name := by
  rw [Registry.dependencies, Registry.dependencies, h.plugins]

-- A plugin that could not be started is still not ACTIVE.
theorem inactive (h : Advanced s t) (hs : ¬s.Startable name) : t.state name ≠ .active := by
  rw [h.same name hs]
  exact fun hactive => hs (.active hactive)

theorem record (h : Advanced s t) (history : List Record) : Advanced s { t with history := history } :=
  ⟨h.plugins, h.same, h.registered, h.active⟩

theorem errors (h : Advanced s t) (errors : Dict PluginName String) :
    Advanced s { t with errors := errors } :=
  ⟨h.plugins, h.same, h.registered, h.active⟩

theorem setState (h : Advanced s t) (hs : s.Startable name) {state : PluginState}
    (hr : state ≠ .registered) (ha : s.state name = .active → state = .active) :
    Advanced s { t with states := t.states.set name state } where
  plugins := h.plugins
  same other ho := by
    have hne : other ≠ name := fun he => ho (he ▸ hs)
    rw [state_set, if_neg hne]
    exact h.same other ho
  registered other ho := by
    rw [state_set] at ho
    split at ho
    · exact absurd ho hr
    · exact h.registered other ho
  active other ho := by
    rw [state_set]
    split
    · rename_i he
      subst he
      exact ha ho
    · exact h.active other ho

end Registry.Advanced

end Startable

-- A condition on exceptions that whatever the hooks raise meets, and that survives being wrapped.
structure Covers (hooks : Hooks) (raised : PluginError → Prop) : Prop where
  wrap : ∀ stage name e, raised e → raised (.failed stage name e)
  hook : ∀ history name hook message, hooks history name hook = some message → raised (.hook message)

namespace Operation

open Registry

variable {hooks : Hooks} {raised : PluginError → Prop} {s : Registry} {name : PluginName}

theorem callHook_advances (h : Covers hooks raised) (hook : Hook) : Triple (Advanced s)
    (callHook hooks name hook) (fun _ => Advanced s) fun e _ => raised e := by
  intro t ht
  rw [callHook_eq]
  cases hr : hooks t.history name hook with
  | none => exact ht.record _
  | some message => exact h.hook _ _ _ _ hr

theorem setState_advances (hs : s.Startable name) (state : PluginState) (hr : state ≠ .registered)
    (ha : s.state name = .active → state = .active) : Triple (Advanced s) (setState name state)
      (fun _ t => Advanced s t ∧ t.state name = state) fun e _ => raised e :=
  .modify fun t ht => ⟨ht.setState hs hr ha, by rw [state_set, if_pos rfl]⟩

theorem clearError_advances : Triple (Advanced s) (clearError name) (fun _ => Advanced s)
    fun e _ => raised e := .modify fun _ ht => ht.errors _

theorem publish_advances {state : PluginState} {event : String} {details : List (String × String)} :
    Triple (fun t => Advanced s t ∧ t.state name = state) (publish event name details)
      (fun _ t => Advanced s t ∧ t.state name = state) fun e _ => raised e :=
  .modify fun _ ht => ⟨ht.1.record _, ht.2⟩

theorem fail_wraps {stage : String} {e : PluginError} (he : raised (.failed stage name e))
    {post : Unit → Registry → Prop} :
    Triple (fun _ => True) (fail name stage e) post fun e _ => raised e := by
  have hset : Triple (fun _ => True) (setState name .failed) (fun _ _ => True) fun e _ => raised e :=
    .modify fun _ _ => trivial
  have herror : Triple (fun _ => True) (setError name e.str) (fun _ _ => True) fun e _ => raised e :=
    .modify fun _ _ => trivial
  have hpublish : Triple (fun _ => True)
      (publish "plugin_failed" name [("error", e.str), ("stage", stage)]) (fun _ _ => True)
      fun e _ => raised e := .modify fun _ _ => trivial
  exact .bind hset fun _ => .bind herror fun _ => .bind hpublish fun _ => .throw fun _ _ => he

-- A handler that wraps what was raised.
theorem tryCatch_covered {prog : Operation Unit} {pre : Registry → Prop} {post : Unit → Registry → Prop}
    (h : Covers hooks raised) {stage : String} (hprog : Triple pre prog post fun e _ => raised e) :
    Triple pre (tryCatch prog fun e => fail name stage e) post fun e _ => raised e :=
  .tryCatch hprog fun e t he => by
    have hfail : Triple (fun _ => True) (fail name stage e) post fun e _ => raised e :=
      fail_wraps (h.wrap stage name e he)
    exact hfail t trivial

theorem completeLoad_advances (h : Covers hooks raised) (hs : s.Startable name)
    (hr : s.state name = .registered) : Triple (Advanced s) (completeLoad hooks name)
      (fun _ => Advanced s) fun e _ => raised e := by
  have hloaded : s.state name = .active → PluginState.loaded = .active := by
    rw [hr]
    intro ha
    cases ha
  have hpublish : Triple (Advanced s) (publish "plugin_loaded" name []) (fun _ => Advanced s)
      fun e _ => raised e := .modify fun _ ht => ht.record _
  refine .bind (callHook_advances h .init) fun _ => .bind (callHook_advances h .load) fun _ => ?_
  refine .bind ((setState_advances hs .loaded nofun hloaded).imp (fun _ => id) (fun _ _ ht => ht.1)
    fun _ _ => id) fun _ => ?_
  exact .bind clearError_advances fun _ => hpublish

theorem activatePlugin_advances (h : Covers hooks raised) (hs : s.Startable name) : Triple (Advanced s)
    (activatePlugin hooks name) (fun _ t => Advanced s t ∧ t.state name = .active)
      fun e _ => raised e := by
  refine tryCatch_covered h (.bind (callHook_advances h .start) fun _ => ?_)
  exact .bind (setState_advances hs .active nofun fun _ => rfl) fun _ => publish_advances

-- The validation of a plugin that is valid fails for lack of depth only.
theorem validate_advances (hv : s.Valid name) {depth : Nat}
    (hdepth : s.plugins.keys.length < depth ∨ raised .recursion) : Triple (Advanced s)
      (validate depth name) (fun _ => Advanced s) fun e _ => raised e := by
  intro t ht
  have hsound := valid_iff_sound.mp hv
  rw [run_validate, ht.plugins, validateDependencies_eq_visit]
  cases hvisit : (dependencyWalk s).visit depth name [] [] with
  | ok visited => exact ht
  | error e =>
      rcases (dependencyWalk s).visit_error (fun past hp => absurd hp List.not_mem_nil) hvisit with
        rfl | hfault
      · refine hdepth.resolve_left fun hlt => ?_
        rcases (dependencyWalk s).visit_exact name checked_mem hlt with ⟨-, _, hok⟩ | ⟨hnot, -⟩
        · cases hok.symm.trans hvisit
        · exact hnot hsound
      · exact absurd hsound hfault.not_sound

end Operation

-- Bounds for some plugins give one for all of them.
theorem exists_bound {prop : PluginName → Nat → Prop} {enough : Prop} {names : List PluginName}
    (h : ∀ name ∈ names, ∃ bound, ∀ depth, bound ≤ depth ∨ enough → prop name depth) :
    ∃ bound, ∀ depth, bound ≤ depth ∨ enough → ∀ name ∈ names, prop name depth := by
  induction names with
  | nil => exact ⟨0, fun _ _ _ hn => absurd hn List.not_mem_nil⟩
  | cons first rest ih =>
      obtain ⟨hfirst, hrest⟩ := List.forall_mem_cons.mp h
      obtain ⟨bound, hbound⟩ := hfirst
      obtain ⟨others, hothers⟩ := ih hrest
      refine ⟨max bound others, fun depth hd => List.forall_mem_cons.mpr ⟨?_, ?_⟩⟩
      · exact hbound depth (hd.imp_left (le_max_left _ _).trans)
      · exact hothers depth (hd.imp_left (le_max_right _ _).trans)

namespace Operation

open Registry

variable {hooks : Hooks} {raised : PluginError → Prop} {s : Registry} {name : PluginName}

-- A plugin that is valid is loaded, unless a hook raises or the depth is not enough.
theorem loadPlugin_advances (h : Covers hooks raised) (hs : (dependencyWalk s).Settled name) :
    ∃ bound, ∀ depth, bound ≤ depth ∨ raised .recursion → Triple (Advanced s)
      (loadPlugin hooks depth name) (fun _ => Advanced s) fun e _ => raised e := by
  induction hs with
  | @intro name passes rest ih =>
      have hsettled : (dependencyWalk s).Settled name := .intro passes rest
      have hvalid : s.Valid name := valid_iff_sound.mpr hsettled.sound
      obtain ⟨bound, hbound⟩ := exists_bound ih
      obtain ⟨known, hknown, -⟩ := checkPlugin_eq_ok_iff.mp passes
      refine ⟨max bound (s.plugins.keys.length + 1) + 1, fun depth hdepth => ?_⟩
      cases depth with
      | zero => exact .throw fun _ _ => hdepth.resolve_left (by omega)
      | succ depth =>
          have hbelow : bound ≤ depth ∨ raised .recursion := hdepth.imp_left fun hd => by omega
          have hframes : s.plugins.keys.length < depth ∨ raised .recursion :=
            hdepth.imp_left fun hd => by omega
          refine .of_state fun t ht => .get_bind_eq ?_
          split
          · rename_i plugin hplugin
            refine .get_bind_eq (.ite (fun _ => .pure fun u hu => hu ▸ ht) fun hr => ?_)
            have hregistered : s.state name = .registered := ht.registered name (not_not.mp hr)
            have hdeps : s.dependencies name = plugin.dependencies := by
              rw [← ht.dependencies, Registry.dependencies, hplugin]
            have hloop : Triple (Advanced s)
                (plugin.dependencies.forM fun dep => loadIfRegistered hooks depth dep)
                (fun _ => Advanced s) fun e _ => raised e := by
              refine .forM (fun _ => Advanced s) fun done dep rest he => ?_
              have hmem : dep ∈ (dependencyWalk s).next name := by
                have hnext : (dependencyWalk s).next name = s.dependencies name := rfl
                rw [hnext, hdeps, he]
                simp
              refine .of_state fun u hu => .get_bind_eq (.ite (fun _ => ?_) fun _ => .pure ?_)
              · exact (hbound depth hbelow dep hmem).pre_imp fun v hv => hv ▸ hu
              · exact fun v hv => hv ▸ hu
            refine tryCatch_covered h (.bind ((validate_advances hvalid hframes).pre_imp
              fun u hu => hu ▸ ht) fun _ => .bind hloop fun _ => ?_)
            exact completeLoad_advances h hvalid.startable hregistered
          · rename_i hmissing
            rw [ht.plugins, hknown] at hmissing
            exact absurd rfl (hmissing known)

theorem loadIfRegistered_advances (h : Covers hooks raised)
    (hv : s.state name = .registered → s.Valid name) :
    ∃ bound, ∀ depth, bound ≤ depth ∨ raised .recursion → Triple (Advanced s)
      (loadIfRegistered hooks depth name) (fun _ => Advanced s) fun e _ => raised e := by
  by_cases hr : s.state name = .registered
  · obtain ⟨bound, hbound⟩ := loadPlugin_advances h (hv hr).settled
    refine ⟨bound, fun depth hdepth => .of_state fun t ht => .get_bind_eq (.ite (fun _ => ?_)
      fun _ => .pure fun u hu => hu ▸ ht)⟩
    exact (hbound depth hdepth).pre_imp fun u hu => hu ▸ ht
  · refine ⟨0, fun depth _ => .of_state fun t ht => .get_bind_eq (.ite (fun ht' => ?_)
      fun _ => .pure fun u hu => hu ▸ ht)⟩
    exact absurd (ht.registered name ht') hr

-- The loop over dependencies that can be started.
theorem startDependencies_advances {depth : Nat} {deps : List PluginName}
    (h : ∀ dep ∈ deps, Triple (fun t => Advanced s t ∧ t.state dep ≠ .active)
      (startPlugin hooks depth dep) (fun _ t => Advanced s t ∧ t.state dep = .active)
        fun e _ => raised e) :
    Triple (Advanced s) (deps.forM fun dep => do
      if (← get).state dep ≠ .active then
        startPlugin hooks depth dep) (fun _ => Advanced s) fun e _ => raised e := by
  refine .forM (fun _ => Advanced s) fun done dep rest he => .of_state fun t ht => ?_
  refine .get_bind_eq (.ite (fun hstate => ?_) fun _ => .pure fun u hu => hu ▸ ht)
  refine (h dep (by simp [he])).imp (fun u hu => ?_) (fun _ _ hu => hu.1) fun _ _ => id
  exact hu ▸ ⟨ht, hstate⟩

-- The turn of a plugin that is not ACTIVE yet: its load, its dependencies, its activation.
theorem startPlugin_turn {pre mid last : Registry → Prop} {post : Unit → Registry → Prop} {depth : Nat}
    (known : name ∈ s.plugins) (hpre : ∀ t, pre t → Advanced s t ∧ t.state name ≠ .active)
    (hload : Triple (Advanced s) (loadIfRegistered hooks depth name) (fun _ => mid) fun e _ => raised e)
    (hstart : Triple mid ((s.dependencies name).forM fun dep => do
      if (← get).state dep ≠ .active then
        startPlugin hooks depth dep) (fun _ => last) fun e _ => raised e)
    (hactivate : Triple last (activatePlugin hooks name) post fun e _ => raised e) :
    Triple pre (startPlugin hooks (depth + 1) name) post fun e _ => raised e := by
  refine .of_state fun t ht => .get_bind_eq ?_
  obtain ⟨hadvanced, hinactive⟩ := hpre t ht
  split
  · rename_i plugin hplugin
    have hdeps : s.dependencies name = plugin.dependencies := by
      rw [← hadvanced.dependencies, Registry.dependencies, hplugin]
    rw [hdeps] at hstart
    refine .get_bind_eq (.ite (fun hactive => absurd hactive hinactive) fun _ => ?_)
    exact .bind (hload.pre_imp fun u hu => hu ▸ hadvanced) fun _ => .bind hstart fun _ => hactivate
  · rename_i hmissing
    obtain ⟨plugin, hplugin⟩ := (Dict.mem_iff _ _).mp known
    rw [hadvanced.plugins, hplugin] at hmissing
    exact absurd rfl (hmissing plugin)

-- A plugin that can be started is started, unless a hook raises or the depth is not enough.
theorem startPlugin_advances (h : Covers hooks raised) (hs : s.Startable name) :
    ∃ bound, ∀ depth, bound ≤ depth ∨ raised .recursion →
      Triple (fun t => Advanced s t ∧ t.state name ≠ .active) (startPlugin hooks depth name)
        (fun _ t => Advanced s t ∧ t.state name = .active) fun e _ => raised e := by
  induction hs with
  | @active name state =>
      refine ⟨0, fun depth _ t ht => ?_⟩
      exact absurd (ht.1.active name state) ht.2
  | @idle name known valid rest ih =>
      have hstartable : s.Startable name := .idle known valid rest
      obtain ⟨bound, hbound⟩ := exists_bound ih
      obtain ⟨loading, hloading⟩ := loadIfRegistered_advances h valid
      refine ⟨max bound loading + 1, fun depth hdepth => ?_⟩
      cases depth with
      | zero => exact .throw fun _ _ => hdepth.resolve_left (by omega)
      | succ depth =>
          have hbelow : bound ≤ depth ∨ raised .recursion := hdepth.imp_left fun hd => by omega
          have hload : loading ≤ depth ∨ raised .recursion := hdepth.imp_left fun hd => by omega
          exact startPlugin_turn known (fun _ => id) (hloading depth hload)
            (startDependencies_advances (hbound depth hbelow)) (activatePlugin_advances h hstartable)

-- A plugin that is held up is never started: its dependencies before the one that holds it up are, and
-- then everything depends on that one.
theorem startPlugin_stalled (h : Covers hooks raised) {dep : PluginName} (hs : s.Stalls name dep) :
    ∃ bound, ∀ depth, bound ≤ depth ∨ raised .recursion →
      Triple (Advanced s) (startPlugin hooks depth dep) (fun _ _ => False) (fun e _ => raised e) →
      Triple (Advanced s) (startPlugin hooks (depth + 1) name) (fun _ _ => False)
        fun e _ => raised e := by
  obtain ⟨before, after, hdeps, hbefore, hdep⟩ := hs.first
  obtain ⟨bound, hbound⟩ := exists_bound fun other ho => startPlugin_advances h (hbefore other ho)
  refine ⟨bound, fun depth hdepth hraises => ?_⟩
  have hload : Triple (Advanced s) (loadIfRegistered hooks depth name) (fun _ => Advanced s)
      fun e _ => raised e := by
    refine .of_state fun t ht => .get_bind_eq (.ite (fun hr => ?_) fun _ => .pure fun u hu => hu ▸ ht)
    exact absurd ((ht.same name hs.not_startable).symm.trans hr) hs.loaded
  have hheld : Triple (Advanced s) (do
      if (← get).state dep ≠ .active then
        startPlugin hooks depth dep) (fun _ _ => False) fun e _ => raised e :=
    .of_state fun t ht => .get_bind_eq (.ite (fun _ => hraises.pre_imp fun u hu => hu ▸ ht)
      fun hactive => absurd (not_not.mp hactive) (ht.inactive hdep))
  have hloop : Triple (Advanced s) ((s.dependencies name).forM fun dep => do
      if (← get).state dep ≠ .active then
        startPlugin hooks depth dep) (fun _ _ => False) fun e _ => raised e := by
    rw [hdeps]
    exact .forM_append (startDependencies_advances (hbound depth hdepth))
      (.bind hheld fun _ _ hf => hf.elim)
  exact startPlugin_turn hs.known (fun t ht => ⟨ht, ht.inactive hs.not_startable⟩) hload hloop
    fun _ hf => hf.elim

-- Around a cycle the recursion takes every frame that there is.
theorem startPlugin_runaway (h : Covers hooks PluginError.Runaway) {dep : PluginName}
    (hreach : ReflTransGen s.Stalls name dep) (hcycle : TransGen s.Stalls dep dep) (depth : Nat) :
    Triple (Advanced s) (startPlugin hooks depth name) (fun _ _ => False) fun e _ => e.Runaway := by
  induction depth generalizing name with
  | zero => exact .throw fun _ _ => trivial
  | succ depth ih =>
      have hnext : ∃ next, s.Stalls name next ∧ ReflTransGen s.Stalls next dep := by
        rcases hreach.cases_head with rfl | hnext
        · exact TransGen.head'_iff.mp hcycle
        · exact hnext
      obtain ⟨next, hstalls, hrest⟩ := hnext
      obtain ⟨bound, hbound⟩ := startPlugin_stalled h hstalls
      exact hbound depth (.inr trivial) (ih hrest)

end Operation

section Ends

variable {hooks : Hooks} {s : Registry} {name : PluginName}

theorem parseVersion_onlyRaises (text : String) :
    OnlyRaises (fun e => ∃ part, e = .invalidNumber part) (parseVersion text) := by
  refine .bind (.mapM fun part => ?_) fun _ => .pure
  unfold parsePart
  split
  · exact .pure
  · exact .error ⟨part, rfl⟩

theorem checkVersionCompatibility_onlyRaises (compat core : String) :
    OnlyRaises (fun e => ∃ part, e = .invalidNumber part) (checkVersionCompatibility compat core) := by
  unfold checkVersionCompatibility
  split
  · exact .pure
  · refine .bind (parseVersion_onlyRaises _) fun core => ?_
    split
    · exact .bind (parseVersion_onlyRaises _) fun _ => .pure
    · refine .bind (parseVersion_onlyRaises _) fun _ => ?_
      split
      · exact .pure
      · exact .pure

theorem checkPlugin_onlyRaises : OnlyRaises (¬PluginError.Runaway ·) (checkPlugin s.plugins name) := by
  unfold checkPlugin
  split
  · exact .error id
  · refine .bind (fun e he => ?_) fun compatible => ?_
    · obtain ⟨part, rfl⟩ := checkVersionCompatibility_onlyRaises _ _ e he
      exact id
    · cases compatible with
      | false => exact .error id
      | true => exact .pure

namespace Operation

open Registry

-- A plugin that is not valid is rejected, by an exception of the validation where the depth is enough.
theorem validate_rejects (hv : ¬s.Valid name) {depth : Nat} (hdepth : s.plugins.keys.length < depth) :
    Triple (Advanced s) (validate depth name) (fun _ _ => False) fun e _ => ¬e.Runaway := by
  intro t ht
  rw [run_validate, ht.plugins, validateDependencies_eq_visit]
  rcases (dependencyWalk s).visit_exact name checked_mem hdepth with
    ⟨hsound, -⟩ | ⟨-, e, hvisit, other, -, hcheck | ⟨rfl, -⟩⟩
  · exact absurd (valid_iff_sound.mpr hsound) hv
  · rw [hvisit]
    exact checkPlugin_onlyRaises e hcheck
  · rw [hvisit]
    exact id

theorem hooks_cover (hooks : Hooks) : Covers hooks (¬PluginError.Runaway ·) where
  wrap _ _ _ he := he
  hook _ _ _ _ _ := id

theorem loadPlugin_rejects (hr : s.state name = .registered) (hv : ¬s.Valid name) {depth : Nat}
    (hdepth : s.plugins.keys.length + 1 < depth) :
    Triple (Advanced s) (loadPlugin hooks depth name) (fun _ _ => False) fun e _ => ¬e.Runaway := by
  obtain ⟨depth, rfl⟩ := Nat.exists_eq_succ_of_ne_zero (Nat.ne_zero_of_lt hdepth)
  have hvalidate := validate_rejects hv (Nat.lt_of_succ_lt_succ hdepth)
  have hstartable : ¬s.Startable name := fun hs => hv (hs.valid hr)
  refine .of_state fun t ht => .get_bind_eq ?_
  split
  · refine .get_bind_eq (.ite (fun hne => ?_) fun _ => ?_)
    · exact absurd ((ht.same name hstartable).trans hr) hne
    · exact tryCatch_covered (hooks_cover hooks)
        (.bind (hvalidate.pre_imp fun u hu => hu ▸ ht) fun _ _ hf => hf.elim)
  · exact .throw fun _ _ => id

end Operation

-- The first of them that fails the test.
theorem exists_first {prop : PluginName → Prop} {names : List PluginName}
    (h : ∃ name ∈ names, ¬prop name) :
    ∃ before name after, names = before ++ name :: after ∧ (∀ other ∈ before, prop other) ∧
      ¬prop name := by
  induction names with
  | nil =>
      obtain ⟨name, hname, -⟩ := h
      cases hname
  | cons first rest ih =>
      by_cases hfirst : prop first
      · obtain ⟨name, hname, hnot⟩ := h
        have hrest : name ∈ rest := by
          rcases List.mem_cons.mp hname with rfl | hrest
          · exact absurd hfirst hnot
          · exact hrest
        obtain ⟨before, found, after, rfl, hbefore, hfound⟩ := ih ⟨name, hrest, hnot⟩
        exact ⟨first :: before, found, after, rfl, List.forall_mem_cons.mpr ⟨hfirst, hbefore⟩, hfound⟩
      · exact ⟨[], first, rest, rfl, fun _ ho => absurd ho List.not_mem_nil, hfirst⟩

-- What is registered and cannot be started is rejected when it is loaded, or held up.
theorem Registry.invalid_or_stalls (hknown : name ∈ s.plugins) (h : ¬s.Startable name) :
    s.state name = .registered ∧ ¬s.Valid name ∨ ∃ dep, s.Stalls name dep := by
  by_cases hr : s.state name = .registered
  · exact .inl ⟨hr, fun hv => h hv.startable⟩
  · have hdeps : ∃ dep ∈ s.dependencies name, ¬s.Startable dep := by
      by_contra hall
      push Not at hall
      exact h (.idle hknown (fun hr' => absurd hr' hr) hall)
    obtain ⟨before, dep, after, hdeps, hbefore, hdep⟩ := exists_first hdeps
    exact .inr ⟨dep, hknown, hr, fun ha => h (.active ha), before, after, hdeps, hbefore, hdep⟩

namespace Operation

open Registry

-- Where nothing comes back to itself, a plugin that cannot be started is refused in a few frames.
theorem startPlugin_refuses (hn : s.NoReturn name) (h : ¬s.Startable name) :
    ∃ bound, ∀ depth, bound ≤ depth →
      Triple (Advanced s) (startPlugin hooks depth name) (fun _ _ => False) fun e _ => ¬e.Runaway := by
  have hkeys (first second : PluginName) (hs : s.Stalls first second) : first ∈ s.plugins.keys :=
    (Dict.mem_keys_iff _ _).mpr ((Dict.mem_iff _ _).mp hs.known)
  refine reachable_induction (motive := fun other => ¬s.Startable other → ∃ bound, ∀ depth,
    bound ≤ depth → Triple (Advanced s) (startPlugin hooks depth other) (fun _ _ => False)
      fun e _ => ¬e.Runaway) hkeys hn (fun other _ ih h => ?_) h
  by_cases hknown : other ∈ s.plugins
  · rcases Registry.invalid_or_stalls hknown h with ⟨hr, hv⟩ | ⟨dep, hstalls⟩
    · refine ⟨s.plugins.keys.length + 3, fun depth hdepth => ?_⟩
      obtain ⟨depth, rfl⟩ := Nat.exists_eq_succ_of_ne_zero (Nat.ne_zero_of_lt hdepth)
      have hload : Triple (Advanced s) (loadPlugin hooks depth other) (fun _ _ => False)
          fun e _ => ¬e.Runaway := loadPlugin_rejects hr hv (Nat.le_of_succ_le_succ hdepth)
      have hloads : Triple (Advanced s) (loadIfRegistered hooks depth other) (fun _ _ => False)
          fun e _ => ¬e.Runaway :=
        .of_state fun t ht => .get_bind_eq (.ite (fun _ => hload.pre_imp fun u hu => hu ▸ ht)
          fun hne => absurd ((ht.same other h).trans hr) hne)
      have hnever : Triple (fun _ => False) ((s.dependencies other).forM fun dep => do
          if (← get).state dep ≠ .active then
            startPlugin hooks depth dep) (fun _ _ => False) fun e _ => ¬e.Runaway :=
        fun _ hf => hf.elim
      exact startPlugin_turn hknown (fun t ht => ⟨ht, ht.inactive h⟩) hloads hnever
        fun _ hf => hf.elim
    · obtain ⟨_, _, _, _, hdep⟩ := hstalls.first
      obtain ⟨bound, hbound⟩ := ih dep hstalls hdep
      obtain ⟨before, hbefore⟩ := startPlugin_stalled (hooks_cover hooks) hstalls
      refine ⟨max bound before + 1, fun depth hdepth => ?_⟩
      obtain ⟨depth, rfl⟩ := Nat.exists_eq_succ_of_ne_zero (Nat.ne_zero_of_lt hdepth)
      exact hbefore depth (.inl (by omega)) (hbound depth (by omega))
  · refine ⟨1, fun depth hdepth => ?_⟩
    obtain ⟨depth, rfl⟩ := Nat.exists_eq_succ_of_ne_zero (Nat.ne_zero_of_lt hdepth)
    refine .of_state fun t ht => .get_bind_eq ?_
    split
    · rename_i plugin hplugin
      rw [ht.plugins] at hplugin
      exact absurd ((Dict.mem_iff _ _).mpr ⟨plugin, hplugin⟩) hknown
    · exact .throw fun _ _ => id

-- Every exception is one of the package, or says that there are no frames left.
theorem loadPlugin_raises (depth : Nat) : Triple (fun _ => True) (loadPlugin hooks depth name)
    (fun _ _ => True) fun e _ => e.IsPluginError ∨ e = .recursion := by
  cases depth with
  | zero => exact .throw fun _ _ => .inr rfl
  | succ depth =>
      refine .get_bind fun t => ?_
      split
      · refine .get_bind fun _ => .ite (fun _ => .pure fun _ _ => trivial) fun _ => ?_
        exact .tryCatch .trivial fun e => fail_wraps (.inl trivial)
      · exact .throw fun _ _ => .inl trivial

theorem startPlugin_raises (depth : Nat) : Triple (fun _ => True) (startPlugin hooks depth name)
    (fun _ _ => True) fun e _ => e.IsPluginError ∨ e = .recursion := by
  induction depth generalizing name with
  | zero => exact .throw fun _ _ => .inr rfl
  | succ depth ih =>
      have hload : Triple (fun _ => True) (loadIfRegistered hooks depth name) (fun _ _ => True)
          fun e _ => e.IsPluginError ∨ e = .recursion :=
        .get_bind fun _ => .ite (fun _ => (loadPlugin_raises depth).pre_imp fun _ _ => trivial)
          fun _ => .pure fun _ _ => trivial
      have hactivate : Triple (fun _ => True) (activatePlugin hooks name) (fun _ _ => True)
          fun e _ => e.IsPluginError ∨ e = .recursion :=
        .tryCatch .trivial fun e => fail_wraps (.inl trivial)
      refine .get_bind fun t => ?_
      split
      · refine .get_bind fun _ => .ite (fun _ => .pure fun _ _ => trivial) fun _ => ?_
        refine .bind (hload.pre_imp fun _ _ => trivial) fun _ => ?_
        refine .bind (.forM (fun _ _ => True) fun done dep rest _ => ?_) fun _ => hactivate
        exact .get_bind fun _ => .ite (fun _ => ih.pre_imp fun _ _ => trivial)
          fun _ => .pure fun _ _ => trivial
      · exact .throw fun _ _ => .inl trivial

end Operation

-- What a start comes to in a state, as far as it concerns the caller.
theorem Settles.of_triple (pre : Registry → Prop) (hs : pre s) (h : ∃ bound, ∀ depth, bound ≤ depth →
    Triple pre (Operation.startPlugin hooks depth name) (fun _ t => t.state name = .active)
      fun e _ => ¬e.Runaway) : Settles hooks name s := by
  obtain ⟨bound, hbound⟩ := h
  refine ⟨bound, fun depth hdepth => ?_⟩
  have hraises (e : PluginError) (he : ¬e.Runaway ∧ (e.IsPluginError ∨ e = .recursion)) :
      e.IsPluginError ∧ ¬e.Runaway := by
    refine ⟨he.2.resolve_right fun heq => he.1 ?_, he.1⟩
    rw [heq]
    trivial
  have hends := hbound depth hdepth s hs
  have hpackage := @Operation.startPlugin_raises hooks name depth s trivial
  revert hends hpackage
  cases Operation.startPlugin hooks depth name s with
  | ok _ t => exact fun hactive _ => hactive
  | error e t => exact fun hr hp => hraises e ⟨hr, hp⟩

open Operation Registry in
theorem Registry.NoReturn.settles (h : s.NoReturn name) : Settles hooks name s := by
  by_cases hs : s.Startable name
  · obtain ⟨bound, hbound⟩ := startPlugin_advances (hooks_cover hooks) hs
    by_cases ha : s.state name = .active
    · refine .of_triple (· = s) rfl ⟨1, fun depth hdepth => ?_⟩
      obtain ⟨depth, rfl⟩ := Nat.exists_eq_succ_of_ne_zero (Nat.ne_zero_of_lt hdepth)
      refine .get_bind_eq ?_
      split
      · exact .get_bind_eq (.ite (fun _ => .pure fun u hu => hu ▸ ha) fun hne => absurd ha hne)
      · exact .throw fun _ _ => id
    · refine .of_triple (fun t => Advanced s t ∧ t.state name ≠ .active) ⟨.refl s, ha⟩
        ⟨bound, fun depth hdepth => ?_⟩
      exact (hbound depth (.inl hdepth)).imp (fun _ => id) (fun _ _ ht => ht.2) fun _ _ => id
  · obtain ⟨bound, hbound⟩ := startPlugin_refuses h hs
    refine .of_triple (Advanced s) (.refl s) ⟨bound, fun depth hdepth => ?_⟩
    exact (hbound depth hdepth).imp (fun _ => id) (fun _ _ ht => ht.elim) fun _ _ => id

theorem quiet_covers : Covers quiet PluginError.Runaway where
  wrap _ _ _ he := he
  hook _ _ _ _ he := nomatch he

-- When no hook raises there is nothing else that could end the recursion around a cycle.
theorem not_settles_of_cycle {dep : PluginName} (hreach : ReflTransGen s.Stalls name dep)
    (hcycle : TransGen s.Stalls dep dep) : ¬Settles quiet name s := by
  rintro ⟨bound, hbound⟩
  have hends := hbound bound (le_refl bound)
  have hruns := Operation.startPlugin_runaway quiet_covers hreach hcycle bound s (.refl s)
  revert hends hruns
  cases Operation.startPlugin quiet bound name s with
  | ok _ t => exact fun _ hf => hf
  | error e t => exact fun hends hruns => hends.2 hruns

end Ends

-- In whatever state the registry is, a start ends, whether hooks raise in it or not, when going from
-- the plugin to what holds it up never comes back, and only then.
theorem start_plugin_settles_iff (hooks : Hooks) (acts : List Action) (name : PluginName) :
    (∀ later, Settles later name (perform hooks acts)) ↔ (perform hooks acts).NoReturn name := by
  constructor
  · intro hsettles other hreach hcycle
    exact not_settles_of_cycle hreach hcycle (hsettles quiet)
  · exact fun h later => h.settles

-- Two plugins that need each other, both refused when the registry was initialized
def entangledPlugins : Registry :=
  perform quiet [.register ⟨"a", "1.0.0", ["b"], "*"⟩, .register ⟨"b", "1.0.0", ["a"], "*"⟩,
    .initializeAll 900]

theorem entangled_start_never_settles : ¬Settles quiet "a" entangledPlugins := by
  have hstate : entangledPlugins.state "a" = .failed ∧ entangledPlugins.state "b" = .failed := by
    decide +kernel
  have hdeps : entangledPlugins.dependencies "a" = ["b"] ∧ entangledPlugins.dependencies "b" = ["a"] := by
    decide +kernel
  have hknown : "a" ∈ entangledPlugins.plugins ∧ "b" ∈ entangledPlugins.plugins := by decide +kernel
  have hnot (name : PluginName) (hs : entangledPlugins.Startable name) : name ≠ "a" ∧ name ≠ "b" := by
    induction hs with
    | active state =>
        constructor
        · rintro rfl
          cases hstate.1.symm.trans state
        · rintro rfl
          cases hstate.2.symm.trans state
    | idle _ _ _ ih =>
        constructor
        · rintro rfl
          exact (ih "b" (by rw [hdeps.1]; simp)).2 rfl
        · rintro rfl
          exact (ih "a" (by rw [hdeps.2]; simp)).1 rfl
  have hfirst : entangledPlugins.Stalls "a" "b" :=
    ⟨hknown.1, by rw [hstate.1]; decide, by rw [hstate.1]; decide, [], [], hdeps.1,
      fun _ ho => absurd ho List.not_mem_nil, fun hs => (hnot _ hs).2 rfl⟩
  have hsecond : entangledPlugins.Stalls "b" "a" :=
    ⟨hknown.2, by rw [hstate.2]; decide, by rw [hstate.2]; decide, [], [], hdeps.2,
      fun _ ho => absurd ho List.not_mem_nil, fun hs => (hnot _ hs).1 rfl⟩
  exact not_settles_of_cycle .refl (.head hfirst (.single hsecond))

end YasinCore.Plugins
