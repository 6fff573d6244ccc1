import YasinCore.Config.Settings
import YasinCore.Library.Hoare
import YasinCore.Library.Transition

namespace YasinCore.Config

open YasinCore.Library

variable {α : Type} {host : Host α}

-- The defaults that a rule registers for its key.
def ruleDefaults (key : String) (rule : Rule α) : List (String × Tree α) :=
  match rule.default with
  | .null => []
  | default => [(key, default)]

def schemaDefaults (pluginName : String) (rules : List (String × Rule α)) : List (String × Tree α) :=
  rules.flatMap fun entry => ruleDefaults (Operation.pluginKey pluginName entry.1) entry.2

def flatDefaults (pluginName : String) (flat : List (String × Tree α)) : List (String × Tree α) :=
  flat.map fun entry => (Operation.pluginKey pluginName entry.1, entry.2)

-- The defaults that a call registers, in the order in which they are written.
def Action.registered : Action α → List (String × Tree α)
  | .registerSchema key rule => ruleDefaults key rule
  | .registerPluginConfig pluginName defaults schema =>
      flatDefaults pluginName (Tree.flattenEntries "" defaults []) ++
        schemaDefaults pluginName schema.entries
  | _ => []

-- What writing defaults one after another leaves at a path.
def leaves (path : Path) (written : List (String × Tree α)) (old : Option (Tree α)) : Option (Tree α) :=
  written.foldl (fun old entry => Tree.track path (Text.split '.' entry.1, entry.2) old) old

-- What a call leaves at a path of the defaults layer: a reload reads the layer anew.
def Action.defaultAfter (path : Path) (old : Option (Tree α)) : Action α → Option (Tree α)
  | .reload sources | .load sources | .initializeService sources =>
      (Tree.dict (ConfigurationManager.loadYaml sources.defaultYaml)).at? path
  | act => leaves path act.registered old

namespace ConfigurationManager

def defaultAt (path : Path) (m : ConfigurationManager α) : Option (Tree α) :=
  (Tree.dict m.defaults).at? path

def layers (m : ConfigurationManager α) : List (Entries α) := [m.fileData, m.envData, m.overrides]

-- None of the layers above the defaults defines the key.
def Undefined (key : String) (m : ConfigurationManager α) : Prop :=
  ∀ layer ∈ m.layers, ¬Tree.Defines layer (Text.split '.' key)

-- None of them has something that is no dictionary above the key.
def Unshadowed (key : String) (m : ConfigurationManager α) : Prop :=
  ∀ layer ∈ m.layers, ¬Tree.Shadows layer (Text.split '.' key)

def Merged (m : ConfigurationManager α) : Prop := m.mergedData = m.mergeConfigs

theorem walk_null (path : Path) : walk (.null : Tree α) .null path = .null := by
  cases path <;> rfl

theorem walk_eq (tree : Tree α) (path : Path) : walk .null tree path = (tree.at? path).getD .null := by
  induction path generalizing tree with
  | nil => simp [walk]
  | cons key path ih =>
      rw [Tree.at?_cons]
      cases tree with
      | null => rfl
      | leaf _ => rfl
      | dict entries =>
          rw [walk]
          cases hl : Library.Entries.lookup key entries with
          | none => simp [Tree.child, hl, walk_null]
          | some sub => simp [Tree.child, hl, ih]

theorem get_null (m : ConfigurationManager α) (key : String) :
    m.get key .null = ((Tree.dict m.mergedData).at? (Text.split '.' key)).getD .null := by
  unfold ConfigurationManager.get
  rw [walk_eq]
  split
  · exact Eq.symm ‹_›
  · rfl

theorem get_eq_iff {m : ConfigurationManager α} {key : String} {value : Tree α} (hv : value ≠ .null) :
    m.get key .null = value ↔
      (Tree.dict m.mergedData).at? (Text.split '.' key) = some value := by
  rw [get_null]
  cases (Tree.dict m.mergedData).at? (Text.split '.' key) with
  | none => simp [Ne.symm hv]
  | some tree => simp

theorem split_ne_nil (key : String) : Text.split '.' key ≠ [] := by
  unfold Text.split
  simp

-- The merged value of a key that only the defaults define.
theorem merged_at? {m : ConfigurationManager α} {key : String} (hm : m.Merged) (hu : m.Undefined key) :
    Tree.Passes (¬m.Unshadowed key) ((Tree.dict m.mergedData).at? (Text.split '.' key))
      (m.defaultAt (Text.split '.' key)) := by
  have hne := split_ne_nil key
  have hfile := Tree.passes_mergeEntries hne m.fileData m.defaults (hu _ (by simp [layers]))
  have henv := Tree.passes_mergeEntries hne m.envData (Tree.mergeEntries m.fileData m.defaults)
    (hu _ (by simp [layers]))
  have hover := Tree.passes_mergeEntries hne m.overrides
    (Tree.mergeEntries m.envData (Tree.mergeEntries m.fileData m.defaults)) (hu _ (by simp [layers]))
  have hhidden : (¬m.Unshadowed key) = ((Tree.Shadows m.fileData (Text.split '.' key) ∨
      Tree.Shadows m.envData (Text.split '.' key)) ∨ Tree.Shadows m.overrides (Text.split '.' key)) := by
    unfold Unshadowed layers
    simp only [List.forall_mem_cons, List.not_mem_nil, false_implies, implies_true, and_true,
      not_and_or, not_not, or_assoc]
  rw [hm, hhidden]
  exact (hfile.trans henv).trans hover

-- What a client reads at such a key is the default, as long as nothing shadows it.
theorem get_eq_default_iff {m : ConfigurationManager α} {key : String} {value : Tree α}
    (hv : value ≠ .null) (hm : m.Merged) (hu : m.Undefined key) :
    m.get key .null = value ↔
      m.defaultAt (Text.split '.' key) = some value ∧ m.Unshadowed key := by
  rw [get_eq_iff hv]
  rcases merged_at? hm hu with ⟨hs, he⟩ | ⟨hs, he⟩
  · rw [he, and_iff_left (not_not.mp hs)]
  · rw [he]
    exact iff_of_false (by simp) fun h => hs h.2

end ConfigurationManager

namespace Operation

open ConfigurationManager

variable {path : Path} {old : Option (Tree α)}

-- The state in which the calls leave the manager, seen from the defaults at a path.
def Settled (path : Path) (value : Option (Tree α)) (m : ConfigurationManager α) : Prop :=
  m.defaultAt path = value ∧ m.Merged

theorem lift_maintains {β : Type} {inv : ConfigurationManager α → Prop}
    {result : Except (ConfigError α) β} : Maintains inv (lift result) := by
  cases result with
  | ok value => exact .pure
  | error e => exact .throw

theorem validate_maintains {inv : ConfigurationManager α → Prop} :
    Maintains inv (validate (α := α)) := by
  refine .bind .get fun m => ?_
  exact .forM fun entry _ => lift_maintains

theorem lift_bind {β γ : Type} {pre : ConfigurationManager α → Prop}
    {post : γ → ConfigurationManager α → Prop} {result : Except (ConfigError α) β}
    {next : β → Operation α γ}
    (h : ∀ value, result = .ok value → Triple pre (next value) post fun _ _ => True) :
    Triple pre (lift result >>= next) post fun _ _ => True := by
  cases result with
  | ok value => exact h value rfl
  | error e =>
      intro s _
      trivial

theorem setDefault_spec (parts : Path) (val : Tree α) :
    Triple (fun m => m.defaultAt path = old) (setDefault parts val)
      (fun _ m => m.defaultAt path = Tree.track path (parts, val) old) fun _ _ => True := by
  refine .get_bind fun seen => ?_
  refine lift_bind fun entries hentries => .modify ?_
  rintro s ⟨rfl, rfl⟩
  unfold setDeep at hentries
  split at hentries
  · obtain rfl := Except.ok.inj hentries
    exact Tree.at?_put ‹_› path
  · cases hentries

theorem remerge_spec {value : Option (Tree α)} :
    Triple (fun m => m.defaultAt path = value) remerge (fun _ m => Settled path value m)
      fun _ _ => True := .modify fun _ hs => ⟨hs, rfl⟩

-- Validation reads only; it is what the calls end with.
theorem remerge_validate_spec {value : Option (Tree α)} :
    Triple (fun m => m.defaultAt path = value) (do remerge; validate (α := α))
      (fun _ m => Settled path value m) fun _ _ => True :=
  .bind remerge_spec fun _ => validate_maintains.imp (fun _ => id) (fun _ _ => id) fun _ _ _ => trivial

theorem applyDefault_spec (key : String) (rule : Rule α) :
    Triple (fun m => m.defaultAt path = old) (applyDefault key rule.default)
      (fun _ m => m.defaultAt path = leaves path (ruleDefaults key rule) old) fun _ _ => True := by
  unfold applyDefault ruleDefaults
  cases rule.default with
  | null => exact .pure fun _ => id
  | leaf value => exact setDefault_spec _ _
  | dict entries => exact setDefault_spec _ _

theorem registerSchema_spec (key : String) (rule : Rule α) :
    Triple (fun m => m.defaultAt path = old) (registerSchema key rule)
      (fun _ m => Settled path (leaves path (ruleDefaults key rule) old) m) fun _ _ => True := by
  have hrecord : Triple (fun m => m.defaultAt path = old) (modify fun m => { m with
      schemas := m.schemas.set key rule
      sensitiveKeys := if rule.sensitive then insert key m.sensitiveKeys else m.sensitiveKeys } :
        Operation α Unit) (fun _ m => m.defaultAt path = old) fun _ _ => True := .modify fun _ => id
  exact .bind hrecord fun _ => .bind (applyDefault_spec key rule) fun _ => remerge_validate_spec

theorem leaves_append (first second : List (String × Tree α)) :
    leaves path (first ++ second) old = leaves path second (leaves path first old) :=
  List.foldl_append

-- The leaves of the plugin's defaults are written one after another.
theorem setDefaults_spec (pluginName : String) (flat : List (String × Tree α)) :
    Triple (fun m => m.defaultAt path = old)
      (flat.forM fun entry => setDefault (Text.split '.' (pluginKey pluginName entry.1)) entry.2)
      (fun _ m => m.defaultAt path = leaves path (flatDefaults pluginName flat) old) fun _ _ => True := by
  refine .forM (fun (done : List (String × Tree α)) (m : ConfigurationManager α) =>
    m.defaultAt path = leaves path (flatDefaults pluginName done) old) ?_
  intro done entry rest _
  unfold flatDefaults
  rw [List.map_append, leaves_append]
  exact setDefault_spec _ _

-- The invariant of the loop over a plugin's rules: its first turn makes the merged data current.
def Registered (path : Path) (old : Option (Tree α)) (pluginName : String)
    (done : List (String × Rule α)) (m : ConfigurationManager α) : Prop :=
  m.defaultAt path = leaves path (schemaDefaults pluginName done) old ∧ (done ≠ [] → m.Merged)

theorem registerSchemas_spec (pluginName : String) (rules : List (String × Rule α)) :
    Triple (fun m => m.defaultAt path = old)
      (rules.forM fun entry => registerSchema (pluginKey pluginName entry.1) entry.2)
      (fun _ => Registered path old pluginName rules) fun _ _ => True := by
  refine Triple.pre_imp (.forM (Registered path old pluginName) ?_) fun m hm =>
    ⟨hm, fun hne => absurd rfl hne⟩
  intro done entry rest _
  unfold Registered schemaDefaults
  rw [List.flatMap_append, leaves_append, List.flatMap_singleton]
  refine (registerSchema_spec _ _).imp (fun m hm => hm.1) (fun _ m hm => ?_) fun _ _ => id
  exact ⟨hm.1, fun _ => hm.2⟩

theorem registerPluginConfig_spec (pluginName : String) (defaults : Entries α)
    (schema : Dict String (Rule α)) :
    Triple (fun m => m.defaultAt path = old) (registerPluginConfig pluginName defaults schema)
      (fun _ m => Settled path
        (leaves path (Action.registerPluginConfig pluginName defaults schema).registered old) m)
      fun _ _ => True := by
  refine .bind (setDefaults_spec pluginName _) fun _ => .ite (fun hne => ?_) fun he => ?_
  · refine (registerSchemas_spec pluginName _).imp (fun _ => id) (fun _ m hm => ⟨?_, hm.2 hne⟩)
      fun _ _ => id
    rw [hm.1, Action.registered, leaves_append]
  · refine remerge_spec.imp (fun m hm => ?_) (fun _ _ => id) fun _ _ => id
    rw [hm, Action.registered, leaves_append, not_not.mp he]
    rfl

theorem set_spec (key : String) (value : Tree α) :
    Triple (fun m => m.defaultAt path = old) (set key value) (fun _ m => Settled path old m)
      fun _ _ => True := by
  refine .get_bind fun seen => lift_bind fun overrides _ => ?_
  have hassign : Triple (fun m => m = seen ∧ m.defaultAt path = old)
      (modify fun m => { m with overrides := overrides } : Operation α Unit)
      (fun _ m => m.defaultAt path = old) fun _ _ => True := .modify fun _ hs => hs.2
  exact .bind hassign fun _ => remerge_validate_spec

theorem reload_spec (sources : Sources α) :
    Triple (fun _ => True) (reload host sources)
      (fun _ m => Settled path ((Tree.dict (loadYaml sources.defaultYaml)).at? path) m)
      fun _ _ => True := by
  have hread : Triple (fun _ => True) (modify fun m => { m with
      defaults := loadYaml sources.defaultYaml
      fileData := if sources.samePath then [] else loadYaml sources.configYaml } : Operation α Unit)
      (fun _ m => m.defaultAt path = (Tree.dict (loadYaml sources.defaultYaml)).at? path)
      fun _ _ => True := .modify fun _ _ => rfl
  refine .bind hread fun _ => .get_bind fun seen => lift_bind fun envData _ => ?_
  have hassign : Triple (fun m => m = seen ∧
      m.defaultAt path = (Tree.dict (loadYaml sources.defaultYaml)).at? path)
      (modify fun m => { m with envData := envData } : Operation α Unit)
      (fun _ m => m.defaultAt path = (Tree.dict (loadYaml sources.defaultYaml)).at? path)
      fun _ _ => True := .modify fun _ hs => hs.2
  exact .bind hassign fun _ => remerge_validate_spec

theorem operation_spec (path : Path) (old : Option (Tree α)) (act : Action α) :
    Triple (fun m => m.defaultAt path = old) (act.operation host)
      (fun _ m => Settled path (act.defaultAfter path old) m) fun _ _ => True := by
  cases act with
  | registerSchema key rule => exact registerSchema_spec key rule
  | registerPluginConfig pluginName defaults schema =>
      exact registerPluginConfig_spec pluginName defaults schema
  | set key value => exact set_spec key value
  | reload sources => exact (reload_spec sources).pre_imp fun _ _ => trivial
  | load sources => exact (reload_spec sources).pre_imp fun _ _ => trivial
  | initializeService sources => exact (reload_spec sources).pre_imp fun _ _ => trivial

end Operation

section Runs

open ConfigurationManager

variable {m m' : ConfigurationManager α} {act : Action α} {acts : List (Action α)}
  {key : String} {value : Tree α}

-- A call that does not raise ends as the triples of its operation say.
theorem step_triple {pre post : ConfigurationManager α → Prop}
    {raised : ConfigError α → ConfigurationManager α → Prop}
    (h : Triple pre (act.operation host) (fun _ => post) raised) (hs : step host m act = some m')
    (hm : pre m) : post m' := by
  have hr := h m hm
  revert hr
  unfold step at hs
  cases hrun : act.operation host m with
  | ok _ t =>
      rw [hrun] at hs
      exact fun ht => Option.some.inj hs ▸ ht
  | error _ _ =>
      rw [hrun] at hs
      cases hs

-- One call: what it leaves in the defaults depends only on what was there.
theorem step_settled (hs : step host m act = some m') (path : Path) :
    Operation.Settled path (act.defaultAfter path (m.defaultAt path)) m' :=
  step_triple (Operation.operation_spec path (m.defaultAt path) act) hs rfl

theorem always_merged (hm : m.Merged) : Always (step host) Merged m acts := by
  refine always_iff.mpr fun first second t _ hr => ?_
  exact hr.invariant Merged (fun s a u _ _ hs => (step_settled hs []).2)
    (Meets.of_forall fun _ _ _ => trivial) hm

-- The calls that leave the default of a key in place.
def KeepsDefault (key : String) (value : Tree α) (act : Action α) : Prop :=
  act.defaultAfter (Text.split '.' key) (some value) = some value

-- The exact fate of a default that stands in the defaults: nothing may shadow it, and every call
-- has to keep it.
theorem always_get_iff (hv : value ≠ .null) (hm : m.Merged)
    (hu : Always (step host) (Undefined key) m acts)
    (hd : m.defaultAt (Text.split '.' key) = some value) :
    Always (step host) (fun t => t.get key .null = value) m acts ↔
      Always (step host) (Unshadowed key) m acts ∧
        Meets (step host) (fun _ act => KeepsDefault key value act) m acts := by
  have hmerged : Always (step host) Merged m acts := always_merged hm
  have hboth := always_and.mpr ⟨hmerged, hu⟩
  rw [hboth.congr fun t ht => get_eq_default_iff hv ht.1 ht.2, always_and, and_comm]
  refine and_congr_right fun _ => ?_
  have hexact : ∀ s a t, True → s.defaultAt (Text.split '.' key) = some value →
      step host s a = some t →
      (t.defaultAt (Text.split '.' key) = some value ↔ KeepsDefault key value a) := by
    intro s a t _ hi hs
    rw [(step_settled hs _).1, hi]
    rfl
  exact always_iff_meets (fun _ _ _ _ _ => trivial) hexact trivial hd

theorem leaves_registered {default : Tree α} {before after : List (String × Tree α)}
    {old : Option (Tree α)} : leaves (Text.split '.' key) (before ++ (key, default) :: after) old =
      leaves (Text.split '.' key) after (some default) := by
  rw [Operation.leaves_append]
  exact congrArg (leaves _ after) (by simp [Tree.track])

theorem defaultAfter_of_registered {path : Path} {old : Option (Tree α)} (hne : act.registered ≠ []) :
    act.defaultAfter path old = leaves path act.registered old := by
  cases act with
  | registerSchema _ _ => rfl
  | registerPluginConfig _ _ _ => rfl
  | set _ _ => rfl
  | reload _ => exact absurd rfl hne
  | load _ => exact absurd rfl hne
  | initializeService _ => exact absurd rfl hne

-- A registered default that no layer above the defaults defines is what a client reads from then
-- on exactly as long as the rest of the registration and the later calls leave it alone: no other
-- default may be written over it, nothing may shadow it, and whatever is read at a reload has to
-- bring it along.
theorem registered_default_survives_iff {default : Tree α} {before after : List (String × Tree α)}
    (hs : step host m act = some m') (hr : act.registered = before ++ (key, default) :: after)
    (hd : default ≠ .null) (hu : Always (step host) (Undefined key) m' acts) :
    Always (step host) (fun t => t.get key .null = default) m' acts ↔
      leaves (Text.split '.' key) after (some default) = some default ∧
        Always (step host) (Unshadowed key) m' acts ∧
          Meets (step host) (fun _ act => KeepsDefault key default act) m' acts := by
  obtain ⟨hleft, hm⟩ := step_settled hs (Text.split '.' key)
  rw [defaultAfter_of_registered (by simp [hr]), hr, leaves_registered] at hleft
  by_cases hkept : leaves (Text.split '.' key) after (some default) = some default
  · rw [hkept] at hleft
    rw [always_get_iff hd hm hu hleft, and_iff_right hkept]
  · refine iff_of_false (fun ha => hkept ?_) fun h => hkept h.1
    have hget := always_iff.mp ha [] acts m' rfl (.nil m')
    have hundefined := always_iff.mp hu [] acts m' rfl (.nil m')
    rw [← hleft]
    exact ((get_eq_default_iff hd hm hundefined).mp hget).1

theorem undefined_of_empty (h : m.layers.all List.isEmpty = true) : m.Undefined key := by
  intro layer hl hd
  rw [List.isEmpty_iff.mp (List.all_eq_true.mp h layer hl)] at hd
  cases hp : Text.split '.' key with
  | nil => exact split_ne_nil key hp
  | cons first path =>
      rw [hp] at hd
      obtain ⟨tree, hmem, -⟩ := hd
      cases hmem

theorem unshadowed_of_empty (h : m.layers.all List.isEmpty = true) : m.Unshadowed key := by
  intro layer hl hshadow
  rw [List.isEmpty_iff.mp (List.all_eq_true.mp h layer hl)] at hshadow
  cases hp : Text.split '.' key with
  | nil => exact split_ne_nil key hp
  | cons first path =>
      rw [hp] at hshadow
      obtain ⟨-, tree, hmem, -⟩ := hshadow
      cases hmem

end Runs

section Sample

open ConfigurationManager

inductive Scalar
  | int (value : Int)
  | text (value : String)
  | list (items : List String)
  deriving DecidableEq

def sampleHost : Host Scalar where
  lower := id
  parse value := .leaf (.text value)
  enumerate := id

-- The package's own default.yaml is both the default and the active file; no variable is set.
def packaged : Sources Scalar where
  defaultYaml := some (.dict
    [("app", .dict [("name", .leaf (.text "Yasin Core")), ("version", .leaf (.text "0.1.0"))]),
     ("runtime", .dict [("mode", .leaf (.text "development"))]),
     ("plugins", .dict [("enabled", .leaf (.list []))]),
     ("providers", .dict [("default", .leaf (.text "local"))])])
  configYaml := none
  samePath := true
  environ := []

def portRule (default : Int) : Rule Scalar where
  typeName := "int"
  isInstance
    | .leaf (.int _) => true
    | _ => false
  required := false
  default := .leaf (.int default)
  validator := none
  sensitive := false

def managerAfter (acts : List (Action Scalar)) : ConfigurationManager Scalar :=
  (acts.foldlM (step sampleHost) blank).getD blank

-- A history of calls none of which raises.
def Succeeds (acts : List (Action Scalar)) : Prop := (acts.foldlM (step sampleHost) blank).isSome = true

theorem managerAfter_eq (h : Succeeds acts) :
    acts.foldlM (step sampleHost) blank = some (managerAfter acts) := by
  obtain ⟨m, hm⟩ := Option.isSome_iff_exists.mp h
  rw [managerAfter, hm, Option.getD_some]

theorem managerAfter_step (h : Succeeds (acts ++ [act])) :
    step sampleHost (managerAfter acts) act = some (managerAfter (acts ++ [act])) := by
  have hrun := managerAfter_eq h
  rw [List.foldlM_append] at hrun
  obtain ⟨m, hfirst, hlast⟩ := Option.bind_eq_some_iff.mp hrun
  have hm : managerAfter acts = m := by rw [managerAfter, hfirst, Option.getD_some]
  simpa [hm] using hlast

def portRegistered : List (Action Scalar) :=
  [.reload packaged, .registerSchema "app.port" (portRule 8080)]

-- A second registration leaves the first default alone.
theorem default_survives_registration :
    Always (step sampleHost) (fun t => t.get "app.port" .null = .leaf (.int 8080))
      (managerAfter portRegistered) [.registerSchema "app.admin_port" (portRule 8081)] := by
  have hregister : Succeeds ([.reload packaged] ++ [.registerSchema "app.port" (portRule 8080)]) := by
    unfold Succeeds
    decide +kernel
  have hs : step sampleHost (managerAfter [.reload packaged])
      (.registerSchema "app.port" (portRule 8080)) = some (managerAfter portRegistered) :=
    managerAfter_step hregister
  have hr : (Action.registerSchema "app.port" (portRule 8080)).registered =
      [] ++ ("app.port", .leaf (.int 8080)) :: [] := rfl
  have hnext : step sampleHost (managerAfter portRegistered)
      (.registerSchema "app.admin_port" (portRule 8081)) = some (managerAfter
        (portRegistered ++ [.registerSchema "app.admin_port" (portRule 8081)])) :=
    managerAfter_step (by unfold Succeeds; decide +kernel)
  have hempty : (managerAfter portRegistered).layers.all List.isEmpty = true := by decide +kernel
  have hempty' : (managerAfter (portRegistered ++ [.registerSchema "app.admin_port"
      (portRule 8081)])).layers.all List.isEmpty = true := by decide +kernel
  refine (registered_default_survives_iff hs hr nofun ?_).mpr ⟨rfl, ?_, ?_⟩
  · refine ⟨undefined_of_empty hempty, fun t ht => ?_⟩
    exact Option.some.inj (hnext.symm.trans ht) ▸ undefined_of_empty hempty'
  · refine ⟨unshadowed_of_empty hempty, fun t ht => ?_⟩
    exact Option.some.inj (hnext.symm.trans ht) ▸ unshadowed_of_empty hempty'
  · refine fun t _ => ⟨?_, trivial⟩
    have hport : Text.split '.' "app.port" = ["app", "port"] := by decide +kernel
    have hadmin : Text.split '.' "app.admin_port" = ["app", "admin_port"] := by decide +kernel
    change leaves (Text.split '.' "app.port") [("app.admin_port", .leaf (Scalar.int 8081))] _ = _
    simp [leaves, Tree.track, hport, hadmin, List.cons_prefix_cons]

-- A reload drops what was registered: the layer that holds it is read anew from the file.
theorem default_lost_on_reload : ∃ m t : ConfigurationManager Scalar,
    Run (step sampleHost) blank portRegistered m ∧
      step sampleHost m (.reload packaged) = some t ∧
      m.Undefined "app.port" ∧ m.get "app.port" .null = .leaf (.int 8080) ∧
      t.Undefined "app.port" ∧ t.get "app.port" .null = .null := by
  have hsucceeds : Succeeds portRegistered := by
    unfold Succeeds
    decide +kernel
  have hreload : Succeeds (portRegistered ++ [.reload packaged]) := by
    unfold Succeeds
    decide +kernel
  refine ⟨managerAfter portRegistered, _, Run.of_foldlM (managerAfter_eq hsucceeds),
    managerAfter_step hreload, undefined_of_empty ?_, ?_, undefined_of_empty ?_, ?_⟩
  · decide +kernel
  · decide +kernel
  · decide +kernel
  · decide +kernel

end Sample

end YasinCore.Config
