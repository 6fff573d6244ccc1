import YasinCore.Config.Environment

namespace YasinCore.Config

open YasinCore.Library

variable {α : Type} {host : Host α}

-- What a rule asks of the value of its key.
structure Rule.Accepts (rule : Rule α) (val : Tree α) : Prop where
  present : rule.required → val ≠ .null
  typed : val ≠ .null → rule.isInstance val
  valid : val ≠ .null → ∀ validator, rule.validator = some validator → validator val

namespace ConfigurationManager

-- Every registered rule holds on the merged data.
def Satisfied (m : ConfigurationManager α) : Prop :=
  ∀ key rule, m.schemas.get? key = some rule → rule.Accepts (m.get key .null)

-- What the layers above make of a path at which the defaults have this.
def layered (m : ConfigurationManager α) (path : Path) (default : Option (Tree α)) : Option (Tree α) :=
  m.layers.foldl (fun below layer => Tree.overlay path (.dict layer) below) default

-- Every rule holds on what the layers make of the defaults, the given ones written over them.
def AcceptsDefaults (m : ConfigurationManager α) (written : List (String × Tree α)) : Prop :=
  ∀ key rule, m.schemas.get? key = some rule → rule.Accepts
    ((m.layered (Text.split '.' key)
      (leaves (Text.split '.' key) written (m.defaultAt (Text.split '.' key)))).getD .null)

def Proper (m : ConfigurationManager α) : Prop := ∀ layer ∈ m.layers, (Tree.dict layer).Proper

theorem proper_iff {m : ConfigurationManager α} : m.Proper ↔ (Tree.dict m.fileData).Proper ∧
    (Tree.dict m.envData).Proper ∧ (Tree.dict m.overrides).Proper := by
  simp [Proper, layers]

-- What is merged at a path, layer by layer.
theorem at?_mergeConfigs {m : ConfigurationManager α} (h : m.Proper) (path : Path) :
    (Tree.dict m.mergeConfigs).at? path = m.layered path (m.defaultAt path) := by
  obtain ⟨hfile, henv, hoverrides⟩ := proper_iff.mp h
  have hlayer {upper : Entries α} (hu : (Tree.dict upper).Proper) (lower : Entries α) :
      (Tree.dict (Tree.mergeEntries upper lower)).at? path =
        Tree.overlay path (.dict upper) ((Tree.dict lower).at? path) :=
    Tree.at?_mergeInto_eq hu path (some (.dict lower))
  unfold mergeConfigs
  rw [hlayer hoverrides, hlayer henv, hlayer hfile]
  rfl

end ConfigurationManager

-- The dictionaries that a call brings have one entry for each key.
def Action.Proper : Action α → Prop
  | .set _ value => value.Proper
  | .reload sources | .load sources | .initializeService sources =>
      ∀ tree, sources.configYaml = some tree → tree.Proper
  | _ => True

-- One call of a session, which goes on when a call raises.
def attempt (host : Host α) (m : ConfigurationManager α) (act : Action α) :
    Option (ConfigurationManager α) :=
  some (finalState (act.operation host) m)

-- A call that returns leaves the rules satisfied.
def Ensures (host : Host α) (m : ConfigurationManager α) (act : Action α) : Prop :=
  ∀ m', step host m act = some m' → m'.Satisfied

-- The defaults that a plugin registers without rules of its own are acceptable.
def Checked (host : Host α) (m : ConfigurationManager α) : Action α → Prop
  | .registerPluginConfig pluginName defaults schema =>
      schema.entries = [] → (step host m (.registerPluginConfig pluginName defaults schema)).isSome →
        m.AcceptsDefaults (flatDefaults pluginName (Tree.flattenEntries "" defaults []))
  | _ => True

section Rules

open ConfigurationManager

variable {key : String} {rule : Rule α} {val : Tree α}

theorem Rule.accepts_iff (hv : val ≠ .null) : rule.Accepts val ↔
    rule.isInstance val = true ∧ ∀ validator, rule.validator = some validator → validator val :=
  ⟨fun h => ⟨h.typed hv, h.valid hv⟩, fun h => ⟨fun _ => hv, fun _ => h.1, fun _ => h.2⟩⟩

theorem validateRule_of_ne_null (hv : val ≠ .null) : validateRule key rule val =
    if !rule.isInstance val then .error (.wrongType key rule.typeName val)
    else
      match rule.validator with
      | some validator => if validator val then .ok () else .error (.rejected key val)
      | none => .ok () := by
  cases val with
  | null => exact absurd rfl hv
  | leaf _ => rfl
  | dict _ => rfl

-- The check of a rule passes where the rule holds.
theorem validateRule_ok_iff : validateRule key rule val = .ok () ↔ rule.Accepts val := by
  by_cases hv : val = .null
  · rw [hv, validateRule]
    by_cases hr : rule.required
    · rw [if_pos hr]
      exact iff_of_false nofun fun h => h.present hr rfl
    · rw [if_neg hr]
      exact iff_of_true rfl ⟨fun h => absurd h hr, fun h => absurd rfl h, fun h => absurd rfl h⟩
  · rw [validateRule_of_ne_null hv, Rule.accepts_iff hv]
    by_cases ht : rule.isInstance val
    · cases hvalidator : rule.validator with
      | none => simp [ht]
      | some validator => cases hok : validator val <;> simp [ht, hok]
    · simp [ht]

end Rules

namespace Operation

open ConfigurationManager

-- A validation that returns has seen every rule hold.
theorem validate_satisfied : Triple (fun _ => True) (validate (α := α)) (fun _ => Satisfied)
    fun _ _ => True := by
  refine Triple.get_bind fun seen => ?_
  refine Triple.imp (.forM (fun done m => m = seen ∧
    ∀ entry ∈ done, entry.2.Accepts (seen.get entry.1 .null)) fun done entry rest _ => ?_)
    (fun m hm => ⟨hm.1, by simp⟩) (fun _ m hm key rule hr => ?_) fun _ _ => id
  · cases hrule : validateRule entry.1 entry.2 (seen.get entry.1 .null) with
    | ok _ =>
        refine .pure fun m hm => ⟨hm.1, fun other ho => ?_⟩
        rcases List.mem_append.mp ho with ho | ho
        · exact hm.2 other ho
        · rw [List.mem_singleton.mp ho]
          exact validateRule_ok_iff.mp hrule
    | error e => exact .throw fun _ _ => trivial
  · obtain ⟨rfl, hall⟩ := hm
    exact hall (key, rule) ((Dict.mem_entries_iff ..).mpr hr)

theorem remerge_validate_satisfied : Triple (fun _ => True) (do remerge; validate (α := α))
    (fun _ => Satisfied) fun _ _ => True :=
  .bind .trivial fun _ => validate_satisfied

theorem registerSchema_satisfied (key : String) (rule : Rule α) :
    Triple (fun _ => True) (registerSchema key rule) (fun _ => Satisfied) fun _ _ => True :=
  .bind .trivial fun _ => .bind .trivial fun _ => remerge_validate_satisfied

theorem set_satisfied (key : String) (value : Tree α) :
    Triple (fun _ => True) (set key value) (fun _ => Satisfied) fun _ _ => True :=
  .bind .trivial fun _ => .bind .trivial fun _ => .bind .trivial fun _ => remerge_validate_satisfied

theorem reload_satisfied (sources : Sources α) :
    Triple (fun _ => True) (reload host sources) (fun _ => Satisfied) fun _ _ => True :=
  .bind .trivial fun _ => .bind .trivial fun _ => .bind .trivial fun _ => .bind .trivial fun _ =>
    remerge_validate_satisfied

-- With rules of its own, a plugin is registered by calls that validate.
theorem registerPluginConfig_satisfied (pluginName : String) (defaults : Entries α)
    {schema : Dict String (Rule α)} (hne : schema.entries ≠ []) :
    Triple (fun _ => True) (registerPluginConfig pluginName defaults schema) (fun _ => Satisfied)
      fun _ _ => True := by
  refine .bind .trivial fun _ => .ite (fun _ => ?_) fun he => absurd hne he
  refine Triple.imp (.forM (fun done m => done ≠ [] → m.Satisfied) fun done entry rest _ => ?_)
    (fun m _ hd => absurd rfl hd) (fun _ m hm => hm hne) fun _ _ => id
  exact (registerSchema_satisfied _ _).imp (fun _ _ => trivial) (fun _ _ hm _ => hm) fun _ _ => id

-- Registering touches neither the layers above the defaults nor, by itself, the rules.
theorem setDefault_keeps (inv : List (Entries α) → Dict String (Rule α) → Prop) (parts : Path)
    (val : Tree α) : Maintains (fun m => inv m.layers m.schemas) (setDefault parts val) := by
  refine .bind .get fun seen => .bind lift_maintains fun defaults => .modify fun m hm => ?_
  exact hm

theorem registerSchema_keeps (inv : List (Entries α) → Prop) (key : String) (rule : Rule α) :
    Maintains (fun m => inv m.layers) (registerSchema key rule) := by
  refine .bind (.modify fun m hm => hm) fun _ => .bind ?_ fun _ =>
    .bind (.modify fun m hm => hm) fun _ => validate_maintains
  unfold applyDefault
  cases rule.default with
  | null => exact .pure
  | leaf _ => exact setDefault_keeps (fun layers _ => inv layers) _ _
  | dict _ => exact setDefault_keeps (fun layers _ => inv layers) _ _

theorem registerPluginConfig_keeps (inv : List (Entries α) → Prop) (pluginName : String)
    (defaults : Entries α) (schema : Dict String (Rule α)) :
    Maintains (fun m => inv m.layers) (registerPluginConfig pluginName defaults schema) := by
  refine .bind (.forM fun entry _ => setDefault_keeps (fun layers _ => inv layers) _ _) fun _ => ?_
  refine .ite (fun _ => .forM fun entry _ => registerSchema_keeps inv _ _) fun _ => ?_
  exact .modify fun m hm => hm

theorem registerDefaults_keeps (inv : List (Entries α) → Dict String (Rule α) → Prop)
    (pluginName : String) (defaults : Entries α) {schema : Dict String (Rule α)}
    (he : schema.entries = []) :
    Maintains (fun m => inv m.layers m.schemas) (registerPluginConfig pluginName defaults schema) := by
  refine .bind (.forM fun entry _ => setDefault_keeps inv _ _) fun _ => ?_
  exact .ite (fun hne => absurd he hne) fun _ => .modify fun m hm => hm

-- A call that may raise and goes on with what it got.
theorem lift_bind_keeps {β γ : Type} {pre inv : ConfigurationManager α → Prop}
    {result : Except (ConfigError α) β} {next : β → Operation α γ} (hpre : ∀ m, pre m → inv m)
    (h : ∀ value, result = .ok value → Triple pre (next value) (fun _ => inv) fun _ => inv) :
    Triple pre (lift result >>= next) (fun _ => inv) fun _ => inv := by
  cases result with
  | ok value => exact h value rfl
  | error e => exact hpre

theorem remerge_validate_proper :
    Maintains ConfigurationManager.Proper (do remerge; validate (α := α)) :=
  .bind (.modify fun _ hm => hm) fun _ => validate_maintains

theorem set_proper (key : String) {value : Tree α} (hv : value.Proper) :
    Maintains ConfigurationManager.Proper (set key value) := by
  refine Triple.get_bind fun seen => lift_bind_keeps (fun m hm => hm.2) fun overrides ho => ?_
  refine Triple.bind (.modify fun m hm => ?_) fun _ => remerge_validate_proper
  obtain ⟨rfl, hproper⟩ := hm
  obtain ⟨hfile, henv, hold⟩ := proper_iff.mp hproper
  have hnew : (Tree.dict overrides).Proper :=
    Tree.proper_put hv (fun sub hs => Option.some.inj hs ▸ hold) (setDeep_ok_iff.mp ho)
  exact proper_iff.mpr ⟨hfile, henv, hnew⟩

theorem reload_proper (hparse : ∀ text, (host.parse text).Proper) {sources : Sources α}
    (hs : ∀ tree, sources.configYaml = some tree → tree.Proper) :
    Maintains ConfigurationManager.Proper (reload host sources) := by
  have hload : (Tree.dict (loadYaml sources.configYaml)).Proper := by
    unfold loadYaml
    split
    · exact hs _ ‹_›
    · exact ⟨List.nodup_nil, trivial⟩
  refine .bind (.modify fun m hm => ?_) fun _ => ?_
  · obtain ⟨-, henv, hoverrides⟩ := proper_iff.mp hm
    refine proper_iff.mpr ⟨?_, henv, hoverrides⟩
    split
    · exact ⟨List.nodup_nil, trivial⟩
    · exact hload
  refine Triple.get_bind fun seen => lift_bind_keeps (fun m hm => hm.2) fun envData he => ?_
  refine Triple.bind (.modify fun m hm => ?_) fun _ => remerge_validate_proper
  obtain ⟨-, hproper⟩ := hm
  obtain ⟨hfile, -, hoverrides⟩ := proper_iff.mp hproper
  refine proper_iff.mpr ⟨hfile, ?_, hoverrides⟩
  have hempty : (Tree.dict ([] : Entries α)).Proper := ⟨List.nodup_nil, trivial⟩
  refine Tree.proper_putAll (fun written hw => ?_) hempty (loadEnvOverrides_ok_iff.mp he)
  obtain ⟨entry, -, hentry⟩ := List.mem_filterMap.mp hw
  unfold setting at hentry
  split at hentry
  · exact Option.some.inj hentry ▸ hparse entry.2
  · cases hentry

-- No call brings a key twice into a layer, whether it returns or raises.
theorem operation_proper (hparse : ∀ text, (host.parse text).Proper) {act : Action α}
    (ha : act.Proper) : Maintains ConfigurationManager.Proper (act.operation host) := by
  cases act with
  | registerSchema key rule => exact registerSchema_keeps (∀ layer ∈ ·, (Tree.dict layer).Proper) _ _
  | registerPluginConfig pluginName defaults schema =>
      exact registerPluginConfig_keeps (∀ layer ∈ ·, (Tree.dict layer).Proper) _ _ _
  | set key value => exact set_proper key ha
  | reload sources => exact reload_proper hparse ha
  | load sources => exact reload_proper hparse ha
  | initializeService sources => exact reload_proper hparse ha

end Operation

section Sessions

open ConfigurationManager

variable {m m' : ConfigurationManager α} {act : Action α}

-- A plugin's defaults, registered without rules: the rules hold afterwards exactly when they accept
-- what the layers make of the new defaults.
theorem satisfied_iff_of_registerDefaults {pluginName : String} {defaults : Entries α}
    {schema : Dict String (Rule α)} (he : schema.entries = []) (hproper : m.Proper)
    (hs : step host m (.registerPluginConfig pluginName defaults schema) = some m') :
    m'.Satisfied ↔ m.AcceptsDefaults (flatDefaults pluginName (Tree.flattenEntries "" defaults [])) := by
  have hkeeps : Maintains (fun t => t.layers = m.layers ∧ t.schemas = m.schemas)
      ((Action.registerPluginConfig pluginName defaults schema).operation host) :=
    Operation.registerDefaults_keeps (fun layers schemas => layers = m.layers ∧ schemas = m.schemas)
      pluginName defaults he
  obtain ⟨hlayers, hschemas⟩ := step_triple hkeeps hs ⟨rfl, rfl⟩
  have hproper' : m'.Proper := by
    unfold ConfigurationManager.Proper
    rw [hlayers]
    exact hproper
  have hvalue (key : String) : m'.get key .null = (m.layered (Text.split '.' key)
      (leaves (Text.split '.' key) (flatDefaults pluginName (Tree.flattenEntries "" defaults []))
        (m.defaultAt (Text.split '.' key)))).getD .null := by
    obtain ⟨hdefault, hmerged⟩ := step_settled hs (Text.split '.' key)
    have hwritten : (Action.registerPluginConfig pluginName defaults schema).registered =
        flatDefaults pluginName (Tree.flattenEntries "" defaults []) := by
      rw [Action.registered, he]
      exact List.append_nil _
    rw [get_null, hmerged, at?_mergeConfigs hproper', hdefault, layered, hlayers, ← hwritten]
    rfl
  unfold Satisfied AcceptsDefaults
  rw [hschemas]
  simp only [hvalue]

-- One call: it leaves the rules satisfied unless it registers defaults unchecked.
theorem ensures_iff_checked (hproper : m.Proper) : Ensures host m act ↔ Checked host m act := by
  have hvalidated (h : Triple (fun _ => True) (act.operation host) (fun _ => Satisfied)
      fun _ _ => True) : Ensures host m act := fun m' hs => step_triple h hs trivial
  cases act with
  | registerSchema key rule =>
      exact iff_of_true (hvalidated (Operation.registerSchema_satisfied key rule)) trivial
  | registerPluginConfig pluginName defaults schema =>
      by_cases he : schema.entries = []
      · unfold Ensures Checked
        constructor
        · intro h _ hsome
          obtain ⟨m', hs⟩ := Option.isSome_iff_exists.mp hsome
          exact (satisfied_iff_of_registerDefaults he hproper hs).mp (h m' hs)
        · intro h m' hs
          exact (satisfied_iff_of_registerDefaults he hproper hs).mpr (h he (by rw [hs]; rfl))
      · refine iff_of_true (hvalidated ?_) fun he' => absurd he' he
        exact Operation.registerPluginConfig_satisfied pluginName defaults he
  | set key value => exact iff_of_true (hvalidated (Operation.set_satisfied key value)) trivial
  | reload sources => exact iff_of_true (hvalidated (Operation.reload_satisfied sources)) trivial
  | load sources => exact iff_of_true (hvalidated (Operation.reload_satisfied sources)) trivial
  | initializeService sources =>
      exact iff_of_true (hvalidated (Operation.reload_satisfied sources)) trivial

-- In every session, from any manager: each call that returns leaves all rules satisfied exactly when
-- the defaults that plugins register without rules are acceptable where they are registered.
theorem session_satisfied_iff (hparse : ∀ text, (host.parse text).Proper) (hm : m.Proper)
    {acts : List (Action α)} (hacts : ∀ act ∈ acts, act.Proper) :
    Meets (attempt host) (Ensures host) m acts ↔ Meets (attempt host) (Checked host) m acts := by
  refine Meets.congr (fun s act t hs ha ht => ?_) (fun s act (hs : s.Proper) => ensures_iff_checked hs)
    hm hacts
  exact Option.some.inj ht ▸ (Operation.operation_proper hparse ha).finalState hs

-- A rule stays registered even if the call raises.
theorem schemas_registerSchema (key : String) (rule : Rule α) :
    (finalState (Operation.registerSchema key rule) m).schemas = m.schemas.set key rule := by
  have happly : Maintains (fun t => t.schemas = m.schemas.set key rule)
      (Operation.applyDefault key rule.default) := by
    unfold Operation.applyDefault
    cases rule.default with
    | null => exact .pure
    | leaf _ => exact Operation.setDefault_keeps (fun _ schemas => schemas = _) _ _
    | dict _ => exact Operation.setDefault_keeps (fun _ schemas => schemas = _) _ _
  have hrest : Maintains (fun t => t.schemas = m.schemas.set key rule) (do
      Operation.applyDefault key rule.default
      Operation.remerge
      Operation.validate) :=
    .bind happly fun _ => .bind (.modify fun _ hs => hs) fun _ => Operation.validate_maintains
  exact hrest.finalState rfl

-- What the constructor makes of a default.yaml with one entry.
def constructed : ConfigurationManager Scalar :=
  { blank with
    defaults := [("runtime", .dict [("mode", .leaf (.text "development"))])]
    mergedData := [("runtime", .dict [("mode", .leaf (.text "development"))])] }

-- A rule on a plugin's key, and then a default for it.
def portThenDefault (value : Scalar) : List (Action Scalar) :=
  [.registerSchema "plugins.mailer.port" (portRule 25),
    .registerPluginConfig "mailer" [("port", .leaf value)] .empty]

def portRegisteredIn : ConfigurationManager Scalar :=
  finalState (Operation.registerSchema "plugins.mailer.port" (portRule 25)) constructed

theorem rule_of_portRegisteredIn {key : String} {rule : Rule Scalar}
    (h : portRegisteredIn.schemas.get? key = some rule) :
    key = "plugins.mailer.port" ∧ rule = portRule 25 := by
  rw [portRegisteredIn, schemas_registerSchema, Dict.get?_set] at h
  split at h
  · exact ⟨‹_›, (Option.some.inj h).symm⟩
  · cases h

theorem constructed_proper : constructed.Proper := by
  simp [ConfigurationManager.Proper, layers, constructed, blank, Tree.Proper, Tree.ProperEntries]

theorem proper_portThenDefault (value : Scalar) : ∀ act ∈ portThenDefault value, act.Proper := by
  simp [portThenDefault, Action.Proper]

theorem attempt_registerPort : attempt sampleHost constructed
    (.registerSchema "plugins.mailer.port" (portRule 25)) = some portRegisteredIn := by
  unfold attempt portRegisteredIn
  rw [Action.operation]

theorem layers_portRegisteredIn : portRegisteredIn.layers = [[], [], []] :=
  (Operation.registerSchema_keeps (· = [[], [], []]) _ _).finalState rfl

-- The new default reaches the merged data, since no layer is above it.
theorem layered_port (value : Scalar) : (portRegisteredIn.layered (Text.split '.' "plugins.mailer.port")
    (leaves (Text.split '.' "plugins.mailer.port") (flatDefaults "mailer"
      (Tree.flattenEntries "" [("port", .leaf value)] []))
        (portRegisteredIn.defaultAt (Text.split '.' "plugins.mailer.port")))).getD .null =
    .leaf value := by
  have hpath : Text.split '.' "plugins.mailer.port" = ["plugins", "mailer", "port"] := by decide +kernel
  have hflat : flatDefaults "mailer" (Tree.flattenEntries "" [("port", .leaf value)] []) =
      [("plugins.mailer.port", .leaf value)] := by
    have hkey : Operation.pluginKey "mailer" ("" ++ "port") = "plugins.mailer.port" := by decide
    change [(Operation.pluginKey "mailer" ("" ++ "port"), _)] = _
    rw [hkey]
  have hover (old : Option (Tree Scalar)) :
      Tree.overlay ["plugins", "mailer", "port"] (.dict []) old = old := rfl
  rw [layered, layers_portRegisteredIn, hflat, leaves, hpath]
  simp only [List.foldl_cons, List.foldl_nil, hover, hpath, Tree.track]
  rw [if_pos (List.prefix_refl _), List.drop_length, Tree.at?_nil, Option.getD_some]

theorem accepts_port (value : Scalar) : portRegisteredIn.AcceptsDefaults (flatDefaults "mailer"
    (Tree.flattenEntries "" [("port", .leaf value)] [])) ↔ (portRule 25).Accepts (.leaf value) := by
  constructor
  · intro h
    have hrule : portRegisteredIn.schemas.get? "plugins.mailer.port" = some (portRule 25) := by
      rw [portRegisteredIn, schemas_registerSchema, Dict.get?_set_self]
    have haccepts := h _ _ hrule
    rwa [layered_port] at haccepts
  · intro h key rule hr
    obtain ⟨rfl, rfl⟩ := rule_of_portRegisteredIn hr
    rwa [layered_port]

theorem port_number_satisfied :
    Meets (attempt sampleHost) (Ensures sampleHost) constructed (portThenDefault (.int 587)) := by
  have hparse (text : String) : (sampleHost.parse text).Proper := trivial
  refine (session_satisfied_iff hparse constructed_proper (proper_portThenDefault _)).mpr ?_
  have hchecked : Checked sampleHost portRegisteredIn (.registerPluginConfig "mailer"
      [("port", .leaf (.int 587))] .empty) := fun _ _ =>
    (accepts_port _).mpr ⟨nofun, fun _ => rfl, fun _ => nofun⟩
  refine .cons attempt_registerPort trivial fun t _ => ⟨hchecked, trivial⟩

-- The text is taken over as if there were no rule.
theorem port_text_breaks_rule :
    ¬Meets (attempt sampleHost) (Ensures sampleHost) constructed (portThenDefault (.text "smtp")) := by
  intro h
  obtain ⟨-, hrest⟩ := h _ attempt_registerPort
  obtain ⟨hensures, -⟩ := hrest _ rfl
  have hproper : portRegisteredIn.Proper :=
    (Operation.registerSchema_keeps (∀ layer ∈ ·, (Tree.dict layer).Proper) _ _).finalState
      constructed_proper
  have hreturns : (step sampleHost portRegisteredIn (.registerPluginConfig "mailer"
      [("port", .leaf (.text "smtp"))] .empty)).isSome := by decide +kernel
  have haccepts := (ensures_iff_checked hproper).mp hensures rfl hreturns
  cases ((accepts_port _).mp haccepts).typed nofun

end Sessions

end YasinCore.Config
