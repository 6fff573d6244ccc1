import YasinCore.Library.DepthFirst
import YasinCore.Plugins.Dependencies

namespace YasinCore.Plugins

open YasinCore.Library Relation

def Ascii (text : String) : Prop := ∀ c ∈ text.toList, c.toNat < 128

instance (text : String) : Decidable (Ascii text) :=
  decidable_of_iff (text.toList.all fun c => c.toNat < 128) (by simp [Ascii])

-- The check that one plugin has to pass: it is registered, and its expression accepts the version.
def checkPlugin (plugins : Dict PluginName YasinPlugin) (name : PluginName) : Except PluginError Unit :=
  match plugins.get? name with
  | none => .error (.missing name)
  | some plugin => do
      let compatible ← checkVersionCompatibility plugin.coreVersionCompat VERSION
      if !compatible then
        throw (.incompatible name plugin.version VERSION plugin.coreVersionCompat)

def dependencyWalk (s : Registry) : Walk PluginName PluginError where
  check := checkPlugin s.plugins
  next := s.dependencies
  circular := .circular
  tooDeep := .recursion

-- What the validation is about: the plugin and all those it needs, directly or not, are registered
-- and accept the version of the core, and none of them needs itself.
structure Registry.Valid (s : Registry) (name : PluginName) : Prop where
  registered : ∀ other, ReflTransGen s.Needs name other → other ∈ s.plugins
  accepts : ∀ other, ReflTransGen s.Needs name other → ∀ plugin ∈ s.plugins.get? other,
    checkVersionCompatibility plugin.coreVersionCompat VERSION = .ok true
  acyclic : ∀ other, ReflTransGen s.Needs name other → ¬TransGen s.Needs other other

-- The exceptions that the validation is there to raise
inductive PluginError.Rejects : PluginError → Prop
  | circular (name : PluginName) : Rejects (.circular name)
  | missing (name : PluginName) : Rejects (.missing name)
  | incompatible (name : PluginName) (version core compat : String) :
      Rejects (.incompatible name version core compat)

section Versions

variable {text core : String}

theorem Ascii.of_subset {other : String} (h : Ascii text) (hsub : other.toList ⊆ text.toList) :
    Ascii other := fun c hc => h c (hsub hc)

theorem Ascii.strip (h : Ascii text) : Ascii (Text.strip text) := h.of_subset (Text.strip_subset text)

theorem Ascii.drop (h : Ascii text) (n : Nat) : Ascii (text.drop n).toString := by
  refine h.of_subset ?_
  change (text.drop n).copy.toList ⊆ text.toList
  rw [String.toList_copy_drop]
  exact List.drop_subset _ _

theorem mapM_parsePart {pieces : List String} (h : ∀ piece ∈ pieces, Ascii piece ∧ Text.allDigits piece) :
    ∃ parts, pieces.mapM parsePart = .ok parts := by
  induction pieces with
  | nil => exact ⟨[], rfl⟩
  | cons piece rest ih =>
      obtain ⟨hascii, hdigits⟩ := h piece List.mem_cons_self
      obtain ⟨parts, hparts⟩ := ih fun other ho => h other (List.mem_cons_of_mem _ ho)
      obtain ⟨hne, hall⟩ := Bool.and_eq_true_iff.mp hdigits
      have hne' : piece.toList ≠ [] := by simpa using hne
      have hdecimal : ∀ c ∈ piece.toList, c.isDigit := fun c hc =>
        Text.isDigit_of_ascii (hascii c hc) (List.all_eq_true.mp hall c hc)
      have hpiece : parsePart piece = .ok (Nat.ofDigitChars 10 piece.toList 0) := by
        rw [parsePart, Text.nat?_of_isDigit hne' hdecimal]
      refine ⟨Nat.ofDigitChars 10 piece.toList 0 :: parts, ?_⟩
      rw [List.mapM_cons, hpiece, hparts]
      rfl

-- The parser raises only on digits that are not decimal, and ASCII has none of them.
theorem parseVersion_of_ascii (h : Ascii text) : ∃ parts, parseVersion text = .ok parts := by
  have hcleaned : Ascii (String.ofList (text.toList.filter fun c => Text.isdigit c || c = '.')) := by
    refine h.of_subset ?_
    rw [String.toList_ofList]
    exact List.filter_subset_self _
  have hpieces : ∀ piece ∈ (Text.split '.' (String.ofList
      (text.toList.filter fun c => Text.isdigit c || c = '.'))).filter Text.allDigits,
        Ascii piece ∧ Text.allDigits piece := by
    intro piece hp
    obtain ⟨hp, hdigits⟩ := List.mem_filter.mp hp
    exact ⟨hcleaned.of_subset (Text.split_subset hp), hdigits⟩
  obtain ⟨parts, hparts⟩ := mapM_parsePart hpieces
  refine ⟨padVersion parts, ?_⟩
  unfold parseVersion
  dsimp only
  rw [hparts]
  rfl

theorem checkVersionCompatibility_of_ascii (h : Ascii text) (hcore : Ascii core) :
    ∃ answer, checkVersionCompatibility text core = .ok answer := by
  obtain ⟨parsed, hparsed⟩ := parseVersion_of_ascii hcore
  unfold checkVersionCompatibility
  split_ifs with hany
  · exact ⟨true, rfl⟩
  obtain ⟨caret, hcaret⟩ := parseVersion_of_ascii (h.strip.drop 1).strip
  dsimp only
  rw [hparsed]
  dsimp only [bind, Except.bind, pure, Except.pure]
  split_ifs with hsymbol
  · rw [hcaret]
    exact ⟨_, rfl⟩
  · cases operators.find? fun op => (Text.strip text).startsWith op with
    | some op =>
        obtain ⟨required, hrequired⟩ := parseVersion_of_ascii (h.strip.drop op.length).strip
        dsimp only
        rw [hrequired]
        dsimp only
        split
        · exact ⟨_, rfl⟩
        · exact ⟨_, rfl⟩
    | none =>
        obtain ⟨required, hrequired⟩ := parseVersion_of_ascii h.strip
        dsimp only
        rw [hrequired]
        exact ⟨_, rfl⟩

end Versions

section Walks

variable {s : Registry} {name : PluginName}

theorem validateDependencies_eq_visit (s : Registry) (depth : Nat) (name : PluginName)
    (visited stack : List PluginName) : validateDependencies s.plugins depth name visited stack =
      (dependencyWalk s).visit depth name visited stack := by
  induction depth generalizing name visited stack with
  | zero => rfl
  | succ depth ih =>
      have hcheck : (dependencyWalk s).check name = checkPlugin s.plugins name := rfl
      have hnext : (dependencyWalk s).next name = s.dependencies name := rfl
      rw [validateDependencies, Walk.visit, hcheck, hnext, checkPlugin, Registry.dependencies]
      refine if_congr Iff.rfl rfl (if_congr Iff.rfl rfl ?_)
      cases s.plugins.get? name with
      | none => rfl
      | some plugin =>
          simp only [ih]
          cases checkVersionCompatibility plugin.coreVersionCompat VERSION with
          | error e => rfl
          | ok compatible =>
              cases compatible with
              | false => rfl
              | true => rfl

theorem run_validate (s : Registry) (depth : Nat) (name : PluginName) :
    Operation.validate depth name s = match validateDependencies s.plugins depth name [] [] with
      | .ok _ => .ok () s
      | .error e => .error e s := by
  rw [Operation.validate, run_get_bind]
  cases validateDependencies s.plugins depth name [] [] with
  | ok visited => rfl
  | error e => rfl

theorem validate_eq_ok_iff {depth : Nat} : Operation.validate depth name s = .ok () s ↔
    (validateDependencies s.plugins depth name [] []).toBool := by
  rw [run_validate]
  cases validateDependencies s.plugins depth name [] [] with
  | ok visited => exact iff_of_true rfl rfl
  | error e => exact iff_of_false (fun h => by cases h) (fun h => by cases h)

theorem checkPlugin_eq_ok_iff : checkPlugin s.plugins name = .ok () ↔
    ∃ plugin, s.plugins.get? name = some plugin ∧
      checkVersionCompatibility plugin.coreVersionCompat VERSION = .ok true := by
  unfold checkPlugin
  cases hplugin : s.plugins.get? name with
  | none => simp
  | some plugin =>
      dsimp only
      cases hcheck : checkVersionCompatibility plugin.coreVersionCompat VERSION with
      | error e => simp [hcheck, bind, Except.bind]
      | ok compatible =>
          cases compatible with
          | false => simp [hcheck, bind, Except.bind, throw, throwThe, MonadExceptOf.throw]
          | true => simp [hcheck, bind, Except.bind, pure, Except.pure]

theorem checked_mem (other : PluginName) (h : (dependencyWalk s).check other = .ok ()) :
    other ∈ s.plugins.keys := by
  obtain ⟨plugin, hplugin, -⟩ := checkPlugin_eq_ok_iff.mp h
  exact (Dict.mem_keys_iff _ _).mpr ⟨plugin, hplugin⟩

theorem checkPlugin_error {e : PluginError}
    (hascii : ∀ plugin ∈ s.plugins.get? name, Ascii plugin.coreVersionCompat)
    (h : checkPlugin s.plugins name = .error e) : e.Rejects := by
  unfold checkPlugin at h
  cases hplugin : s.plugins.get? name with
  | none =>
      rw [hplugin] at h
      obtain rfl := Except.error.inj h
      exact .missing name
  | some plugin =>
      obtain ⟨compatible, hcheck⟩ := checkVersionCompatibility_of_ascii (hascii plugin hplugin)
        (show Ascii VERSION by decide)
      simp only [hplugin, hcheck] at h
      cases compatible with
      | false =>
          obtain rfl := Except.error.inj h
          exact .incompatible ..
      | true => cases h

theorem valid_iff_sound : s.Valid name ↔ (dependencyWalk s).Sound name := by
  constructor
  · intro h
    refine ⟨fun other hr => checkPlugin_eq_ok_iff.mpr ?_, h.acyclic⟩
    obtain ⟨plugin, hplugin⟩ := (Dict.mem_iff _ _).mp (h.registered other hr)
    exact ⟨plugin, hplugin, h.accepts other hr plugin hplugin⟩
  · intro h
    refine ⟨fun other hr => ?_, fun other hr plugin hplugin => ?_, h.acyclic⟩
    · obtain ⟨plugin, hplugin, -⟩ := checkPlugin_eq_ok_iff.mp (h.passes other hr)
      exact (Dict.mem_iff _ _).mpr ⟨plugin, hplugin⟩
    · obtain ⟨found, hfound, haccepts⟩ := checkPlugin_eq_ok_iff.mp (h.passes other hr)
      obtain rfl := Option.some.inj (hfound.symm.trans hplugin)
      exact haccepts

end Walks

-- With a frame of the stack for every plugin the traversal never runs out of them. It leaves the
-- registry as it is, returns when the plugin is valid, and otherwise raises one of its exceptions.
theorem validate_dependencies_exact (s : Registry) (name : PluginName) (depth : Nat)
    (hascii : ∀ plugin ∈ s.plugins.values, Ascii plugin.coreVersionCompat)
    (hdepth : s.plugins.keys.length < depth) :
    (Operation.validate depth name s = .ok () s ↔ s.Valid name) ∧
      (¬s.Valid name → ∃ e : PluginError, e.Rejects ∧ Operation.validate depth name s = .error e s) := by
  rw [valid_iff_sound, run_validate, validateDependencies_eq_visit]
  rcases (dependencyWalk s).visit_exact name checked_mem hdepth with
    ⟨hsound, visited, hvisit⟩ | ⟨hsound, e, hvisit, hfault⟩
  · rw [hvisit]
    exact ⟨iff_of_true rfl hsound, fun hn => absurd hsound hn⟩
  · rw [hvisit]
    refine ⟨iff_of_false (fun h => by cases h) hsound, fun _ => ⟨e, ?_, rfl⟩⟩
    obtain ⟨other, -, hcheck | ⟨rfl, -⟩⟩ := hfault
    · refine checkPlugin_error (fun plugin hplugin => hascii plugin ?_) hcheck
      exact (Dict.mem_values_iff _ _).mpr ⟨other, hplugin⟩
    · exact .circular other

-- A diamond and, behind another name, a plugin that needs itself
def familyPlugins : Registry :=
  perform (fun _ _ _ => none) [.register ⟨"base", "1.0.0", [], "^3.0.0"⟩,
    .register ⟨"left", "1.0.0", ["base", "base"], "*"⟩, .register ⟨"right", "1.0.0", ["base"], ">=3.4.0"⟩,
    .register ⟨"top", "1.0.0", ["left", "right"], "*"⟩, .register ⟨"loop", "1.0.0", ["top", "loop"], "*"⟩]

theorem validate_dependencies_exact_family : familyPlugins.Valid "top" ∧ ¬familyPlugins.Valid "loop" := by
  have hascii : ∀ plugin ∈ familyPlugins.plugins.values, Ascii plugin.coreVersionCompat := by
    decide
  have hlength : familyPlugins.plugins.keys.length < 6 := by decide
  have hexact (name : PluginName) := (validate_dependencies_exact familyPlugins name 6 hascii hlength).1
  have hreturns : (validateDependencies familyPlugins.plugins 6 "top" [] []).toBool = true := by
    decide +kernel
  have hraises : (validateDependencies familyPlugins.plugins 6 "loop" [] []).toBool = false := by
    decide +kernel
  refine ⟨(hexact "top").mp (validate_eq_ok_iff.mpr hreturns), fun hloop => ?_⟩
  have hreturned := validate_eq_ok_iff.mp ((hexact "loop").mpr hloop)
  rw [hraises] at hreturned
  cases hreturned

end YasinCore.Plugins
