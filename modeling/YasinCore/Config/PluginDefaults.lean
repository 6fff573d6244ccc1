import YasinCore.Config.Masking
import YasinCore.Config.Rejection
import YasinCore.Library.Tree.Leaves

namespace YasinCore.Config

open YasinCore.Library

variable {α : Type}

-- No key on the way to anything in the tree has a dot.
def DotFree (tree : Tree α) : Prop :=
  ∀ path sub, tree.at? path = some sub → ∀ key ∈ path, '.' ∉ key.toList

-- The defaults of a plugin: a nested dictionary whose keys have no dots.
structure PluginDefaults (α : Type) where
  entries : Entries α
  proper : (Tree.dict entries).Proper
  dotFree : DotFree (.dict entries)

-- The key under which a plugin finds what is at a path of its defaults.
def namespacedKey (name : String) (path : Path) : String :=
  Operation.pluginKey name (dottedKey "" path)

-- Neither 'plugins' nor the namespace of the plugin nor anything below it.
def Outside (name key : String) : Prop :=
  key ≠ "plugins" ∧ ¬["plugins", name] <+: Text.split '.' key

namespace ConfigurationManager

-- No layer has anything under the name of the plugin or something else than a dictionary for all
-- plugins.
structure Vacant (name : String) (m : ConfigurationManager α) : Prop where
  free : ∀ layer ∈ m.defaults :: m.layers, (Tree.dict layer).at? ["plugins", name] = none
  dicts : ∀ layer ∈ m.defaults :: m.layers, ∀ sub, (Tree.dict layer).at? ["plugins"] = some sub →
    sub.IsDict

-- Outside the namespace, what the manager reads is what its layers merge to.
def CurrentOutside (name : String) (m : ConfigurationManager α) : Prop :=
  ∀ key, Outside name key → m.get key .null = m.remerged.get key .null

end ConfigurationManager

-- After the registration every default can be read under its key, and nothing outside changes.
def RegistersReadably (name : String) (defaults : PluginDefaults α) (m : ConfigurationManager α) :
    Prop :=
  ∃ m', Operation.registerPluginConfig name defaults.entries .empty m = .ok () m' ∧
    (∀ path value, (Tree.dict defaults.entries).at? path = some value → ¬value.IsDict →
      m'.get (namespacedKey name path) .null = value) ∧
    ∀ key, Outside name key → m'.get key .null = m.get key .null

section Keys

variable {name key start : String} {path other : Path}

theorem dottedKey_eq (h : path ≠ []) : dottedKey start path = start ++ ".".intercalate path := by
  induction path generalizing start with
  | nil => exact absurd rfl h
  | cons first path ih =>
      cases path with
      | nil => simp [dottedKey]
      | cons second path =>
          rw [dottedKey_cons (List.cons_ne_nil _ _), ih (List.cons_ne_nil _ _)]
          refine String.toList_injective ?_
          simp [String.toList_intercalate]

theorem split_dottedKey (h : path ≠ []) (hfree : ∀ key ∈ path, '.' ∉ key.toList) :
    Text.split '.' (dottedKey "" path) = path := by
  rw [dottedKey_eq h, String.empty_append]
  exact Text.split_intercalate hfree h

theorem split_namespacedKey (hname : '.' ∉ name.toList) (h : path ≠ [])
    (hfree : ∀ key ∈ path, '.' ∉ key.toList) :
    Text.split '.' (namespacedKey name path) = ["plugins", name] ++ path := by
  have hkey : namespacedKey name path = ".".intercalate ("plugins" :: name :: path) := by
    obtain ⟨first, rest, rfl⟩ := List.exists_cons_of_ne_nil h
    rw [namespacedKey, dottedKey_eq h, Operation.pluginKey]
    refine String.toList_injective ?_
    simp [String.toList_intercalate]
  have hplugins : '.' ∉ "plugins".toList := by decide
  rw [hkey]
  refine Text.split_intercalate ?_ (List.cons_ne_nil _ _)
  simp only [List.forall_mem_cons]
  exact ⟨hplugins, hname, hfree⟩

theorem not_prefix_of_outside (h : Outside name key) : ¬Text.split '.' key <+: ["plugins", name] := by
  have hne := ConfigurationManager.split_ne_nil key
  have hkey : ".".intercalate (Text.split '.' key) = key := Text.intercalate_split '.' key
  intro hpre
  cases hp : Text.split '.' key with
  | nil => exact hne hp
  | cons first rest =>
      rw [hp] at hpre hkey
      obtain ⟨rfl, hrest⟩ := List.cons_prefix_cons.mp hpre
      cases rest with
      | nil => exact h.1 hkey.symm
      | cons second rest =>
          obtain ⟨rfl, hlast⟩ := List.cons_prefix_cons.mp hrest
          obtain rfl := List.prefix_nil.mp hlast
          exact h.2 (by rw [hp])

end Keys

section Flattening

mutual

theorem flattenInto_eq (start key : String) : (tree : Tree α) → (flat : Entries α) →
    Tree.flattenInto (start ++ key) tree flat = (Tree.leafPaths tree).foldl
      (fun flat leaf => Library.Entries.assign (dottedKey start (key :: leaf.1)) leaf.2 flat) flat
  | .null, _ | .leaf _, _ => rfl
  | .dict entries, flat => by
      rw [Tree.flattenInto, Tree.leafPaths, flattenEntries_eq]
      refine List.foldl_ext _ _ _ fun flat leaf hleaf => ?_
      obtain ⟨_, _, _, hpath, -⟩ := Tree.mem_leafEntries.mp hleaf
      rw [dottedKey_cons (by rw [hpath]; exact List.cons_ne_nil _ _)]

-- Flattening assigns the leaves one after another.
theorem flattenEntries_eq (start : String) : (entries flat : Entries α) →
    Tree.flattenEntries start entries flat = (Tree.leafEntries entries).foldl
      (fun flat leaf => Library.Entries.assign (dottedKey start leaf.1) leaf.2 flat) flat
  | [], _ => rfl
  | (key, value) :: rest, flat => by
      rw [Tree.flattenEntries, flattenInto_eq, flattenEntries_eq, Tree.leafEntries, List.foldl_append,
        List.foldl_map]

end

variable {defaults : PluginDefaults α}

theorem PluginDefaults.leaf_path {leaf : Tree.Write α}
    (h : leaf ∈ Tree.leafPaths (.dict defaults.entries)) :
    leaf.1 ≠ [] ∧ ∀ key ∈ leaf.1, '.' ∉ key.toList := by
  obtain ⟨hat, -⟩ := (Tree.mem_leafPaths defaults.proper).mp h
  obtain ⟨_, _, _, hpath, -⟩ := Tree.mem_leafEntries.mp h
  exact ⟨by rw [hpath]; exact List.cons_ne_nil _ _, defaults.dotFree _ _ hat⟩

-- Since no key has a dot, no two leaves get the same dotted key.
theorem PluginDefaults.flattened (defaults : PluginDefaults α) :
    Tree.flattenEntries "" defaults.entries [] =
      (Tree.leafPaths (.dict defaults.entries)).map fun leaf => (dottedKey "" leaf.1, leaf.2) := by
  have hnodup : ((Tree.leafPaths (.dict defaults.entries)).map
      fun leaf => dottedKey "" leaf.1).Nodup := by
    have hpaths := Tree.nodup_leafPaths _ defaults.proper
    refine List.Nodup.map_on (fun first hfirst second hsecond he => ?_) hpaths.of_map
    obtain ⟨hne, hfree⟩ := PluginDefaults.leaf_path hfirst
    obtain ⟨hne', hfree'⟩ := PluginDefaults.leaf_path hsecond
    refine List.inj_on_of_nodup_map hpaths hfirst hsecond ?_
    rw [← split_dottedKey hne hfree, he, split_dottedKey hne' hfree']
  have hmap : Tree.flattenEntries "" defaults.entries [] =
      ((Tree.leafPaths (.dict defaults.entries)).map fun leaf => (dottedKey "" leaf.1, leaf.2)).foldl
        (fun flat entry => Library.Entries.assign entry.1 entry.2 flat) [] := by
    rw [flattenEntries_eq, List.foldl_map]
    rfl
  rw [hmap, Library.Entries.foldl_assign, List.nil_append]
  rw [List.nil_append, List.map_map]
  exact hnodup

end Flattening

section Registration

open ConfigurationManager Operation

variable {m : ConfigurationManager α} {name key : String} {defaults : PluginDefaults α}
  {path : Path}

-- Defaults that can all be written are written before anything else happens.
theorem setDefaults_ok {flat : Entries α} {tree : Tree α}
    (h : Tree.putAll (flat.map fun entry => (Text.split '.' (pluginKey name entry.1), entry.2))
      (.dict m.defaults) = some tree) :
    ∃ entries, tree = .dict entries ∧
      flat.forM (fun entry => setDefault (Text.split '.' (pluginKey name entry.1)) entry.2) m =
        .ok () { m with defaults := entries } := by
  induction flat generalizing m with
  | nil => exact ⟨m.defaults, (Option.some.inj h).symm, rfl⟩
  | cons entry flat ih =>
      obtain ⟨mid, hput, hrest⟩ := Option.bind_eq_some_iff.mp h
      obtain ⟨written, rfl⟩ := Tree.dict_of_put (split_ne_nil _) hput
      obtain ⟨entries, rfl, hrun⟩ := ih (m := { m with defaults := written }) hrest
      refine ⟨entries, rfl, ?_⟩
      have hstep : setDefault (Text.split '.' (pluginKey name entry.1)) entry.2 m =
          .ok () { m with defaults := written } := by
        rw [setDefault_eq, setDeep_ok_iff.mpr hput]
      have hforM (call : String × Tree α → Operation α Unit) :
          (entry :: flat).forM call = (call entry >>= fun _ => flat.forM call) := rfl
      rw [hforM, run_bind_ok hstep]
      exact hrun

-- The registration returns, with the leaves in the defaults layer and everything else there as it was.
theorem registerPluginConfig_ok (defaults : PluginDefaults α) (hname : '.' ∉ name.toList)
    (hvacant : m.Vacant name) :
    ∃ entries, registerPluginConfig name defaults.entries .empty m =
        .ok () { m with defaults := entries }.remerged ∧
      (∀ leaf ∈ Tree.leafPaths (.dict defaults.entries),
        (Tree.dict entries).at? (["plugins", name] ++ leaf.1) = some leaf.2) ∧
      ∀ path, ¬["plugins", name] <+: path → ¬path <+: ["plugins", name] →
        (Tree.dict entries).at? path = (Tree.dict m.defaults).at? path := by
  have hopen : Tree.Open ["plugins", name] (.dict defaults.entries) (.dict m.defaults) := by
    refine Tree.open_of_free (hvacant.free _ List.mem_cons_self) fun above rest sub he hr hs => ?_
    rcases List.append_eq_cons_iff.mp he.symm with ⟨rfl, -⟩ | ⟨more, rfl, hmore⟩
    · rw [Tree.at?_nil] at hs
      exact Option.some.inj hs ▸ trivial
    · rcases List.append_eq_cons_iff.mp hmore.symm with ⟨rfl, -⟩ | ⟨last, rfl, hlast⟩
      · exact hvacant.dicts _ List.mem_cons_self sub hs
      · exact absurd (List.append_eq_nil_iff.mp hlast.symm).2 hr
  obtain ⟨tree, hall, hread, hbeside⟩ := Tree.putAll_leafPaths defaults.proper hopen
  have hwrites : (Tree.flattenEntries "" defaults.entries []).map
      (fun entry => (Text.split '.' (pluginKey name entry.1), entry.2)) =
        (Tree.leafPaths (.dict defaults.entries)).map
          fun leaf => (["plugins", name] ++ leaf.1, leaf.2) := by
    rw [defaults.flattened, List.map_map]
    refine List.map_congr_left fun leaf hleaf => ?_
    obtain ⟨hne, hfree⟩ := PluginDefaults.leaf_path hleaf
    exact Prod.ext (split_namespacedKey hname hne hfree) rfl
  rw [← hwrites] at hall
  obtain ⟨entries, rfl, hrun⟩ := setDefaults_ok hall
  refine ⟨entries, ?_, hread, hbeside⟩
  have hbind : registerPluginConfig name defaults.entries .empty m = EStateM.bind
      ((Tree.flattenEntries "" defaults.entries []).forM fun entry =>
        setDefault (Text.split '.' (pluginKey name entry.1)) entry.2) (fun _ => remerge) m := rfl
  rw [hbind, EStateM.bind, hrun]
  rfl

theorem get_remerged (hproper : m.Proper) (key : String) : m.remerged.get key .null =
    (m.layered (Text.split '.' key) (m.defaultAt (Text.split '.' key))).getD .null := by
  have hmerged : m.remerged.mergedData = m.mergeConfigs := rfl
  rw [get_null, hmerged, at?_mergeConfigs hproper]

-- The layers have nothing to say below the name of the plugin.
theorem layered_vacant (hvacant : m.Vacant name) (old : Option (Tree α)) :
    m.layered (["plugins", name] ++ path) old = old := by
  have hlayer : ∀ layer ∈ m.layers, ∀ old : Option (Tree α),
      Tree.overlay (["plugins", name] ++ path) (.dict layer) old = old := by
    intro layer hl old
    have hfree := hvacant.free layer (List.mem_cons_of_mem _ hl)
    have hdict := hvacant.dicts layer (List.mem_cons_of_mem _ hl)
    rw [Tree.at?_cons] at hfree hdict
    rw [List.cons_append, Tree.overlay]
    cases hp : (Tree.dict layer).child "plugins" with
    | none =>
        rw [Tree.child] at hp
        rw [hp]
    | some sub =>
        rw [hp, Option.bind_some] at hfree hdict
        rw [Tree.child] at hp
        rw [hp]
        have hsub := hdict sub Tree.at?_nil
        cases sub with
        | null => exact hsub.elim
        | leaf _ => exact hsub.elim
        | dict plugins =>
            rw [Tree.at?_cons, Option.bind_eq_none_iff] at hfree
            have hnone : Library.Entries.lookup name plugins = none := by
              rw [Option.eq_none_iff_forall_not_mem]
              intro value hv
              have hroot : value.at? [] = some value := Tree.at?_nil
              cases hroot.symm.trans (hfree value hv)
            dsimp only
            rw [List.cons_append, Tree.overlay, hnone]
  have hfold : ∀ layers : List (Entries α), (∀ layer ∈ layers, layer ∈ m.layers) →
      layers.foldl (fun below layer => Tree.overlay (["plugins", name] ++ path) (.dict layer) below)
        old = old := by
    intro layers hl
    induction layers with
    | nil => rfl
    | cons layer layers ih =>
        rw [List.foldl_cons, hlayer layer (hl layer List.mem_cons_self)]
        exact ih fun other ho => hl other (List.mem_cons_of_mem _ ho)
  exact hfold m.layers fun _ => id

-- Plugin defaults are registered readably exactly where nothing else was waiting for a merge.
theorem registersReadably_iff_current (hname : '.' ∉ name.toList) (hproper : m.Proper)
    (hvacant : m.Vacant name) : RegistersReadably name defaults m ↔ m.CurrentOutside name := by
  obtain ⟨entries, hrun, hread, hbeside⟩ := registerPluginConfig_ok defaults hname hvacant
  have hproper' : ConfigurationManager.Proper { m with defaults := entries } := hproper
  have hinside {path : Path} {value : Tree α}
      (hp : (Tree.dict defaults.entries).at? path = some value) (hn : ¬value.IsDict) :
      ConfigurationManager.get { m with defaults := entries }.remerged (namespacedKey name path) .null =
        value := by
    have hleaf := (Tree.mem_leafPaths defaults.proper).mpr ⟨hp, hn⟩
    obtain ⟨hne, hfree⟩ := PluginDefaults.leaf_path hleaf
    have hdefault : defaultAt (["plugins", name] ++ path) { m with defaults := entries } =
        some value := hread _ hleaf
    have hlayers : layered { m with defaults := entries } (["plugins", name] ++ path) =
        m.layered (["plugins", name] ++ path) := rfl
    rw [get_remerged hproper', split_namespacedKey hname hne hfree, hdefault, hlayers,
      layered_vacant hvacant, Option.getD_some]
  have houtside {key : String} (ho : Outside name key) :
      ConfigurationManager.get { m with defaults := entries }.remerged key .null =
        m.remerged.get key .null := by
    have hdefault : defaultAt (Text.split '.' key) { m with defaults := entries } =
        m.defaultAt (Text.split '.' key) := hbeside _ ho.2 (not_prefix_of_outside ho)
    rw [get_remerged hproper', get_remerged hproper, hdefault]
    rfl
  constructor
  · rintro ⟨m', hrun', -, hframe⟩ key ho
    cases hrun.symm.trans hrun'
    rw [← hframe key ho, houtside ho]
  · intro hcurrent
    refine ⟨_, hrun, fun path value hp hn => hinside hp hn, fun key ho => ?_⟩
    rw [houtside ho, hcurrent key ho]

theorem currentOutside_of_merged (h : m.Merged) : m.CurrentOutside name := by
  intro key _
  have hcurrent : m.remerged = m := by
    unfold remerged
    rw [← h]
  rw [hcurrent]

end Registration

section Sample

open ConfigurationManager Operation

theorem vacant_of_all {m : ConfigurationManager α} {name : String}
    (hfree : (m.defaults :: m.layers).all fun layer =>
      ((Tree.dict layer).at? ["plugins", name]).isNone)
    (hdicts : (m.defaults :: m.layers).all fun layer =>
      ((Tree.dict layer).at? ["plugins"]).all fun sub => decide sub.IsDict) : m.Vacant name where
  free layer hl := Option.isNone_iff_eq_none.mp (List.all_eq_true.mp hfree layer hl)
  dicts layer hl sub hs := by
    have hall := List.all_eq_true.mp hdicts layer hl
    rw [hs] at hall
    exact of_decide_eq_true hall

theorem dotFree_of_not_isDict {tree : Tree α} (h : ¬tree.IsDict) : DotFree tree := by
  intro path sub hp
  cases path with
  | nil => exact fun key hk => nomatch hk
  | cons first rest =>
      rw [Tree.at?_of_not_isDict h (List.cons_ne_nil _ _)] at hp
      cases hp

theorem dotFree_dict {entries : Entries α}
    (h : ∀ key sub, (key, sub) ∈ entries → '.' ∉ key.toList ∧ DotFree sub) :
    DotFree (.dict entries) := by
  intro path found hp
  cases path with
  | nil => exact fun key hk => nomatch hk
  | cons first rest =>
      rw [Tree.at?_cons] at hp
      obtain ⟨sub, hsub, hrest⟩ := Option.bind_eq_some_iff.mp hp
      obtain ⟨hfirst, hbelow⟩ := h first sub (Library.Entries.mem_of_lookup hsub)
      exact List.forall_mem_cons.mpr ⟨hfirst, hbelow rest found hrest⟩

-- A manager with the default.yaml that enables no plugins.
def hosted : ConfigurationManager Scalar :=
  { blank with
    defaults := [("plugins", .dict [("enabled", .leaf (.list []))])]
    mergedData := [("plugins", .dict [("enabled", .leaf (.list []))])] }

theorem hosted_proper : hosted.Proper := by
  simp [ConfigurationManager.Proper, layers, hosted, blank, Tree.Proper, Tree.ProperEntries]

def mailerDefaults : PluginDefaults Scalar where
  entries := [("retries", .leaf (.int 3)),
    ("smtp", .dict [("host", .leaf (.text "localhost")), ("ports", .leaf (.list ["25", "587"]))])]
  proper := by simp [Tree.Proper, Tree.ProperEntries]
  dotFree := by
    refine dotFree_dict fun key sub hm => ?_
    rcases List.mem_pair.mp hm with he | he
    · obtain ⟨rfl, rfl⟩ := Prod.mk.inj he
      exact ⟨by decide, dotFree_of_not_isDict id⟩
    · obtain ⟨rfl, rfl⟩ := Prod.mk.inj he
      refine ⟨by decide, dotFree_dict fun key sub hm => ?_⟩
      rcases List.mem_pair.mp hm with he | he
      · obtain ⟨rfl, rfl⟩ := Prod.mk.inj he
        exact ⟨by decide, dotFree_of_not_isDict id⟩
      · obtain ⟨rfl, rfl⟩ := Prod.mk.inj he
        exact ⟨by decide, dotFree_of_not_isDict id⟩

theorem mailer_registers_readably : RegistersReadably "mailer" mailerDefaults hosted :=
  (registersReadably_iff_current (by decide) hosted_proper
    (vacant_of_all (by decide) (by decide))).mpr (currentOutside_of_merged rfl)

-- A registration that raises when it comes to the rule of a key below a number.
def halfRegistered : ConfigurationManager Scalar :=
  finalState (registerPluginConfig "mailer" [("port", .leaf (.int 25))]
    (.ofEntries [("port.number", portRule 1)])) hosted

def noDefaults : PluginDefaults Scalar where
  entries := []
  proper := ⟨List.nodup_nil, trivial⟩
  dotFree := dotFree_dict fun _ _ hm => nomatch hm

-- The next plugin's registration brings the number to light.
theorem next_plugin_reveals_port : '.' ∉ "audit".toList ∧ halfRegistered.Proper ∧
    halfRegistered.Vacant "audit" ∧ ¬RegistersReadably "audit" noDefaults halfRegistered := by
  have hproper : halfRegistered.Proper :=
    (registerPluginConfig_keeps (∀ layer ∈ ·, (Tree.dict layer).Proper) _ _ _).finalState hosted_proper
  have hvacant : halfRegistered.Vacant "audit" := vacant_of_all (by decide +kernel) (by decide +kernel)
  refine ⟨by decide, hproper, hvacant, ?_⟩
  rintro ⟨m', hrun, -, hframe⟩
  have hfinal : finalState (registerPluginConfig "audit" [] .empty) halfRegistered = m' := by
    unfold finalState
    rw [show registerPluginConfig "audit" [] .empty halfRegistered = _ from hrun]
  have hbefore : halfRegistered.get "plugins.mailer.port" .null = .null := by decide +kernel
  have hafter : (finalState (registerPluginConfig "audit" [] .empty) halfRegistered).get
      "plugins.mailer.port" .null = .leaf (.int 25) := by decide +kernel
  have hpath : Text.split '.' "plugins.mailer.port" = ["plugins", "mailer", "port"] := by
    decide +kernel
  have houtside : Outside "audit" "plugins.mailer.port" := by
    refine ⟨by decide, ?_⟩
    rw [hpath]
    decide
  have hsame := hframe _ houtside
  rw [← hfinal, hbefore, hafter] at hsame
  cases hsame

end Sample

end YasinCore.Config
