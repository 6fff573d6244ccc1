import YasinCore.Config.Defaults
import YasinCore.Library.Tree.Writes

namespace YasinCore.Config

open YasinCore.Library

variable {α : Type} {host : Host α} {m : ConfigurationManager α}

def Host.reorder (host : Host α) (order : List String → List String) : Host α :=
  { host with enumerate := order }

-- An order in which a set of keys may be gone through.
def Enumerates (order : List String → List String) : Prop := ∀ keys, (order keys).Perm keys

namespace ConfigurationManager

-- The path to which the rules of _set_nested_value lead a variable.
def envPath (host : Host α) (m : ConfigurationManager α) (envKey : String) : Path :=
  let envKeyLower := host.lower envKey
  if (envKey.splitOn "__").length > 1 then envKeyLower.splitOn "__"
  else
    let found := (flatKeys host m).find? fun key => replaceChar '.' '_' key = envKeyLower
    match found.filter (· ≠ "") with
    | some key => Text.split '.' key
    | none =>
        let matchKey := replaceChar '_' '.' envKeyLower
        if matchKey ∈ flatKeys host m then Text.split '.' matchKey
        else Text.split '_' envKeyLower

-- What a variable writes, if it has the prefix.
def setting (host : Host α) (m : ConfigurationManager α) (entry : String × String) :
    Option (Tree.Write α) :=
  if entry.1.startsWith "YASIN_" then
    some (envPath host m (entry.1.drop 6).toString, host.parse entry.2)
  else none

def settings (host : Host α) (m : ConfigurationManager α) (environ : List (String × String)) :
    List (Tree.Write α) := environ.filterMap (setting host m)

theorem setNestedValue_eq (target : Entries α) (envKey : String) (val : Tree α) :
    setNestedValue host m target envKey val = setDeep target (envPath host m envKey) val := by
  unfold setNestedValue envPath
  dsimp only
  split
  · rfl
  · generalize Option.filter _ _ = found
    cases found with
    | some key => rfl
    | none => exact (apply_ite (setDeep target · val) _ _ _).symm

theorem splitOnAux_ne_nil (s sep : String) (b i j : String.Pos.Raw) (pieces : List String) :
    s.splitOnAux sep b i j pieces ≠ [] := by
  fun_induction String.splitOnAux s sep b i j pieces with
  | case1 b i j pieces _ all => simp [all]
  | case2 _ _ _ _ _ _ _ _ _ ih => exact ih
  | case3 _ _ _ _ _ _ _ _ _ ih => exact ih
  | case4 _ _ _ _ _ _ ih => exact ih

theorem splitOn_ne_nil (s sep : String) : s.splitOn sep ≠ [] := by
  unfold String.splitOn
  split
  · exact List.cons_ne_nil _ _
  · exact splitOnAux_ne_nil s sep 0 0 0 []

theorem envPath_ne_nil (envKey : String) : envPath host m envKey ≠ [] := by
  unfold envPath
  dsimp only
  split
  · exact splitOn_ne_nil _ _
  · split
    · exact split_ne_nil _
    · split
      · exact split_ne_nil _
      · unfold Text.split
        simp

theorem settings_ne_nil {environ : List (String × String)} :
    ∀ written ∈ settings host m environ, written.1 ≠ [] := by
  intro written hw
  obtain ⟨entry, -, he⟩ := List.mem_filterMap.mp hw
  unfold setting at he
  split at he
  · exact Option.some.inj he ▸ envPath_ne_nil _
  · cases he

theorem settings_cons {entry : String × String} {environ : List (String × String)} :
    settings host m (entry :: environ) =
      if entry.1.startsWith "YASIN_" then
        (envPath host m (entry.1.drop 6).toString, host.parse entry.2) :: settings host m environ
      else settings host m environ := by
  unfold settings
  rw [List.filterMap_cons, setting]
  by_cases hp : entry.1.startsWith "YASIN_"
  · rw [if_pos hp, if_pos hp]
  · rw [if_neg hp, if_neg hp]

theorem setDeep_ok_iff {d entries : Entries α} {parts : Path} {val : Tree α} :
    setDeep d parts val = .ok entries ↔ Tree.put val (some (.dict d)) parts = some (.dict entries) := by
  unfold setDeep
  split
  · rename_i h
    rw [h]
    simp
  · rename_i h
    exact iff_of_false nofun (h entries)

-- The loader is the sequence of its writes.
theorem loadEnvOverrides_ok_iff {environ : List (String × String)} {entries : Entries α} :
    loadEnvOverrides host m environ = .ok entries ↔
      Tree.putAll (settings host m environ) (.dict []) = some (.dict entries) := by
  unfold loadEnvOverrides
  suffices h : ∀ start : Entries α, environ.foldlM (fun envData entry =>
      if entry.1.startsWith "YASIN_" then
        setNestedValue host m envData (entry.1.drop 6).toString (host.parse entry.2)
      else .ok envData) start = .ok entries ↔
      Tree.putAll (settings host m environ) (.dict start) = some (.dict entries) from h []
  induction environ with
  | nil =>
      intro start
      rw [List.foldlM_nil]
      exact ⟨fun h => congrArg (some ∘ Tree.dict) (Except.ok.inj h),
        fun h => congrArg Except.ok (Tree.dict.inj (Option.some.inj h))⟩
  | cons entry environ ih =>
      intro start
      rw [List.foldlM_cons, settings_cons]
      by_cases hp : entry.1.startsWith "YASIN_"
      · rw [if_pos hp, if_pos hp, setNestedValue_eq, Tree.putAll, List.foldlM_cons]
        cases hset : setDeep start (envPath host m (entry.1.drop 6).toString) (host.parse entry.2) with
        | ok next =>
            rw [setDeep_ok_iff.mp hset]
            exact ih next
        | error e =>
            have hnone : Tree.put (host.parse entry.2) (some (.dict start))
                (envPath host m (entry.1.drop 6).toString) = none := by
              refine Option.eq_none_iff_forall_ne_some.mpr fun tree hput => ?_
              obtain ⟨next, rfl⟩ := Tree.dict_of_put (envPath_ne_nil _) hput
              rw [setDeep_ok_iff.mpr hput] at hset
              cases hset
            rw [hnone]
            exact iff_of_false (fun h => by cases h) fun h => by cases h
      · rw [if_neg hp, if_neg hp]
        exact ih start

-- The variables are loaded whatever their order and that of the known keys, always to the same.
def LoadsAlike (host : Host α) (m : ConfigurationManager α) (environ : List (String × String)) : Prop :=
  ∃ tree : Tree α, ∀ order, Enumerates order → ∀ environ', environ'.Perm environ →
    ∃ entries, loadEnvOverrides (host.reorder order) m environ' = .ok entries ∧
      (Tree.dict entries).Same tree

-- For each order of the known keys: no variable is in the way of another, the paths to which they
-- are led being what they are; and the order makes no difference to what they build.
structure NoConflict (host : Host α) (m : ConfigurationManager α) (environ : List (String × String)) :
    Prop where
  fits : ∀ order, Enumerates order → (settings (host.reorder order) m environ).Pairwise
    fun first second => Tree.Fits first second ∧ Tree.Fits second first
  agrees : ∀ order order', Enumerates order → Enumerates order' → ∀ path found,
    Tree.Builds (settings (host.reorder order) m environ) path found →
      Tree.Builds (settings (host.reorder order') m environ) path found

section Orders

variable {environ environ' : List (String × String)}

theorem loaded_of_fits (hfits : (settings host m environ).Pairwise fun first second =>
    Tree.Fits first second ∧ Tree.Fits second first) :
    ∃ entries, loadEnvOverrides host m environ = .ok entries ∧ ∀ path found,
      (Tree.dict entries).nodeAt path = some found ↔ Tree.Builds (settings host m environ) path found := by
  obtain ⟨tree, hall, htree⟩ := Tree.putAll_of_fits hfits settings_ne_nil
  have hroot := (htree [] .dict).mpr (.inl ⟨rfl, rfl⟩)
  rw [Tree.nodeAt_nil, Option.some.injEq] at hroot
  cases tree with
  | null => cases hroot
  | leaf _ => cases hroot
  | dict entries => exact ⟨entries, loadEnvOverrides_ok_iff.mpr hall, htree⟩

-- Two variables come last in either order, after all the others.
theorem fits_of_loads {tree : Tree α} (h : ∀ environ', environ'.Perm environ →
    ∃ entries, loadEnvOverrides host m environ' = .ok entries ∧ (Tree.dict entries).Same tree) :
    (settings host m environ).Pairwise fun first second =>
      Tree.Fits first second ∧ Tree.Fits second first := by
  refine List.pairwise_iff_forall_sublist.mpr fun {first second} hsub => ?_
  obtain ⟨pair, hpair, hboth⟩ := List.sublist_filterMap_iff.mp hsub
  obtain ⟨rest, hrest⟩ := hpair.exists_perm_append
  have hlast : (rest ++ pair).Perm environ := List.perm_append_comm.trans hrest.symm
  have hswap : (rest ++ pair.reverse).Perm environ :=
    (List.Perm.append_left rest (List.reverse_perm pair)).trans hlast
  have hwrites : settings host m (rest ++ pair) = settings host m rest ++ [first, second] := by
    rw [settings, List.filterMap_append, ← hboth]
    rfl
  have hwrites' : settings host m (rest ++ pair.reverse) =
      settings host m rest ++ [second, first] := by
    rw [settings, List.filterMap_append, List.filterMap_reverse, ← hboth]
    rfl
  obtain ⟨entries, hload, hsame⟩ := h _ hlast
  obtain ⟨entries', hload', hsame'⟩ := h _ hswap
  rw [loadEnvOverrides_ok_iff, hwrites] at hload
  rw [loadEnvOverrides_ok_iff, hwrites'] at hload'
  exact Tree.fits_of_swap hload hload' (hsame.trans hsame'.symm)

-- The environment is loaded in every order, to the same, exactly when there is no conflict.
theorem loadsAlike_iff : LoadsAlike host m environ ↔ NoConflict host m environ := by
  constructor
  · rintro ⟨tree, h⟩
    have hfits (order : List String → List String) (ho : Enumerates order) :=
      fits_of_loads (h order ho)
    refine ⟨hfits, fun order order' ho ho' path found hb => ?_⟩
    obtain ⟨entries, hload, hbuilt⟩ := loaded_of_fits (hfits order ho)
    obtain ⟨entries', hload', hbuilt'⟩ := loaded_of_fits (hfits order' ho')
    obtain ⟨_, he, hsame⟩ := h order ho environ (.refl _)
    obtain rfl := Except.ok.inj (hload.symm.trans he)
    obtain ⟨_, he', hsame'⟩ := h order' ho' environ (.refl _)
    obtain rfl := Except.ok.inj (hload'.symm.trans he')
    rw [← hbuilt', ← (hsame.trans hsame'.symm) path, hbuilt]
    exact hb
  · rintro ⟨hfits, hagrees⟩
    have hid : Enumerates id := fun _ => .refl _
    obtain ⟨entries, -, hbuilt⟩ := loaded_of_fits (hfits id hid)
    refine ⟨.dict entries, fun order ho environ' hp => ?_⟩
    have hperm : (settings (host.reorder order) m environ').Perm
        (settings (host.reorder order) m environ) := hp.filterMap _
    obtain ⟨entries', hload', hbuilt'⟩ :=
      loaded_of_fits ((hperm.pairwise_iff And.symm).mpr (hfits order ho))
    refine ⟨entries', hload', fun path => Option.ext fun found => ?_⟩
    rw [hbuilt', hbuilt, Tree.builds_congr fun _ => hperm.mem_iff]
    exact ⟨hagrees order id ho hid path found, hagrees id order hid ho path found⟩

-- A variable and another one that goes below it.
def nestedVariables : List (String × String) := [("YASIN_a", "x"), ("YASIN_a__b", "y")]

-- The search for the two underscores, position by position.
theorem splitOn_single : "a".splitOn "__" = ["a"] := by
  rw [String.splitOn, if_neg (by decide), String.splitOnAux, if_neg (by decide +kernel),
    if_neg (by decide +kernel), String.splitOnAux, if_pos (by decide +kernel)]
  decide +kernel

theorem splitOn_nested : "a__b".splitOn "__" = ["a", "b"] := by
  rw [String.splitOn, if_neg (by decide), String.splitOnAux, if_neg (by decide +kernel),
    if_neg (by decide +kernel), String.splitOnAux, if_neg (by decide +kernel),
    if_pos (by decide +kernel)]
  dsimp only
  rw [if_neg (by decide +kernel), String.splitOnAux, if_neg (by decide +kernel),
    if_pos (by decide +kernel)]
  dsimp only
  rw [if_pos (by decide +kernel), String.splitOnAux, if_neg (by decide +kernel),
    if_neg (by decide +kernel), String.splitOnAux, if_pos (by decide +kernel)]
  decide +kernel

theorem settings_nested : settings (sampleHost.reorder id) blank nestedVariables =
    [(["a"], .leaf (.text "x")), (["a", "b"], .leaf (.text "y"))] := by
  have hsingle : ("YASIN_a".drop 6).toString = "a" := by decide +kernel
  have hnested : ("YASIN_a__b".drop 6).toString = "a__b" := by decide +kernel
  have hfirst : envPath (sampleHost.reorder id) blank "a" = ["a"] := by
    rw [envPath, splitOn_single, if_neg (by decide)]
    decide +kernel
  have hsecond : envPath (sampleHost.reorder id) blank "a__b" = ["a", "b"] := by
    rw [envPath, splitOn_nested, if_pos (by decide)]
    exact splitOn_nested
  rw [nestedVariables, settings_cons, if_pos (by decide +kernel), settings_cons,
    if_pos (by decide +kernel), hsingle, hnested, hfirst, hsecond]
  rfl

-- The second one finds no dictionary below which it could write.
theorem nested_variables_not_loaded : ¬LoadsAlike sampleHost blank nestedVariables := by
  rintro ⟨tree, h⟩
  obtain ⟨entries, hload, -⟩ := h id (fun _ => .refl _) nestedVariables (.refl _)
  rw [loadEnvOverrides_ok_iff, settings_nested] at hload
  cases hload

end Orders

end ConfigurationManager

end YasinCore.Config
