import YasinCore.Config.Defaults

namespace YasinCore.Config

open YasinCore.Library

variable {α : Type}

-- The law of a merge of two layers, path by path. An upper value that is no dictionary wins at its
-- path and leaves nothing below it. Where a key is missing in the upper layer, below dictionaries in
-- both, the lower layer shows. Two dictionaries are merged again, and one alone replaces the rest.
structure Precedence (upper lower merged : Entries α) : Prop where
  scalar : ∀ path value, (Tree.dict upper).at? path = some value → ¬value.IsDict →
    (Tree.dict merged).at? path = some value
  hidden : ∀ path rest value, (Tree.dict upper).at? path = some value → ¬value.IsDict → rest ≠ [] →
    (Tree.dict merged).at? (path ++ rest) = none
  kept : ∀ path key rest sub below, (Tree.dict upper).at? path = some (.dict sub) →
    (Tree.dict lower).at? path = some (.dict below) → Library.Entries.lookup key sub = none →
      (Tree.dict merged).at? (path ++ key :: rest) = (Tree.dict lower).at? (path ++ key :: rest)
  both : ∀ path sub below, (Tree.dict upper).at? path = some (.dict sub) →
    (Tree.dict lower).at? path = some (.dict below) →
      (Tree.dict merged).at? path = some (.dict (Tree.mergeEntries sub below))
  replaced : ∀ path sub, (Tree.dict upper).at? path = some (.dict sub) →
    (∀ below, (Tree.dict lower).at? path ≠ some (.dict below)) →
      (Tree.dict merged).at? path = some (.dict sub)

theorem mergeEntries_precedence {upper : Entries α} (h : (Tree.dict upper).Proper) (lower : Entries α) :
    Precedence upper lower (Tree.mergeEntries upper lower) := by
  have hat {path : Path} {value : Tree α} (hv : (Tree.dict upper).at? path = some value) :
      (Tree.dict (Tree.mergeEntries upper lower)).at? path =
        some (Tree.mergeInto value ((Tree.dict lower).at? path)) :=
    Tree.at?_mergeInto h hv (some (.dict lower))
  exact {
    scalar := fun path value hv hd => by
      rw [hat hv, Tree.mergeInto_of_not_isDict hd]
    hidden := fun path rest value hv hd hr => by
      rw [Tree.at?_append, hat hv, Tree.mergeInto_of_not_isDict hd, Option.bind_some,
        Tree.at?_of_not_isDict hd hr]
    kept := fun path key rest sub below hu hl hk => by
      have hmerged := hat hu
      rw [hl] at hmerged
      have hlevel := Tree.lookup_mergeEntries (h.at? hu).1 below key
      rw [hk] at hlevel
      have hchild : (Tree.mergeInto (.dict sub) (some (.dict below))).child key =
          (Tree.dict below).child key := hlevel
      rw [Tree.at?_append, hmerged, Tree.at?_append, hl, Option.bind_some, Option.bind_some,
        Tree.at?_cons, hchild, Tree.at?_cons]
    both := fun path sub below hu hl => by
      rw [hat hu, hl]
      rfl
    replaced := fun path sub hu hl => by
      rw [hat hu]
      cases hlower : (Tree.dict lower).at? path with
      | none => rfl
      | some tree =>
          cases tree with
          | null => rfl
          | leaf _ => rfl
          | dict below => exact absurd hlower (hl below) }

-- The layers are merged from the lowest to the highest.
def mergeLayers (base : Entries α) (layers : List (Entries α)) : Entries α :=
  layers.foldl (fun lower upper => Tree.mergeEntries upper lower) base

theorem mergeLayers_append (base : Entries α) (first second : List (Entries α)) :
    mergeLayers base (first ++ second) = mergeLayers (mergeLayers base first) second :=
  List.foldl_append

-- What layers above leave free stays as it is.
theorem at?_mergeLayers_of_free {base : Entries α} {layers : List (Entries α)} {path : Path}
    {tree : Tree α} (hproper : ∀ layer ∈ layers, (Tree.dict layer).Proper)
    (hfree : ∀ layer ∈ layers, Tree.Free path layer) (hp : (Tree.dict base).at? path = some tree) :
    (Tree.dict (mergeLayers base layers)).at? path = some tree := by
  induction layers generalizing base with
  | nil => exact hp
  | cons layer rest ih =>
      have hfirst := Tree.at?_mergeEntries_of_free (hproper layer List.mem_cons_self)
        (hfree layer List.mem_cons_self) hp
      exact ih (fun other ho => hproper other (List.mem_cons_of_mem _ ho))
        (fun other ho => hfree other (List.mem_cons_of_mem _ ho)) hfirst

-- The value of a layer is the result, when the layers above it leave its path free.
theorem at?_mergeLayers {base layer : Entries α} {below above : List (Entries α)} {path : Path}
    {value : Tree α} (hlayer : (Tree.dict layer).Proper)
    (habove : ∀ upper ∈ above, (Tree.dict upper).Proper)
    (hfree : ∀ upper ∈ above, Tree.Free path upper)
    (hp : (Tree.dict layer).at? path = some value) (hd : ¬value.IsDict) :
    (Tree.dict (mergeLayers base (below ++ layer :: above))).at? path = some value := by
  rw [mergeLayers_append, mergeLayers, List.foldl_cons]
  refine at?_mergeLayers_of_free habove hfree ?_
  exact (mergeEntries_precedence hlayer _).scalar path value hp hd

namespace ConfigurationManager

theorem mergeConfigs_eq (m : ConfigurationManager α) :
    m.mergeConfigs = mergeLayers m.defaults m.layers := rfl

-- The four layers are merged by the law, one over the other; the highest layer that has a value at a
-- path decides, unless a layer above it is in the way; and get reads the result of the merge.
theorem layered_precedence (m : ConfigurationManager α)
    (hproper : ∀ layer ∈ m.layers, (Tree.dict layer).Proper) :
    (Precedence m.fileData m.defaults (mergeLayers m.defaults [m.fileData]) ∧
      Precedence m.envData (mergeLayers m.defaults [m.fileData])
        (mergeLayers m.defaults [m.fileData, m.envData]) ∧
      Precedence m.overrides (mergeLayers m.defaults [m.fileData, m.envData]) m.mergeConfigs) ∧
    (∀ path value, ¬value.IsDict → ∀ below layer above, m.defaults :: m.layers = below ++ layer :: above →
      (Tree.dict layer).at? path = some value → (∀ upper ∈ above, Tree.Free path upper) →
        (Tree.dict m.mergeConfigs).at? path = some value) ∧
    (m.Merged → ∀ key, m.get key .null =
      ((Tree.dict m.mergeConfigs).at? (Text.split '.' key)).getD .null) := by
  refine ⟨⟨?_, ?_, ?_⟩, ?_, ?_⟩
  · exact mergeEntries_precedence (hproper _ (by simp [layers])) _
  · exact mergeEntries_precedence (hproper m.envData (by simp [layers])) _
  · exact mergeEntries_precedence (hproper _ (by simp [layers])) _
  · intro path value hd below layer above he hp hfree
    cases below with
    | nil =>
        obtain ⟨rfl, rfl⟩ := List.cons.inj he
        exact at?_mergeLayers_of_free hproper hfree hp
    | cons first below =>
        obtain ⟨rfl, hlayers⟩ := List.cons.inj he
        rw [mergeConfigs_eq, hlayers]
        rw [hlayers] at hproper
        refine at?_mergeLayers (hproper layer (by simp)) (fun upper hu => ?_) hfree hp hd
        exact hproper upper (by simp [hu])
  · intro hmerged key
    rw [get_null, hmerged]

-- A file that sets one port over defaults that name two values, and an override.
def layeredSample : ConfigurationManager Nat :=
  { blank with
    defaults := [("server", .dict [("port", .leaf 80), ("workers", .leaf 2)])]
    fileData := [("server", .dict [("port", .leaf 8080)])]
    overrides := [("debug", .leaf 1)] }

theorem layered_sample_precedence :
    (Tree.dict layeredSample.mergeConfigs).at? ["debug"] = some (.leaf 1) ∧
    (Tree.dict (mergeLayers layeredSample.defaults [layeredSample.fileData])).at? ["server", "workers"] =
      (Tree.dict layeredSample.defaults).at? ["server", "workers"] := by
  have hproper : ∀ layer ∈ layeredSample.layers, (Tree.dict layer).Proper := by
    simp [layers, layeredSample, blank, Tree.Proper, Tree.ProperEntries]
  obtain ⟨⟨hfile, -, -⟩, htop, -⟩ := layered_precedence layeredSample hproper
  have hdebug : (Tree.dict layeredSample.overrides).at? ["debug"] = some (.leaf 1) := rfl
  constructor
  · exact htop ["debug"] (.leaf 1) id [layeredSample.defaults, layeredSample.fileData, []]
      layeredSample.overrides [] rfl hdebug fun _ hm => absurd hm List.not_mem_nil
  · exact hfile.kept ["server"] "workers" [] _ _ rfl rfl rfl

end ConfigurationManager

end YasinCore.Config
