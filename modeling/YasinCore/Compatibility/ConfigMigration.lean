import YasinCore.Library.Text
import YasinCore.Library.Tree.Forced

namespace YasinCore.Compatibility

open YasinCore.Library

export YasinCore.Library (Tree)

abbrev ConfigData (α : Type) := List (String × Tree α)

namespace ConfigurationMigrator

variable {α ε : Type}

-- The way along the parts of a dotted key: what is no dictionary is replaced by an empty one.
def updateNested (update : String → ConfigData α → ConfigData α) :
    List String → ConfigData α → ConfigData α
  | [], current => current
  | [last], current => update last current
  | part :: rest, current =>
      let below :=
        match Entries.lookup part current with
        | some (.dict entries) => entries
        | _ => []
      Entries.assign part (.dict (updateNested update rest below)) current

def setAt (val : Tree α) (key : String) (current : ConfigData α) : ConfigData α :=
  Entries.assign key val current

def injectAt (val : Tree α) (key : String) (current : ConfigData α) : ConfigData α :=
  if (Entries.lookup key current).isSome then current else Entries.assign key val current

-- A dotted key stands for a path.
def updateKey (update : String → ConfigData α → ConfigData α) (key : String) (data : ConfigData α) :
    ConfigData α :=
  if '.' ∈ key.toList then updateNested update (Text.split '.' key) data else update key data

def renameKey (migrated : ConfigData α) (rename : String × String) : ConfigData α :=
  match Entries.lookup rename.1 migrated with
  | some val => updateKey (setAt val) rename.2 (Entries.remove rename.1 migrated)
  | none => migrated

def injectDefault (migrated : ConfigData α) (default : String × Tree α) : ConfigData α :=
  updateKey (injectAt default.2) default.1 migrated

def migrateConfig (configData : ConfigData α) (keyRenames : Option (Dict String String))
    (defaultInjects : Option (Dict String (Tree α)))
    (customMigrator : Option (ConfigData α → Except ε (ConfigData α))) : Except ε (ConfigData α) :=
  let migrated := (keyRenames.getD .empty).entries.foldl renameKey configData
  let migrated := (defaultInjects.getD .empty).entries.foldl injectDefault migrated
  match customMigrator with
  | some customMigrator => customMigrator migrated
  | none => .ok migrated

-- A key as a path
def pathOf (key : String) : Path := Text.split '.' key

section Steps

variable {val : Tree α} {data : ConfigData α} {key : String} {path : Path}

theorem updateKey_eq (update : String → ConfigData α → ConfigData α) (key : String) (data : ConfigData α) :
    updateKey update key data = updateNested update (pathOf key) data := by
  unfold updateKey
  split
  · rfl
  · rename_i hm
    rw [pathOf, Text.split_of_notMem hm]
    rfl

theorem pathOf_ne_nil (key : String) : pathOf key ≠ [] := by
  unfold pathOf Text.split
  rw [ne_eq, List.map_eq_nil_iff]
  exact List.splitOn_ne_nil '.' key.toList

theorem updateNested_cons (update : String → ConfigData α → ConfigData α) {part : String}
    {rest : List String} (hne : rest ≠ []) (current : ConfigData α) : updateNested update (part :: rest) current =
      Entries.assign part (.dict (updateNested update rest (Tree.entriesOf (Entries.lookup part current))))
        current := by
  obtain ⟨next, more, rfl⟩ := List.exists_cons_of_ne_nil hne
  rw [updateNested.eq_3 _ _ _ _ hne]
  cases Entries.lookup part current with
  | none => rfl
  | some sub => cases sub <;> rfl

theorem dict_setNested (hne : path ≠ []) :
    Tree.dict (updateNested (setAt val) path data) = Tree.force val (some (.dict data)) path := by
  induction path generalizing data with
  | nil => exact absurd rfl hne
  | cons part rest ih =>
      cases rest with
      | nil => rfl
      | cons next rest =>
          have hrest := List.cons_ne_nil next rest
          rw [updateNested_cons _ hrest, ih hrest, Tree.force_entriesOf hrest]
          rfl

-- A default is written where nothing is.
theorem dict_injectNested (hne : path ≠ []) : Tree.dict (updateNested (injectAt val) path data) =
    if ((Tree.dict data).at? path).isSome then .dict data else Tree.force val (some (.dict data)) path := by
  induction path generalizing data with
  | nil => exact absurd rfl hne
  | cons part rest ih =>
      cases rest with
      | nil =>
          rw [updateNested, injectAt, Tree.at?_cons, Tree.child]
          cases Entries.lookup part data with
          | none => rfl
          | some sub => simp
      | cons next rest =>
          have hrest := List.cons_ne_nil next rest
          rw [updateNested_cons _ hrest, ih hrest, Tree.at?_entriesOf hrest, Tree.at?_cons, Tree.child]
          split
          · rename_i hsome
            cases hfound : Entries.lookup part data with
            | none =>
                rw [hfound] at hsome
                cases hsome
            | some sub =>
                rw [hfound] at hsome
                cases sub with
                | null => cases hsome
                | leaf _ => cases hsome
                | dict entries => rw [Tree.entriesOf, Entries.assign_of_lookup hfound]
          · rw [Tree.force_entriesOf hrest]
            rfl

end Steps

section Renames

variable {config migrated : ConfigData α} {rename other : String × String}
  {renames : List (String × String)} {value : Tree α} {key : String} {path rest : Path}

-- No new path begins another one.
def PrefixFree (renames : List (String × String)) : Prop :=
  ∀ rename ∈ renames, ∀ other ∈ renames, pathOf rename.2 <+: pathOf other.2 → rename = other

-- No rename takes away what an earlier one has put below its old key.
def InTurn (config : ConfigData α) (renames : List (String × String)) : Prop :=
  renames.Pairwise fun rename later =>
    (Entries.lookup rename.1 config).isSome → (pathOf rename.2).head? ≠ some later.1

-- The values have moved, and what is beside their places is as it was.
structure Renamed (config : ConfigData α) (renames : List (String × String)) (migrated : ConfigData α) :
    Prop where
  moved : ∀ rename ∈ renames, ∀ value, Entries.lookup rename.1 config = some value →
    (Tree.dict migrated).at? (pathOf rename.2) = some value
  beside : ∀ key rest, (∀ rename ∈ renames, (Entries.lookup rename.1 config).isSome →
    ¬pathOf rename.2 <+: key :: rest ∧ ¬key :: rest <+: pathOf rename.2) →
    (Tree.dict migrated).at? (key :: rest) =
      if key ∈ renames.map Prod.fst then none else (Tree.dict config).at? (key :: rest)

theorem renameKey_of_none (h : Entries.lookup rename.1 migrated = none) :
    renameKey migrated rename = migrated := by
  rw [renameKey, h]

theorem dict_renameKey (h : Entries.lookup rename.1 migrated = some value) :
    Tree.dict (renameKey migrated rename) =
      Tree.force value (some (.dict (Entries.remove rename.1 migrated))) (pathOf rename.2) := by
  rw [renameKey, h]
  dsimp only
  rw [updateKey_eq, dict_setNested (pathOf_ne_nil _)]

theorem at?_remove (old : String) : (Tree.dict (Entries.remove old migrated)).at? (key :: rest) =
    if key = old then none else (Tree.dict migrated).at? (key :: rest) := by
  rw [Tree.at?_cons, Tree.child, Entries.lookup_remove]
  split
  · rfl
  · rw [Tree.at?_cons, Tree.child]

theorem at?_renameKey_none (hfound : Entries.lookup rename.1 migrated = none) :
    (Tree.dict (renameKey migrated rename)).at? (key :: rest) =
      if key = rename.1 then none else (Tree.dict migrated).at? (key :: rest) := by
  rw [renameKey_of_none hfound]
  split
  · rename_i he
    rw [Tree.at?_cons, Tree.child, he, hfound, Option.bind_none]
  · rfl

theorem at?_renameKey_beside (hbelow : ¬pathOf rename.2 <+: key :: rest)
    (habove : ¬key :: rest <+: pathOf rename.2) :
    (Tree.dict (renameKey migrated rename)).at? (key :: rest) =
      if key = rename.1 then none else (Tree.dict migrated).at? (key :: rest) := by
  cases hfound : Entries.lookup rename.1 migrated with
  | none => exact at?_renameKey_none hfound
  | some value =>
      rw [dict_renameKey hfound, Tree.at?_force_beside hbelow habove, Option.bind_some, at?_remove]

theorem at?_renameKey_self (h : Entries.lookup rename.1 migrated = some value) :
    (Tree.dict (renameKey migrated rename)).at? (pathOf rename.2) = some value := by
  have hread := Tree.at?_force_below value (some (.dict (Entries.remove rename.1 migrated)))
    (pathOf rename.2) []
  rwa [List.append_nil, Tree.at?_nil, ← dict_renameKey h] at hread

theorem head_of_meets (h : pathOf rename.2 <+: key :: rest ∨ key :: rest <+: pathOf rename.2) :
    (pathOf rename.2).head? = some key := by
  obtain ⟨first, more, hpath⟩ := List.exists_cons_of_ne_nil (pathOf_ne_nil rename.2)
  rw [hpath] at h ⊢
  rcases h with h | h
  · rw [(List.cons_prefix_cons.mp h).1, List.head?_cons]
  · rw [(List.cons_prefix_cons.mp h).1, List.head?_cons]

-- A key of which nothing has been put anywhere still has its value.
theorem Renamed.lookup_eq (h : Renamed config renames migrated) (hnew : key ∉ renames.map Prod.fst)
    (hfree : ∀ rename ∈ renames, (Entries.lookup rename.1 config).isSome →
      (pathOf rename.2).head? ≠ some key) :
    Entries.lookup key migrated = Entries.lookup key config := by
  have hread := h.beside key [] fun rename hm hsome =>
    ⟨fun hp => hfree rename hm hsome (head_of_meets (.inl hp)),
      fun hp => hfree rename hm hsome (head_of_meets (.inr hp))⟩
  rw [if_neg hnew] at hread
  simpa [Tree.at?_cons, Tree.child] using hread

theorem Renamed.nil (config : ConfigData α) : Renamed config [] config where
  moved _ hm := absurd hm List.not_mem_nil
  beside _ _ _ := rfl

-- The place of another rename is emptied when its first key is renamed, else left as it is.
theorem at?_renameKey_other (hnew : rename.1 ∉ renames.map Prod.fst)
    (hapart : PrefixFree (renames ++ [rename])) (hm : other ∈ renames) :
    (Tree.dict (renameKey migrated rename)).at? (pathOf other.2) =
      if (pathOf other.2).head? = some rename.1 then none
      else (Tree.dict migrated).at? (pathOf other.2) := by
  have hlast : rename ∈ renames ++ [rename] := List.mem_append_right _ (List.mem_singleton_self _)
  have hmem : other ∈ renames ++ [rename] := List.mem_append_left _ hm
  have hne : other ≠ rename := fun he => hnew (he ▸ List.mem_map_of_mem hm)
  have hbelow : ¬pathOf rename.2 <+: pathOf other.2 := fun hp =>
    hne (hapart rename hlast other hmem hp).symm
  have habove : ¬pathOf other.2 <+: pathOf rename.2 := fun hp =>
    hne (hapart other hmem rename hlast hp)
  obtain ⟨key, rest, hpath⟩ := List.exists_cons_of_ne_nil (pathOf_ne_nil other.2)
  rw [hpath] at hbelow habove ⊢
  rw [at?_renameKey_beside hbelow habove]
  simp

theorem Renamed.snoc (h : Renamed config renames migrated) (hnew : rename.1 ∉ renames.map Prod.fst)
    (hapart : PrefixFree (renames ++ [rename])) (hfree : ∀ other ∈ renames,
      (Entries.lookup other.1 config).isSome → (pathOf other.2).head? ≠ some rename.1) :
    Renamed config (renames ++ [rename]) (renameKey migrated rename) := by
  have hlookup := h.lookup_eq hnew hfree
  refine ⟨fun other hm value hvalue => ?_, fun key rest hbeside => ?_⟩
  · rcases List.mem_append.mp hm with hm | hm
    · rw [at?_renameKey_other hnew hapart hm, if_neg (hfree other hm (by rw [hvalue]; rfl))]
      exact h.moved other hm value hvalue
    · obtain rfl := List.mem_singleton.mp hm
      exact at?_renameKey_self (hlookup.trans hvalue)
  · have hbefore := h.beside key rest fun other hm => hbeside other (List.mem_append_left _ hm)
    have hkeys : key ∈ (renames ++ [rename]).map Prod.fst ↔
        key ∈ renames.map Prod.fst ∨ key = rename.1 := by
      simp
    have hread : (Tree.dict (renameKey migrated rename)).at? (key :: rest) =
        if key = rename.1 then none else (Tree.dict migrated).at? (key :: rest) := by
      cases hfound : Entries.lookup rename.1 migrated with
      | none => exact at?_renameKey_none hfound
      | some value =>
          obtain ⟨hbelow, habove⟩ := hbeside rename (List.mem_append_right _ (List.mem_singleton_self _))
            (by rw [← hlookup, hfound]; rfl)
          exact at?_renameKey_beside hbelow habove
    rw [hread, hbefore]
    by_cases hlastkey : key = rename.1
    · rw [if_pos hlastkey, if_pos (hkeys.mpr (.inr hlastkey))]
    · rw [if_neg hlastkey]
      by_cases hdone : key ∈ renames.map Prod.fst
      · rw [if_pos hdone, if_pos (hkeys.mpr (.inl hdone))]
      · rw [if_neg hdone, if_neg fun hk => (hkeys.mp hk).elim hdone hlastkey]

-- A value is lost when its place is empty.
def Lost (config : ConfigData α) (renames : List (String × String)) (migrated : ConfigData α) : Prop :=
  ∃ rename ∈ renames, (Entries.lookup rename.1 config).isSome ∧
    (Tree.dict migrated).at? (pathOf rename.2) = none

-- What is taken away does not come back.
theorem Lost.snoc (h : Lost config renames migrated) (hnew : rename.1 ∉ renames.map Prod.fst)
    (hapart : PrefixFree (renames ++ [rename])) :
    Lost config (renames ++ [rename]) (renameKey migrated rename) := by
  obtain ⟨other, hm, hsome, hnone⟩ := h
  refine ⟨other, List.mem_append_left _ hm, hsome, ?_⟩
  rw [at?_renameKey_other hnew hapart hm, hnone, ite_self]

-- A later rename takes the whole key away.
theorem lost_of_head (hnew : rename.1 ∉ renames.map Prod.fst)
    (hapart : PrefixFree (renames ++ [rename])) (hm : other ∈ renames)
    (hsome : (Entries.lookup other.1 config).isSome) (hhead : (pathOf other.2).head? = some rename.1) :
    Lost config (renames ++ [rename]) (renameKey migrated rename) := by
  refine ⟨other, List.mem_append_left _ hm, hsome, ?_⟩
  rw [at?_renameKey_other hnew hapart hm, if_pos hhead]

-- Either every rename finds its turn, or a value is lost.
theorem foldl_renameKey (hnodup : (renames.map Prod.fst).Nodup) (hapart : PrefixFree renames) :
    InTurn config renames ∧ Renamed config renames (renames.foldl renameKey config) ∨
      ¬InTurn config renames ∧ Lost config renames (renames.foldl renameKey config) := by
  induction renames using List.reverseRecOn with
  | nil => exact .inl ⟨.nil, .nil config⟩
  | append_singleton renames rename ih =>
      have hapart' : PrefixFree renames := fun rename hm other hm' =>
        hapart rename (List.mem_append_left _ hm) other (List.mem_append_left _ hm')
      rw [List.map_append, List.nodup_append] at hnodup
      have hnew : rename.1 ∉ renames.map Prod.fst := fun hm =>
        hnodup.2.2 rename.1 hm rename.1 (List.mem_singleton_self _) rfl
      have hturn : InTurn config (renames ++ [rename]) ↔ InTurn config renames ∧
          ∀ other ∈ renames, (Entries.lookup other.1 config).isSome →
            (pathOf other.2).head? ≠ some rename.1 := by
        simp [InTurn, List.pairwise_append]
      rw [List.foldl_concat, hturn]
      rcases ih hnodup.1 hapart' with ⟨hin, hrenamed⟩ | ⟨hout, hlost⟩
      · by_cases hfree : ∀ other ∈ renames, (Entries.lookup other.1 config).isSome →
            (pathOf other.2).head? ≠ some rename.1
        · exact .inl ⟨⟨hin, hfree⟩, hrenamed.snoc hnew hapart hfree⟩
        · refine .inr ⟨fun h => hfree h.2, ?_⟩
          push Not at hfree
          obtain ⟨other, hm, hsome, hhead⟩ := hfree
          exact lost_of_head hnew hapart hm hsome hhead
      · exact .inr ⟨fun h => hout h.1, hlost.snoc hnew hapart⟩

end Renames

section Defaults

variable {migrated data : ConfigData α} {default : String × Tree α} {defaults : List (String × Tree α)}
  {path rest : Path}

theorem dict_injectDefault : Tree.dict (injectDefault migrated default) =
    if ((Tree.dict migrated).at? (pathOf default.1)).isSome then .dict migrated
    else Tree.force default.2 (some (.dict migrated)) (pathOf default.1) := by
  rw [injectDefault, updateKey_eq, dict_injectNested (pathOf_ne_nil _)]

theorem at?_injectDefault_isSome :
    ((Tree.dict (injectDefault migrated default)).at? (pathOf default.1)).isSome := by
  rw [dict_injectDefault]
  split
  · assumption
  · have hread := Tree.at?_force_below default.2 (some (.dict migrated)) (pathOf default.1) []
    rw [List.append_nil, Tree.at?_nil] at hread
    rw [hread]
    rfl

-- A dictionary is never replaced.
theorem dict_stays (h : (Tree.dict migrated).nodeAt path = some .dict) :
    (Tree.dict (injectDefault migrated default)).nodeAt path = some .dict := by
  rw [dict_injectDefault]
  split
  · exact h
  · rename_i hnone
    rw [Tree.nodeAt_force (Option.not_isSome_iff_eq_none.mp hnone) h, ite_self]

theorem dict_stays_foldl (h : (Tree.dict migrated).nodeAt path = some .dict) :
    (Tree.dict (defaults.foldl injectDefault migrated)).nodeAt path = some .dict :=
  List.foldlRecOn defaults injectDefault
    (motive := fun migrated => (Tree.dict migrated).nodeAt path = some .dict) h
    fun _ hdict _ _ => dict_stays hdict

theorem keeps_injectDefault (h : (Tree.dict data).Keeps (.dict migrated))
    (hpass : (Tree.dict data).Passable (pathOf default.1)) :
    (Tree.dict data).Keeps (.dict (injectDefault migrated default)) := by
  rw [dict_injectDefault]
  split
  · exact h
  · rename_i hnone
    exact h.force (Option.not_isSome_iff_eq_none.mp hnone) hpass

-- The defaults keep everything exactly when dictionaries lead to their places.
theorem keeps_foldl_iff : (Tree.dict data).Keeps (.dict (defaults.foldl injectDefault data)) ↔
    ∀ default ∈ defaults, (Tree.dict data).Passable (pathOf default.1) := by
  constructor
  · intro h default hm front rest node hpath hne hnode
    obtain ⟨before, after, rfl⟩ := List.append_of_mem hm
    rw [List.foldl_append, List.foldl_cons] at h
    have hkept := h front node hnode
    have hsome := @at?_injectDefault_isSome α (before.foldl injectDefault data) default
    obtain ⟨sub, hsub⟩ := Option.isSome_iff_exists.mp hsome
    rw [hpath] at hsub
    rw [dict_stays_foldl (Tree.isDict_of_below hsub hne)] at hkept
    exact (Option.some.inj hkept).symm
  · intro hpass
    induction defaults using List.reverseRecOn with
    | nil => exact .refl _
    | append_singleton defaults default ih =>
        rw [List.foldl_concat]
        exact keeps_injectDefault (ih fun other hm => hpass other (List.mem_append_left _ hm))
          (hpass default (by simp))

end Defaults

end ConfigurationMigrator

end YasinCore.Compatibility
