import YasinCore.Compatibility.ConfigMigration

namespace YasinCore.Compatibility.ConfigurationMigrator

open YasinCore.Library

variable {α ε : Type}

-- Dictionaries lead to the path, unless its first key is renamed anyway.
def Reached (config : ConfigData α) (renames : List (String × String)) (path : Path) : Prop :=
  (∀ key ∈ path.head?, key ∉ renames.map Prod.fst) → (Tree.dict config).Passable path

-- A default goes into a value that has moved, or to a place that no value has moved above.
def DefaultReached (config : ConfigData α) (renames : List (String × String)) (path : Path) : Prop :=
  (∀ rename ∈ renames, ∀ value, Entries.lookup rename.1 config = some value →
    ∀ rest, path = pathOf rename.2 ++ rest → value.Passable rest) ∧
  ((∀ rename ∈ renames, (Entries.lookup rename.1 config).isSome →
    ∀ rest, path = pathOf rename.2 ++ rest → rest = []) → Reached config renames path)

-- No rename disturbs an earlier one, and nothing but dictionaries is in the way of a new path or a default.
structure Undisturbed (config : ConfigData α) (renames : List (String × String))
    (defaults : List (String × Tree α)) : Prop where
  inTurn : InTurn config renames
  reached : ∀ rename ∈ renames, (Entries.lookup rename.1 config).isSome →
    Reached config renames (pathOf rename.2)
  filled : ∀ default ∈ defaults, DefaultReached config renames (pathOf default.1)

-- What the renames make of a config, and the defaults of that. A value that has gone with a rename
-- does not count as found when a default puts the same there.
structure LosesNothing (config : ConfigData α) (renames : List (String × String))
    (renamed migrated : ConfigData α) : Prop where
  moved : ∀ rename ∈ renames, ∀ value, Entries.lookup rename.1 config = some value →
    (Tree.dict renamed).at? (pathOf rename.2) = some value
  others : ∀ key rest node, key ∉ renames.map Prod.fst →
    (∀ rename ∈ renames, (Entries.lookup rename.1 config).isSome → ¬pathOf rename.2 <+: key :: rest) →
    (Tree.dict config).nodeAt (key :: rest) = some node →
    (Tree.dict renamed).nodeAt (key :: rest) = some node
  added : (Tree.dict renamed).Keeps (.dict migrated)

section Outcome

variable {config migrated renamed : ConfigData α} {rename other : String × String}
  {renames : List (String × String)} {value : Tree α} {key : String} {path front rest : Path}

-- The values are in the result of the call as well.
theorem LosesNothing.found (h : LosesNothing config renames renamed migrated) (hm : rename ∈ renames)
    (hvalue : Entries.lookup rename.1 config = some value) {node : Tree.Node α}
    (hnode : value.nodeAt rest = some node) :
    (Tree.dict migrated).nodeAt (pathOf rename.2 ++ rest) = some node := by
  refine h.added _ _ ?_
  rw [Tree.nodeAt_append, h.moved rename hm value hvalue, Option.bind_some, hnode]

theorem Renamed.dict_above (h : Renamed config renames migrated) (hm : rename ∈ renames)
    (hsome : (Entries.lookup rename.1 config).isSome) (hpath : pathOf rename.2 = front ++ rest)
    (hne : rest ≠ []) : (Tree.dict migrated).nodeAt front = some .dict := by
  obtain ⟨value, hvalue⟩ := Option.isSome_iff_exists.mp hsome
  have hread := h.moved rename hm value hvalue
  rw [hpath] at hread
  exact Tree.isDict_of_below hread hne

theorem nodeAt_root : (Tree.dict config).nodeAt [] = some .dict := rfl

theorem Reached.eq_dict (h : Reached config renames path) (hkey : key ∉ renames.map Prod.fst)
    (hpath : key :: front ++ rest = path) (hne : rest ≠ []) {node : Tree.Node α}
    (hnode : (Tree.dict config).nodeAt (key :: front) = some node) : node = .dict := by
  refine h (fun first hfirst => ?_) _ _ node hpath.symm hne hnode
  rw [← hpath, List.cons_append, List.head?_cons, Option.mem_some_iff] at hfirst
  exact hfirst ▸ hkey

theorem Renamed.nodeAt_beside (h : Renamed config renames migrated)
    (hbelow : ∀ rename ∈ renames, (Entries.lookup rename.1 config).isSome →
      ¬pathOf rename.2 <+: key :: rest)
    (habove : ∀ rename ∈ renames, (Entries.lookup rename.1 config).isSome →
      ¬key :: rest <+: pathOf rename.2) :
    (Tree.dict migrated).nodeAt (key :: rest) =
      if key ∈ renames.map Prod.fst then none else (Tree.dict config).nodeAt (key :: rest) := by
  rw [Tree.nodeAt, h.beside key rest fun rename hm hsome =>
    ⟨hbelow rename hm hsome, habove rename hm hsome⟩]
  split
  · rfl
  · rfl

-- What is not renamed stays exactly when dictionaries lead to the new places.
theorem Renamed.others_iff (h : Renamed config renames migrated) (hapart : PrefixFree renames) :
    (∀ key rest node, key ∉ renames.map Prod.fst →
      (∀ rename ∈ renames, (Entries.lookup rename.1 config).isSome → ¬pathOf rename.2 <+: key :: rest) →
      (Tree.dict config).nodeAt (key :: rest) = some node →
      (Tree.dict migrated).nodeAt (key :: rest) = some node) ↔
    ∀ rename ∈ renames, (Entries.lookup rename.1 config).isSome →
      Reached config renames (pathOf rename.2) := by
  constructor
  · intro hothers rename hm hsome hhead front rest node hpath hne hnode
    cases front with
    | nil =>
        rw [nodeAt_root] at hnode
        exact (Option.some.inj hnode).symm
    | cons key front =>
        have hkey : key ∉ renames.map Prod.fst := hhead key (by rw [hpath]; rfl)
        have hkept := hothers key front node hkey ?_ hnode
        · rw [h.dict_above hm hsome hpath hne] at hkept
          exact (Option.some.inj hkept).symm
        · intro other hother _ hp
          have hwhole : key :: front <+: pathOf rename.2 := by
            rw [hpath]
            exact List.prefix_append _ _
          obtain rfl := hapart other hother rename hm (hp.trans hwhole)
          have hlength := hp.length_le
          rw [hpath, List.length_append] at hlength
          exact hne (List.length_eq_zero_iff.mp (by omega))
  · intro hreached key rest node hkey hbelow hnode
    by_cases habove : ∃ rename ∈ renames, (Entries.lookup rename.1 config).isSome ∧
        key :: rest <+: pathOf rename.2
    · obtain ⟨rename, hm, hsome, more, hpath⟩ := habove
      have hne : more ≠ [] := by
        rintro rfl
        rw [List.append_nil] at hpath
        exact hbelow rename hm hsome (hpath ▸ List.prefix_rfl)
      rw [(hreached rename hm hsome).eq_dict hkey hpath hne hnode]
      exact h.dict_above hm hsome hpath.symm hne
    · push Not at habove
      rw [h.nodeAt_beside hbelow habove, if_neg hkey]
      exact hnode

theorem Renamed.defaultReached (h : Renamed config renames migrated)
    (hreached : ∀ rename ∈ renames, (Entries.lookup rename.1 config).isSome →
      Reached config renames (pathOf rename.2))
    (hpass : (Tree.dict migrated).Passable path) : DefaultReached config renames path := by
  refine ⟨fun rename hm value hvalue rest hpath front more node hrest hne hnode => ?_,
    fun houtside hhead front rest node hpath hne hnode => ?_⟩
  · refine hpass (pathOf rename.2 ++ front) more node (by rw [hpath, hrest, List.append_assoc]) hne ?_
    rw [Tree.nodeAt_append, h.moved rename hm value hvalue, Option.bind_some, hnode]
  · cases front with
    | nil =>
        rw [nodeAt_root] at hnode
        exact (Option.some.inj hnode).symm
    | cons key front =>
        have hkey : key ∉ renames.map Prod.fst := hhead key (by rw [hpath]; rfl)
        by_cases habove : ∃ rename ∈ renames, (Entries.lookup rename.1 config).isSome ∧
            key :: front <+: pathOf rename.2
        · obtain ⟨rename, hm, hsome, more, hmore⟩ := habove
          have hmore' : more ≠ [] := by
            rintro rfl
            rw [List.append_nil] at hmore
            exact hne (houtside rename hm hsome rest (by rw [hpath, hmore]))
          exact (hreached rename hm hsome).eq_dict hkey hmore hmore' hnode
        · push Not at habove
          have hbelow : ∀ rename ∈ renames, (Entries.lookup rename.1 config).isSome →
              ¬pathOf rename.2 <+: key :: front := by
            rintro rename hm hsome ⟨more, hmore⟩
            have hrest := houtside rename hm hsome (more ++ rest) (by
              rw [hpath, ← hmore, List.append_assoc])
            exact hne (List.append_eq_nil_iff.mp hrest).2
          refine hpass (key :: front) rest node hpath hne ?_
          rw [h.nodeAt_beside hbelow habove, if_neg hkey]
          exact hnode

theorem Renamed.passable (h : Renamed config renames migrated)
    (hreached : DefaultReached config renames path) : (Tree.dict migrated).Passable path := by
  obtain ⟨hwithin, houtside⟩ := hreached
  intro front rest node hpath hne hnode
  cases front with
  | nil =>
      rw [nodeAt_root] at hnode
      exact (Option.some.inj hnode).symm
  | cons key front =>
      by_cases hbelow : ∃ rename ∈ renames, (Entries.lookup rename.1 config).isSome ∧
          pathOf rename.2 <+: key :: front
      · obtain ⟨rename, hm, hsome, more, hmore⟩ := hbelow
        obtain ⟨value, hvalue⟩ := Option.isSome_iff_exists.mp hsome
        rw [← hmore, Tree.nodeAt_append, h.moved rename hm value hvalue, Option.bind_some] at hnode
        exact hwithin rename hm value hvalue (more ++ rest) (by rw [hpath, ← hmore, List.append_assoc])
          more rest node rfl hne hnode
      by_cases habove : ∃ rename ∈ renames, (Entries.lookup rename.1 config).isSome ∧
          key :: front <+: pathOf rename.2
      · obtain ⟨rename, hm, hsome, more, hmore⟩ := habove
        have hmore' : more ≠ [] := by
          rintro rfl
          rw [List.append_nil] at hmore
          exact hbelow ⟨rename, hm, hsome, hmore ▸ List.prefix_rfl⟩
        rw [h.dict_above hm hsome hmore.symm hmore'] at hnode
        exact (Option.some.inj hnode).symm
      · push Not at hbelow habove
        rw [h.nodeAt_beside hbelow habove] at hnode
        by_cases hkey : key ∈ renames.map Prod.fst
        · rw [if_pos hkey] at hnode
          cases hnode
        · rw [if_neg hkey] at hnode
          refine houtside (fun rename hm hsome more hmore => ?_) (fun first hfirst => ?_)
            (key :: front) rest node hpath hne hnode
          · have hcompare := List.prefix_or_prefix_of_prefix
              (hpath ▸ List.prefix_append (key :: front) rest) (hmore ▸ List.prefix_append _ more)
            exact (hcompare.elim (habove rename hm hsome) (hbelow rename hm hsome)).elim
          · rw [hpath, List.cons_append, List.head?_cons, Option.mem_some_iff] at hfirst
            exact hfirst ▸ hkey

-- Where a default meets what the renames have left
theorem Renamed.passable_iff (h : Renamed config renames migrated)
    (hreached : ∀ rename ∈ renames, (Entries.lookup rename.1 config).isSome →
      Reached config renames (pathOf rename.2)) :
    (Tree.dict migrated).Passable path ↔ DefaultReached config renames path :=
  ⟨h.defaultReached hreached, h.passable⟩

end Outcome

-- Nothing is lost exactly when the renames and the defaults do not disturb anything.
theorem migration_loses_nothing_iff (config : ConfigData α) (renames : Dict String String)
    (defaults : Dict String (Tree α)) (hapart : PrefixFree renames.entries) :
    (∃ renamed migrated : ConfigData α,
      (migrateConfig config (some renames) none none : Except ε (ConfigData α)) = .ok renamed ∧
      (migrateConfig config (some renames) (some defaults) none : Except ε (ConfigData α)) = .ok migrated ∧
      LosesNothing config renames.entries renamed migrated) ↔
    Undisturbed config renames.entries defaults.entries := by
  have hresult : (∃ renamed migrated : ConfigData α,
      (migrateConfig config (some renames) none none : Except ε (ConfigData α)) = .ok renamed ∧
      (migrateConfig config (some renames) (some defaults) none : Except ε (ConfigData α)) = .ok migrated ∧
      LosesNothing config renames.entries renamed migrated) ↔
      LosesNothing config renames.entries (renames.entries.foldl renameKey config)
        (defaults.entries.foldl injectDefault (renames.entries.foldl renameKey config)) := by
    constructor
    · rintro ⟨renamed, migrated, hrenamed, hmigrated, h⟩
      obtain rfl := Except.ok.inj hrenamed
      obtain rfl := Except.ok.inj hmigrated
      exact h
    · exact fun h => ⟨_, _, rfl, rfl, h⟩
  rw [hresult]
  rcases foldl_renameKey renames.nodup hapart with ⟨hin, hrenamed⟩ | ⟨hout, rename, hm, hsome, hnone⟩
  · constructor
    · intro h
      have hreached := (hrenamed.others_iff hapart).mp h.others
      exact ⟨hin, hreached, fun default hm =>
        (hrenamed.passable_iff hreached).mp (keeps_foldl_iff.mp h.added default hm)⟩
    · intro h
      exact ⟨hrenamed.moved, (hrenamed.others_iff hapart).mpr h.reached,
        keeps_foldl_iff.mpr fun default hm =>
          (hrenamed.passable_iff h.reached).mpr (h.filled default hm)⟩
  · refine iff_of_false (fun h => ?_) fun h => hout h.inTurn
    obtain ⟨value, hvalue⟩ := Option.isSome_iff_exists.mp hsome
    rw [h.moved rename hm value hvalue] at hnone
    cases hnone

theorem passable_of_new {config : ConfigData α} {key : String} {path : Path}
    (h : Entries.lookup key config = none) : (Tree.dict config).Passable (key :: path) := by
  intro front rest node hpath _ hnode
  cases front with
  | nil =>
      rw [nodeAt_root] at hnode
      exact (Option.some.inj hnode).symm
  | cons first front =>
      obtain ⟨rfl, -⟩ := List.cons.inj hpath
      rw [Tree.nodeAt, Tree.at?_cons, Tree.child, h] at hnode
      cases hnode

namespace Sample

def config : ConfigData String := [("old_db_host", .leaf "localhost")]

def renames : Dict String String := ⟨[("old_db_host", "database.host")], by decide⟩

def defaults : Dict String (Tree String) := ⟨[("database.port", .leaf "5432")], by decide⟩

theorem pathOf_host : pathOf "database.host" = ["database", "host"] := by decide +kernel

theorem pathOf_port : pathOf "database.port" = ["database", "port"] := by decide +kernel

end Sample

theorem migration_loses_nothing_iff_host : ∃ renamed migrated : ConfigData String,
    (migrateConfig Sample.config (some Sample.renames) none none : Except String _) = .ok renamed ∧
    (migrateConfig Sample.config (some Sample.renames) (some Sample.defaults) none :
      Except String _) = .ok migrated ∧
    LosesNothing Sample.config Sample.renames.entries renamed migrated := by
  have hapart : PrefixFree Sample.renames.entries := by
    intro rename hm other hother _
    rw [List.mem_singleton.mp hm, List.mem_singleton.mp hother]
  refine (migration_loses_nothing_iff Sample.config Sample.renames Sample.defaults hapart).mpr ?_
  refine ⟨List.pairwise_singleton _ _, fun rename hm _ _ => ?_, fun default hm => ⟨?_, fun _ _ => ?_⟩⟩
  · obtain rfl := List.mem_singleton.mp hm
    rw [Sample.pathOf_host]
    exact passable_of_new rfl
  · obtain rfl := List.mem_singleton.mp hm
    intro rename hm' value _ rest hpath
    obtain rfl := List.mem_singleton.mp hm'
    rw [Sample.pathOf_host, Sample.pathOf_port] at hpath
    simp at hpath
  · obtain rfl := List.mem_singleton.mp hm
    rw [Sample.pathOf_port]
    exact passable_of_new rfl

-- The first rename of a swap overwrites what the second one should move.
theorem swap_loses_value : ¬∀ (config : ConfigData Nat) (renames : Dict String String)
    (defaults : Dict String (Tree Nat)), PrefixFree renames.entries → ∃ renamed migrated : ConfigData Nat,
      (migrateConfig config (some renames) none none : Except String _) = .ok renamed ∧
      (migrateConfig config (some renames) (some defaults) none : Except String _) = .ok migrated ∧
      LosesNothing config renames.entries renamed migrated := by
  intro h
  have hapart : PrefixFree [("a", "b"), ("b", "a")] := by
    unfold PrefixFree
    decide +kernel
  obtain ⟨renamed, migrated, hrenamed, -, hnothing⟩ :=
    h [("a", .leaf 1), ("b", .leaf 2)] ⟨[("a", "b"), ("b", "a")], by decide⟩ .empty hapart
  obtain rfl := Except.ok.inj hrenamed
  have hmoved := hnothing.moved ("b", "a") (by decide) (.leaf 2) rfl
  have hpath : pathOf "a" = ["a"] := by decide +kernel
  rw [hpath] at hmoved
  cases hmoved

end YasinCore.Compatibility.ConfigurationMigrator
