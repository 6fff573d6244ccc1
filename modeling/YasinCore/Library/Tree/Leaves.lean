import YasinCore.Library.Tree.Writes

namespace YasinCore.Library.Tree

variable {α : Type}

mutual

-- What is no dictionary, with the paths that lead to it. Empty dictionaries leave no trace.
def leafPaths : Tree α → List (Write α)
  | .dict entries => leafEntries entries
  | tree => [([], tree)]

def leafEntries : List (String × Tree α) → List (Write α)
  | [] => []
  | (key, value) :: rest =>
      (leafPaths value).map (fun leaf => (key :: leaf.1, leaf.2)) ++ leafEntries rest

end

section Paths

variable {tree value : Tree α} {path : Path}

theorem leafPaths_of_not_isDict (h : ¬tree.IsDict) : leafPaths tree = [([], tree)] := by
  cases tree with
  | null => rfl
  | leaf _ => rfl
  | dict _ => exact absurd trivial h

theorem mem_leafEntries {entries : List (String × Tree α)} : (path, value) ∈ leafEntries entries ↔
    ∃ key rest sub, path = key :: rest ∧ (key, sub) ∈ entries ∧ (rest, value) ∈ leafPaths sub := by
  induction entries with
  | nil => exact iff_of_false List.not_mem_nil fun ⟨_, _, _, _, hm, _⟩ => List.not_mem_nil hm
  | cons entry entries ih =>
      rw [leafEntries, List.mem_append, ih, List.mem_map]
      constructor
      · rintro (⟨⟨rest, found⟩, hleaf, he⟩ | ⟨key, rest, sub, hp, hm, hleaf⟩)
        · obtain ⟨rfl, rfl⟩ := Prod.mk.inj he
          exact ⟨entry.1, rest, entry.2, rfl, List.mem_cons_self, hleaf⟩
        · exact ⟨key, rest, sub, hp, List.mem_cons_of_mem _ hm, hleaf⟩
      · rintro ⟨key, rest, sub, rfl, hm, hleaf⟩
        rcases List.mem_cons.mp hm with rfl | hm
        · exact .inl ⟨(rest, value), hleaf, rfl⟩
        · exact .inr ⟨key, rest, sub, rfl, hm, hleaf⟩

theorem mem_leafPaths (h : tree.Proper) :
    (path, value) ∈ leafPaths tree ↔ tree.at? path = some value ∧ ¬value.IsDict := by
  induction path generalizing tree with
  | nil =>
      rw [at?_nil, Option.some.injEq]
      by_cases hd : tree.IsDict
      · refine iff_of_false ?_ fun ⟨he, hn⟩ => hn (he ▸ hd)
        cases tree with
        | null => exact hd.elim
        | leaf _ => exact hd.elim
        | dict entries =>
            rw [leafPaths, mem_leafEntries]
            rintro ⟨_, _, _, he, -⟩
            cases he
      · rw [leafPaths_of_not_isDict hd, List.mem_singleton, Prod.mk.injEq]
        constructor
        · rintro ⟨-, rfl⟩
          exact ⟨rfl, hd⟩
        · rintro ⟨rfl, -⟩
          exact ⟨rfl, rfl⟩
  | cons key path ih =>
      by_cases hd : tree.IsDict
      · cases tree with
        | null => exact hd.elim
        | leaf _ => exact hd.elim
        | dict entries =>
            rw [leafPaths, mem_leafEntries, at?_cons, child]
            constructor
            · rintro ⟨other, rest, sub, he, hm, hleaf⟩
              obtain ⟨rfl, rfl⟩ := List.cons.inj he
              have hlookup := Entries.lookup_of_mem h.1 hm
              rw [hlookup, Option.bind_some]
              exact (ih (proper_of_lookup h.2 hlookup)).mp hleaf
            · rintro ⟨hp, hn⟩
              obtain ⟨sub, hlookup, hsub⟩ := Option.bind_eq_some_iff.mp hp
              refine ⟨key, path, sub, rfl, Entries.mem_of_lookup hlookup, ?_⟩
              exact (ih (proper_of_lookup h.2 hlookup)).mpr ⟨hsub, hn⟩
      · rw [leafPaths_of_not_isDict hd, at?_of_not_isDict hd (List.cons_ne_nil _ _)]
        simp

mutual

-- No path is listed twice.
theorem nodup_leafPaths : (tree : Tree α) → tree.Proper → ((leafPaths tree).map Prod.fst).Nodup
  | .null, _ | .leaf _, _ => List.nodup_singleton _
  | .dict entries, h => nodup_leafEntries entries h.1 h.2

theorem nodup_leafEntries : (entries : List (String × Tree α)) → (entries.map Prod.fst).Nodup →
    ProperEntries entries → ((leafEntries entries).map Prod.fst).Nodup
  | [], _, _ => List.nodup_nil
  | (key, value) :: rest, hn, hp => by
      obtain ⟨hnot, hrest⟩ := List.nodup_cons.mp hn
      have hbelow : ((leafPaths value).map fun leaf => key :: leaf.1).Nodup := by
        have hpaths := (nodup_leafPaths value hp.1).map (List.cons_injective (a := key))
        rwa [List.map_map] at hpaths
      rw [leafEntries, List.map_append, List.map_map]
      refine List.nodup_append.mpr ⟨hbelow, nodup_leafEntries rest hrest hp.2, ?_⟩
      rintro path hpath other hother rfl
      obtain ⟨leaf, -, rfl⟩ := List.mem_map.mp hpath
      obtain ⟨⟨_, found⟩, hleaf, rfl⟩ := List.mem_map.mp hother
      obtain ⟨other, below, sub, he, hm, -⟩ := mem_leafEntries.mp hleaf
      obtain ⟨rfl, -⟩ := List.cons.inj he
      exact hnot (List.mem_map.mpr ⟨_, hm, rfl⟩)

end

-- No leaf lies below another one.
theorem eq_of_leaf_prefix {front : Path} {found : Tree α} (h : tree.at? front = some found)
    (hn : ¬found.IsDict) (hp : tree.at? path = some value) (hpre : front <+: path) :
    path = front ∧ value = found := by
  obtain ⟨rest, rfl⟩ := hpre
  rw [at?_append, h, Option.bind_some] at hp
  cases rest with
  | nil =>
      rw [at?_nil] at hp
      exact ⟨List.append_nil _, (Option.some.inj hp).symm⟩
  | cons key rest =>
      rw [at?_of_not_isDict hn (List.cons_ne_nil _ _)] at hp
      cases hp

end Paths

section Writing

variable {tree base : Tree α} {place : Path}

-- Nothing is in the way of the leaves that are going to be written below a place.
def Open (place : Path) (tree base : Tree α) : Prop :=
  ∀ leaf ∈ leafPaths tree, ∀ above rest sub, place ++ leaf.1 = above ++ rest → rest ≠ [] →
    base.at? above = some sub → sub.IsDict

theorem open_of_free (hnone : base.at? place = none)
    (habove : ∀ above rest sub, place = above ++ rest → rest ≠ [] → base.at? above = some sub →
      sub.IsDict) : Open place tree base := by
  intro leaf _ above rest sub he hr hs
  rcases List.append_eq_append_iff.mp he with ⟨more, rfl, -⟩ | ⟨more, hplace, -⟩
  · rw [at?_append, hnone] at hs
    cases hs
  · cases more with
    | nil =>
        rw [List.append_nil] at hplace
        rw [← hplace, hnone] at hs
        cases hs
    | cons key more => exact habove above _ sub hplace (List.cons_ne_nil key more) hs

-- One leaf is written: the way of the others stays open, they keep their values, and what is neither
-- above nor below the place stays.
theorem put_leaf (ht : tree.Proper) (hopen : Open place tree base) {leaf : Write α}
    (hleaf : leaf ∈ leafPaths tree) : ∃ base', put leaf.2 (some base) (place ++ leaf.1) = some base' ∧
      Open place tree base' ∧ base'.at? (place ++ leaf.1) = some leaf.2 ∧
      (∀ other ∈ leafPaths tree, base.at? (place ++ other.1) = some other.2 →
        base'.at? (place ++ other.1) = some other.2) ∧
      ∀ path, ¬place <+: path → ¬path <+: place → base'.at? path = base.at? path := by
  have hsome : (put leaf.2 (some base) (place ++ leaf.1)).isSome :=
    put_isSome_iff.mpr fun above rest sub he hr hs => hopen leaf hleaf above rest sub he hr hs
  obtain ⟨base', hput⟩ := Option.isSome_iff_exists.mp hsome
  obtain ⟨hat, hn⟩ := (mem_leafPaths ht).mp hleaf
  have hself : base'.at? (place ++ leaf.1) = some leaf.2 := by
    have hread := at?_put_below hput []
    rwa [List.append_nil, at?_nil] at hread
  -- A leaf on the way to another one is that other one.
  have hsame {other : Write α} (ho : other ∈ leafPaths tree)
      (hpre : place ++ leaf.1 <+: place ++ other.1) : other = leaf := by
    obtain ⟨hat', -⟩ := (mem_leafPaths ht).mp ho
    obtain ⟨hpath, hvalue⟩ :=
      eq_of_leaf_prefix hat hn hat' ((List.prefix_append_right_inj place).mp hpre)
    exact Prod.ext hpath hvalue
  refine ⟨base', hput, ?_, hself, ?_, ?_⟩
  · intro other ho above rest sub he hr hs
    by_cases hbelow : place ++ leaf.1 <+: above
    · have hother := hsame ho (hbelow.trans ⟨rest, he.symm⟩)
      rw [hother] at he
      have hlength : (place ++ leaf.1).length = above.length + rest.length := by
        rw [he, List.length_append]
      have hle := hbelow.length_le
      have hpos := List.length_pos_of_ne_nil hr
      omega
    by_cases hover : above <+: place ++ leaf.1
    · obtain ⟨more, hmore⟩ := hover
      have hne : more ≠ [] := by
        rintro rfl
        exact hbelow ⟨[], by rw [← hmore, List.append_nil, List.append_nil]⟩
      have hdict := nodeAt_put_above (hmore.symm ▸ hput) hne
      rw [nodeAt, hs, Option.map_some, Option.some.injEq] at hdict
      exact isDict_iff.mpr hdict
    · rw [at?_put_beside hput (fun more hm => hbelow ⟨more, hm.symm⟩)
        fun more hm => hover ⟨more, hm.symm⟩] at hs
      exact hopen other ho above rest sub he hr hs
  · intro other ho hvalue
    by_cases hbelow : place ++ leaf.1 <+: place ++ other.1
    · rw [hsame ho hbelow, hself]
    by_cases hover : place ++ other.1 <+: place ++ leaf.1
    · obtain ⟨hat', hn'⟩ := (mem_leafPaths ht).mp ho
      obtain ⟨hpath, -⟩ :=
        eq_of_leaf_prefix hat' hn' hat ((List.prefix_append_right_inj place).mp hover)
      exact absurd ⟨[], by rw [hpath, List.append_nil]⟩ hbelow
    · rw [at?_put_beside hput (fun more hm => hbelow ⟨more, hm.symm⟩)
        fun more hm => hover ⟨more, hm.symm⟩]
      exact hvalue
  · intro path hplace hpath
    refine at?_put_beside hput (fun rest he => hplace ?_) fun rest he => ?_
    · exact ⟨leaf.1 ++ rest, by rw [he, List.append_assoc]⟩
    · rcases List.prefix_or_prefix_of_prefix (List.prefix_append place leaf.1) ⟨rest, he.symm⟩ with
        hp | hp
      · exact hplace hp
      · exact hpath hp

-- All leaves of a tree are written below a place: they are there then, and the rest stays.
theorem putAll_leafPaths (ht : tree.Proper) (hopen : Open place tree base) :
    ∃ base', putAll ((leafPaths tree).map fun leaf => (place ++ leaf.1, leaf.2)) base = some base' ∧
      (∀ leaf ∈ leafPaths tree, base'.at? (place ++ leaf.1) = some leaf.2) ∧
      ∀ path, ¬place <+: path → ¬path <+: place → base'.at? path = base.at? path := by
  suffices hrun : ∀ (writes : List (Write α)) (base : Tree α), (∀ leaf ∈ writes, leaf ∈ leafPaths tree) →
      Open place tree base →
      ∃ base', putAll (writes.map fun leaf => (place ++ leaf.1, leaf.2)) base = some base' ∧
        (∀ leaf ∈ leafPaths tree, leaf ∈ writes ∨ base.at? (place ++ leaf.1) = some leaf.2 →
          base'.at? (place ++ leaf.1) = some leaf.2) ∧
        ∀ path, ¬place <+: path → ¬path <+: place → base'.at? path = base.at? path by
    obtain ⟨base', hall, hread, hbeside⟩ := hrun (leafPaths tree) base (fun _ => id) hopen
    exact ⟨base', hall, fun leaf hl => hread leaf hl (.inl hl), hbeside⟩
  intro writes
  induction writes with
  | nil =>
      intro base _ _
      refine ⟨base, rfl, fun leaf _ h => ?_, fun _ _ _ => rfl⟩
      exact h.resolve_left List.not_mem_nil
  | cons first writes ih =>
      intro base hw hopen
      obtain ⟨hfirst, hrest⟩ := List.forall_mem_cons.mp hw
      obtain ⟨mid, hput, hopen', hself, hkept, hbeside⟩ := put_leaf ht hopen hfirst
      obtain ⟨base', hall, hread, hbeside'⟩ := ih mid hrest hopen'
      refine ⟨base', ?_, fun leaf hl h => hread leaf hl ?_, fun path hp hq => ?_⟩
      · have hstep : putAll ((first :: writes).map fun leaf => (place ++ leaf.1, leaf.2)) base =
            (put first.2 (some base) (place ++ first.1)).bind
              (putAll (writes.map fun leaf => (place ++ leaf.1, leaf.2))) := rfl
        rw [hstep, hput, Option.bind_some, hall]
      · rcases h with hm | hbase
        · rcases List.mem_cons.mp hm with rfl | hm
          · exact .inr hself
          · exact .inl hm
        · exact .inr (hkept leaf hl hbase)
      · rw [hbeside' path hp hq, hbeside path hp hq]

end Writing

end YasinCore.Library.Tree
