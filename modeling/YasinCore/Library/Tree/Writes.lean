import YasinCore.Library.Tree
import Mathlib.Data.List.Induction

namespace YasinCore.Library.Tree

variable {α : Type}

-- What stands at a place, without what is below it.
inductive Node (α : Type)
  | null
  | leaf (value : α)
  | dict
  deriving DecidableEq

def node : Tree α → Node α
  | .null => .null
  | .leaf value => .leaf value
  | .dict _ => .dict

def nodeAt (tree : Tree α) (path : Path) : Option (Node α) := (tree.at? path).map node

-- Two trees with the same at every path; the order of the entries is not looked at.
def Same (first second : Tree α) : Prop := ∀ path, first.nodeAt path = second.nodeAt path

abbrev Write (α : Type) := Path × Tree α

-- The writes one after another; none is the failure of one of them.
def putAll (writes : List (Write α)) (tree : Tree α) : Option (Tree α) :=
  writes.foldlM (fun tree written => put written.2 (some tree) written.1) tree

-- Where the second write goes into the value of the first one, it finds its own value there.
def Fits (first second : Write α) : Prop :=
  ∀ rest, second.1 = first.1 ++ rest →
    ∃ sub, first.2.at? rest = some sub ∧ sub.Same second.2

-- What one of the writes puts at a path, into its value or above it.
def Puts (writes : List (Write α)) (path : Path) (found : Node α) : Prop :=
  ∃ written ∈ writes, (∃ rest, path = written.1 ++ rest ∧ written.2.nodeAt rest = some found) ∨
    ∃ rest, rest ≠ [] ∧ written.1 = path ++ rest ∧ found = .dict

-- The same with the dictionary into which everything is written.
def Builds (writes : List (Write α)) (path : Path) (found : Node α) : Prop :=
  path = [] ∧ found = .dict ∨ Puts writes path found

section Nodes

variable {tree sub : Tree α} {path rest : Path}

theorem isDict_iff : tree.IsDict ↔ tree.node = .dict := by
  cases tree <;> simp [IsDict, node]

theorem nodeAt_append : tree.nodeAt (path ++ rest) = (tree.at? path).bind fun sub => sub.nodeAt rest := by
  unfold nodeAt
  rw [at?_append, Option.map_bind]
  rfl

theorem nodeAt_nil : tree.nodeAt [] = some tree.node := by
  rw [nodeAt, at?_nil, Option.map_some]

theorem Same.symm {first second : Tree α} (h : first.Same second) : second.Same first :=
  fun path => (h path).symm

theorem Same.trans {first second third : Tree α} (h : first.Same second) (h' : second.Same third) :
    first.Same third := fun path => (h path).trans (h' path)

-- Above anything there is a dictionary.
theorem isDict_of_below (h : tree.at? (path ++ rest) = some sub) (hne : rest ≠ []) :
    tree.nodeAt path = some .dict := by
  rw [at?_append] at h
  obtain ⟨above, habove, hsub⟩ := Option.bind_eq_some_iff.mp h
  rw [nodeAt, habove, Option.map_some, Option.some.injEq, ← isDict_iff]
  by_contra hd
  rw [at?_of_not_isDict hd hne] at hsub
  cases hsub

end Nodes

section Put

variable {value tree : Tree α} {old : Option (Tree α)} {written : Path}

-- A write fails exactly at something above its place that is no dictionary.
theorem put_isSome_iff : (put value old written).isSome ↔ ∀ path rest sub, written = path ++ rest →
    rest ≠ [] → (old.bind fun tree => tree.at? path) = some sub → sub.IsDict := by
  induction written generalizing old with
  | nil =>
      refine iff_of_true (by cases old <;> rfl) fun path rest sub he hr => ?_
      exact absurd (List.append_eq_nil_iff.mp he.symm).2 hr
  | cons key written ih =>
      have hroot : (∀ path rest sub, key :: written = path ++ rest → rest ≠ [] →
          (old.bind fun tree => tree.at? path) = some sub → sub.IsDict) ↔
          (∀ tree, old = some tree → tree.IsDict) ∧ ∀ path rest sub, written = path ++ rest →
            rest ≠ [] → (old.bind fun tree => tree.at? (key :: path)) = some sub → sub.IsDict := by
        constructor
        · refine fun h => ⟨fun tree ht => h [] _ tree rfl (List.cons_ne_nil _ _) ?_, ?_⟩
          · rw [ht, Option.bind_some, at?_nil]
          · exact fun path rest sub he => h (key :: path) rest sub (congrArg (key :: ·) he)
        · rintro ⟨htop, hbelow⟩ path rest sub he hr hs
          cases path with
          | nil =>
              refine htop sub ?_
              simpa using hs
          | cons other path =>
              obtain ⟨rfl, hrest⟩ := List.cons.inj he
              exact hbelow path rest sub hrest hr hs
      rw [hroot]
      cases old with
      | none =>
          rw [put, Option.isSome_map, ih]
          simp
      | some tree =>
          cases tree with
          | null => exact iff_of_false nofun fun h => h.1 _ rfl
          | leaf _ => exact iff_of_false nofun fun h => h.1 _ rfl
          | dict entries =>
              rw [put, Option.isSome_map, ih]
              simp only [Option.some.injEq, forall_eq', Option.bind_some]
              exact (and_iff_right trivial).symm

-- The written value and everything below it.
theorem at?_put_below (h : put value old written = some tree) (rest : Path) :
    tree.at? (written ++ rest) = value.at? rest := by
  rw [at?_put h, track, if_pos (List.prefix_append _ _)]
  simp

-- Above the written value there are dictionaries, and everything else stays.
theorem nodeAt_put_above {path rest : Path} (h : put value old (path ++ rest) = some tree)
    (hne : rest ≠ []) : tree.nodeAt path = some .dict := by
  have hread := at?_put_below h []
  rw [List.append_nil, at?_nil] at hread
  exact isDict_of_below hread hne

theorem at?_put_beside {path : Path} (h : put value old written = some tree)
    (hbelow : ∀ rest, path ≠ written ++ rest) (habove : ∀ rest, written ≠ path ++ rest) :
    tree.at? path = old.bind fun tree => tree.at? path := by
  rw [at?_put h, track, if_neg, if_neg]
  · rintro ⟨rest, he⟩
    exact habove rest he.symm
  · rintro ⟨rest, he⟩
    exact hbelow rest he.symm

theorem dict_of_put (hne : written ≠ []) (h : put value old written = some tree) :
    ∃ entries, tree = .dict entries := by
  have hroot : tree.nodeAt [] = some .dict := nodeAt_put_above h hne
  rw [nodeAt_nil, Option.some.injEq] at hroot
  cases tree with
  | null => cases hroot
  | leaf _ => cases hroot
  | dict entries => exact ⟨entries, rfl⟩

-- What an update makes of a path is not changed by a write beside the path.
theorem overlay_put_beside {path : Path} {upper upper' : Tree α}
    (h : put value (some upper) written = some upper') (hbelow : ¬path <+: written)
    (habove : ¬written <+: path) (lower : Option (Tree α)) :
    overlay path upper' lower = overlay path upper lower := by
  -- The way may end at a key of its own, so nothing needs to be there before the write.
  suffices hway : ∀ (before : Option (Tree α)) {after : Tree α}, put value before written = some after →
      overlay path after lower = before.elim lower fun upper => overlay path upper lower from
    hway (some upper) h
  clear h
  induction path generalizing written with
  | nil => exact absurd List.nil_prefix hbelow
  | cons key path ih =>
      cases written with
      | nil => exact absurd List.nil_prefix habove
      | cons other written =>
          intro before after hput
          obtain ⟨entries, rfl⟩ := dict_of_put (List.cons_ne_nil _ _) hput
          obtain ⟨sub, hsub, hchild⟩ := put_cons hput
          have hlookup : Library.Entries.lookup key entries = _ := hchild key
          have hbefore : (before.bind fun tree => tree.child key).elim lower
              (fun sub => overlay path sub lower) =
                before.elim lower fun upper => overlay (key :: path) upper lower := by
            cases before with
            | none => rfl
            | some upper =>
                cases upper with
                | null => cases hput
                | leaf _ => cases hput
                | dict base =>
                    simp only [Option.bind_some, Option.elim_some, overlay, child]
                    cases Library.Entries.lookup key base <;> rfl
          rw [← hbefore, overlay, hlookup]
          by_cases he : key = other
          · subst he
            rw [if_pos rfl]
            exact ih (fun hp => hbelow (List.cons_prefix_cons.mpr ⟨rfl, hp⟩))
              (fun hp => habove (List.cons_prefix_cons.mpr ⟨rfl, hp⟩)) _ hsub
          · rw [if_neg he]
            cases before.bind fun tree => tree.child key <;> rfl

-- Two writes fit when the same comes out of them, whichever of the two is the last one.
theorem fits_of_same {first second : Write α} {old old' : Option (Tree α)} {tree tree' : Tree α}
    (h : put first.2 old first.1 = some tree) (h' : put second.2 old' second.1 = some tree')
    (hsame : tree.Same tree') : Fits first second := by
  intro rest he
  have hnode (more : Path) : (first.2.at? rest).bind (fun sub => sub.nodeAt more) =
      second.2.nodeAt more := by
    have hread := hsame (second.1 ++ more)
    rw [nodeAt, nodeAt, at?_put_below h', he, List.append_assoc, at?_put_below h] at hread
    rw [← nodeAt_append]
    exact hread
  have hroot := hnode []
  rw [nodeAt_nil] at hroot
  obtain ⟨sub, hsub, -⟩ := Option.bind_eq_some_iff.mp hroot
  refine ⟨sub, hsub, fun more => ?_⟩
  have hmore := hnode more
  rwa [hsub, Option.bind_some] at hmore

theorem putAll_concat {writes : List (Write α)} {last : Write α} :
    putAll (writes ++ [last]) tree =
      (putAll writes tree).bind fun tree => put last.2 (some tree) last.1 := by
  have hsplit : putAll (writes ++ [last]) tree =
      (putAll writes tree).bind fun tree => putAll [last] tree := List.foldlM_append
  rw [hsplit]
  refine congrArg _ (funext fun sub => ?_)
  cases hput : put last.2 (some sub) last.1 <;> simp [putAll, hput]

theorem proper_putAll {writes : List (Write α)} {tree' : Tree α}
    (hw : ∀ written ∈ writes, written.2.Proper) (ht : tree.Proper)
    (h : putAll writes tree = some tree') : tree'.Proper := by
  induction writes generalizing tree with
  | nil => exact Option.some.inj h ▸ ht
  | cons written writes ih =>
      obtain ⟨mid, hput, hrest⟩ := Option.bind_eq_some_iff.mp h
      refine ih (fun other ho => hw other (List.mem_cons_of_mem _ ho)) ?_ hrest
      exact proper_put (hw written List.mem_cons_self) (fun sub hs => Option.some.inj hs ▸ ht) hput

theorem fits_of_swap {writes : List (Write α)} {first second : Write α} {tree' tree'' : Tree α}
    (h : putAll (writes ++ [first, second]) tree = some tree')
    (h' : putAll (writes ++ [second, first]) tree = some tree'') (hsame : tree'.Same tree'') :
    Fits first second ∧ Fits second first := by
  rw [List.append_cons, putAll_concat] at h h'
  obtain ⟨mid, -, hsecond⟩ := Option.bind_eq_some_iff.mp h
  obtain ⟨mid', -, hfirst⟩ := Option.bind_eq_some_iff.mp h'
  exact ⟨fits_of_same hfirst hsecond hsame.symm, fits_of_same hsecond hfirst hsame⟩

end Put

section Fits

variable {writes : List (Write α)} {written : Write α} {tree : Tree α} {found : Node α}

-- Writes that fit put nothing but dictionaries above one another.
theorem eq_dict_of_above {path rest : Path} (hfits : ∀ other ∈ writes, Fits other written)
    (he : written.1 = path ++ rest) (hne : rest ≠ []) (hb : Builds writes path found) :
    found = .dict := by
  rcases hb with ⟨-, hd⟩ | ⟨other, ho, ⟨deep, hpath, hfound⟩ | ⟨-, -, -, hd⟩⟩
  · exact hd
  · obtain ⟨sub, hsub, -⟩ := hfits other ho (deep ++ rest) (by rw [he, hpath, List.append_assoc])
    have hdict := isDict_of_below hsub hne
    rw [hfound] at hdict
    exact Option.some.inj hdict
  · exact hd

-- What they put into the value of one another is there already.
theorem nodeAt_of_within {rest : Path} (hne : written.1 ≠ [])
    (hfits : ∀ other ∈ writes, Fits other written ∧ Fits written other)
    (hb : Builds writes (written.1 ++ rest) found) : written.2.nodeAt rest = some found := by
  rcases hb with ⟨he, -⟩ | ⟨other, ho, ⟨deep, hpath, hfound⟩ | ⟨above, hne', hpath, rfl⟩⟩
  · exact absurd (List.append_eq_nil_iff.mp he).1 hne
  · obtain ⟨hother, hwritten⟩ := hfits other ho
    rcases List.append_eq_append_iff.mp hpath with ⟨more, he, hrest⟩ | ⟨more, he, hdeep⟩
    · obtain ⟨sub, hsub, hsame⟩ := hwritten more he
      rw [hrest, nodeAt_append, hsub, Option.bind_some, hsame, hfound]
    · obtain ⟨sub, hsub, hsame⟩ := hother more he
      rw [hdeep, nodeAt_append, hsub, Option.bind_some, hsame] at hfound
      exact hfound
  · obtain ⟨sub, hsub, -⟩ := (hfits other ho).2 (rest ++ above) (by rw [hpath, List.append_assoc])
    exact isDict_of_below hsub hne'

theorem builds_append {path : Path} : Builds (writes ++ [written]) path found ↔
    Builds writes path found ∨ (∃ rest, path = written.1 ++ rest ∧ written.2.nodeAt rest = some found) ∨
      ∃ rest, rest ≠ [] ∧ written.1 = path ++ rest ∧ found = .dict := by
  unfold Builds Puts
  constructor
  · rintro (hroot | ⟨other, ho, hputs⟩)
    · exact .inl (.inl hroot)
    · rcases List.mem_append.mp ho with ho | ho
      · exact .inl (.inr ⟨other, ho, hputs⟩)
      · obtain rfl := List.mem_singleton.mp ho
        exact .inr hputs
  · rintro ((hroot | ⟨other, ho, hputs⟩) | hputs)
    · exact .inl hroot
    · exact .inr ⟨other, List.mem_append_left _ ho, hputs⟩
    · exact .inr ⟨written, List.mem_append_right _ List.mem_cons_self, hputs⟩

-- One more write that fits all those before it.
theorem builds_put (htree : ∀ path found, tree.nodeAt path = some found ↔ Builds writes path found)
    (hfits : ∀ other ∈ writes, Fits other written ∧ Fits written other) (hne : written.1 ≠ []) :
    ∃ tree', put written.2 (some tree) written.1 = some tree' ∧
      ∀ path found, tree'.nodeAt path = some found ↔ Builds (writes ++ [written]) path found := by
  have habove {path rest : Path} {found : Node α} (he : written.1 = path ++ rest) (hr : rest ≠ []) :
      Builds writes path found → found = .dict :=
    eq_dict_of_above (fun other ho => (hfits other ho).1) he hr
  have hsome : (put written.2 (some tree) written.1).isSome := by
    refine put_isSome_iff.mpr fun path rest sub he hr hs => isDict_iff.mpr (habove he hr ?_)
    rw [← htree, nodeAt, show tree.at? path = some sub from hs, Option.map_some]
  obtain ⟨tree', hput⟩ := Option.isSome_iff_exists.mp hsome
  refine ⟨tree', hput, fun path found => ?_⟩
  rw [builds_append]
  by_cases hbelow : ∃ rest, path = written.1 ++ rest
  · obtain ⟨rest, rfl⟩ := hbelow
    have hread : tree'.nodeAt (written.1 ++ rest) = written.2.nodeAt rest :=
      congrArg (Option.map node) (at?_put_below hput rest)
    rw [hread]
    constructor
    · exact fun hfound => .inr (.inl ⟨rest, rfl, hfound⟩)
    · rintro (hb | ⟨rest', he, hfound⟩ | ⟨rest', hr, he, -⟩)
      · exact nodeAt_of_within hne hfits hb
      · rwa [List.append_cancel_left he]
      · rw [List.append_assoc] at he
        exact absurd (List.append_eq_nil_iff.mp (List.self_eq_append_right.mp he)).2 hr
  by_cases hover : ∃ rest, written.1 = path ++ rest
  · obtain ⟨rest, he⟩ := hover
    have hr : rest ≠ [] := by
      rintro rfl
      exact hbelow ⟨[], by rw [he, List.append_nil, List.append_nil]⟩
    rw [nodeAt_put_above (he ▸ hput) hr]
    constructor
    · exact fun hfound => .inr (.inr ⟨rest, hr, he, (Option.some.inj hfound).symm⟩)
    · rintro (hb | ⟨rest', he', -⟩ | ⟨-, -, -, rfl⟩)
      · rw [habove he hr hb]
      · exact absurd ⟨rest', he'⟩ hbelow
      · rfl
  · have hread : tree'.nodeAt path = tree.nodeAt path :=
      congrArg (Option.map node)
        (at?_put_beside hput (fun rest he => hbelow ⟨rest, he⟩) fun rest he => hover ⟨rest, he⟩)
    rw [hread, htree]
    constructor
    · exact .inl
    · rintro (hb | ⟨rest, he, -⟩ | ⟨rest, -, he, -⟩)
      · exact hb
      · exact absurd ⟨rest, he⟩ hbelow
      · exact absurd ⟨rest, he⟩ hover

-- Writes that fit one another succeed, and what they build does not depend on their order.
theorem putAll_of_fits (hfits : writes.Pairwise fun first second => Fits first second ∧ Fits second first)
    (hne : ∀ written ∈ writes, written.1 ≠ []) : ∃ tree, putAll writes (.dict []) = some tree ∧
      ∀ path found, tree.nodeAt path = some found ↔ Builds writes path found := by
  induction writes using List.reverseRecOn with
  | nil =>
      refine ⟨.dict [], rfl, fun path found => ?_⟩
      cases path with
      | nil => simp [nodeAt, node, Builds, Puts, eq_comm]
      | cons key path => simp [nodeAt, at?_cons, child, Entries.lookup, Builds, Puts]
  | append_singleton writes written ih =>
      obtain ⟨hwrites, -, hlast⟩ := List.pairwise_append.mp hfits
      obtain ⟨tree, hall, htree⟩ := ih hwrites fun other ho => hne other (List.mem_append_left _ ho)
      obtain ⟨tree', hput, htree'⟩ := builds_put htree
        (fun other ho => hlast other ho written List.mem_cons_self) (hne written (by simp))
      refine ⟨tree', ?_, htree'⟩
      rw [putAll_concat, hall, Option.bind_some, hput]

theorem builds_congr {other : List (Write α)} {path : Path}
    (h : ∀ written, written ∈ writes ↔ written ∈ other) :
    Builds writes path found ↔ Builds other path found := by
  simp only [Builds, Puts, h]

end Fits

end YasinCore.Library.Tree
