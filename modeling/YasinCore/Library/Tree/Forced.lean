import YasinCore.Library.Tree.Writes

namespace YasinCore.Library.Tree

variable {α : Type}

-- The entries of a dictionary; anything else counts as an empty one.
def entriesOf : Option (Tree α) → List (String × Tree α)
  | some (.dict entries) => entries
  | _ => []

-- Writing below a path replaces what stands in the way.
def force (value : Tree α) : Option (Tree α) → Path → Tree α
  | _, [] => value
  | old, key :: path =>
      .dict (Entries.assign key (force value (Entries.lookup key (entriesOf old)) path) (entriesOf old))

-- Nothing but dictionaries stand above the path.
def Passable (tree : Tree α) (path : Path) : Prop :=
  ∀ front rest node, path = front ++ rest → rest ≠ [] → tree.nodeAt front = some node → node = .dict

-- What stands somewhere in the first tree stands there in the second one.
def Keeps (first second : Tree α) : Prop :=
  ∀ path node, first.nodeAt path = some node → second.nodeAt path = some node

section Force

variable {value tree : Tree α} {old : Option (Tree α)} {key : String} {path written rest front : Path}

theorem lookup_entriesOf : Entries.lookup key (entriesOf old) = old.bind fun tree => tree.child key := by
  cases old with
  | none => rfl
  | some tree => cases tree <;> rfl

theorem child_force {other : String} : (force value old (key :: path)).child other =
    if other = key then some (force value (old.bind fun tree => tree.child key) path)
    else old.bind fun tree => tree.child other := by
  rw [force, child_dict_assign, child, lookup_entriesOf, lookup_entriesOf]

-- Only the entries of what was there matter.
theorem force_entriesOf (hne : path ≠ []) :
    force value (some (.dict (entriesOf old))) path = force value old path := by
  cases path with
  | nil => exact absurd rfl hne
  | cons key path => rfl

theorem at?_entriesOf (hne : path ≠ []) :
    (dict (entriesOf old)).at? path = old.bind fun tree => tree.at? path := by
  cases path with
  | nil => exact absurd rfl hne
  | cons key path => rw [at?_cons, child, lookup_entriesOf, bind_at?_cons]

theorem at?_force_below (value : Tree α) (old : Option (Tree α)) (path rest : Path) :
    (force value old path).at? (path ++ rest) = value.at? rest := by
  induction path generalizing old with
  | nil => rfl
  | cons key path ih => rw [List.cons_append, at?_cons, child_force, if_pos rfl, Option.bind_some, ih]

theorem at?_force_beside (hbelow : ¬written <+: path) (habove : ¬path <+: written) :
    (force value old written).at? path = old.bind fun tree => tree.at? path := by
  induction written generalizing old path with
  | nil => exact absurd List.nil_prefix hbelow
  | cons key written ih =>
      cases path with
      | nil => exact absurd List.nil_prefix habove
      | cons other path =>
          rw [at?_cons, child_force, bind_at?_cons]
          split
          · rename_i he
            subst he
            rw [Option.bind_some]
            exact ih (fun hp => hbelow (List.cons_prefix_cons.mpr ⟨rfl, hp⟩))
              fun hp => habove (List.cons_prefix_cons.mpr ⟨rfl, hp⟩)
          · rfl

theorem nodeAt_force_above (value : Tree α) (old : Option (Tree α)) (path : Path) (hne : rest ≠ []) :
    (force value old (path ++ rest)).nodeAt path = some .dict := by
  have hread := at?_force_below value old (path ++ rest) []
  rw [List.append_nil, at?_nil] at hread
  exact isDict_of_below hread hne

end Force

section Passing

variable {value tree other : Tree α} {path front rest : Path}

-- A forced write to an empty place makes dictionaries of what is above it, and changes nothing else.
theorem nodeAt_force (hnone : tree.at? path = none) {place : Path} {node : Node α}
    (hnode : tree.nodeAt place = some node) :
    (force value (some tree) path).nodeAt place = some (if place <+: path then .dict else node) := by
  by_cases hbelow : path <+: place
  · obtain ⟨rest, rfl⟩ := hbelow
    rw [nodeAt_append, hnone] at hnode
    cases hnode
  by_cases habove : place <+: path
  · rw [if_pos habove]
    obtain ⟨rest, rfl⟩ := habove
    refine nodeAt_force_above value (some tree) place ?_
    rintro rfl
    rw [List.append_nil] at hbelow
    exact hbelow List.prefix_rfl
  · rw [if_neg habove, nodeAt, at?_force_beside hbelow habove]
    exact hnode

theorem Keeps.force (h : other.Keeps tree) (hnone : tree.at? path = none) (hpass : other.Passable path) :
    other.Keeps (force value (some tree) path) := by
  intro place node hnode
  have hkept := h place node hnode
  rw [nodeAt_force hnone hkept]
  split
  · rename_i habove
    obtain ⟨rest, rfl⟩ := habove
    have hne : rest ≠ [] := by
      rintro rfl
      rw [List.append_nil] at hnone
      rw [nodeAt, hnone] at hkept
      cases hkept
    rw [hpass place rest node rfl hne hnode]
  · rfl

theorem Keeps.refl (tree : Tree α) : tree.Keeps tree := fun _ _ => id

end Passing

end YasinCore.Library.Tree
