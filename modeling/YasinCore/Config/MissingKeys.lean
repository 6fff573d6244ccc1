import YasinCore.Config.Defaults

namespace YasinCore.Config

open YasinCore.Library

variable {α : Type}

-- get_dict; the error is the TypeError about a value that is no dictionary.
def ConfigurationManager.getDict (typeName : α → String) (m : ConfigurationManager α) (key : String)
    (default : Tree α) : Except String (Tree α) :=
  match m.get key default with
  | .null => .ok .null
  | .dict entries => .ok (.dict entries)
  | .leaf value => .error ("Configuration key '" ++ key ++ "' is not of type dict, got " ++ typeName value)

-- Following the keys comes to a dictionary that lacks the next one.
def Lacks (tree : Tree α) (path rest : Path) : Prop :=
  ∃ front k entries, path = front ++ k :: rest ∧ tree.at? front = some (.dict entries) ∧
    Library.Entries.lookup k entries = none

-- Followed inside of the default, the keys end at one of its values; where a key is missing, they go
-- on from the whole default again.
inductive Strays (default : Tree α) : Path → Prop
  | inside {path : Path} {value : Tree α} : path ≠ [] → default.at? path = some value →
      value ≠ .null → Strays default path
  | again {path rest : Path} : Lacks default path rest → Strays default rest → Strays default path

-- The value that is stored under a key, or the default where there is none.
def YieldsDefault (typeName : α → String) (m : ConfigurationManager α) (key : String)
    (default : Tree α) : Prop :=
  match ((Tree.dict m.mergedData).at? (Text.split '.' key)).getD .null with
  | .null => m.get key default = default ∧ (default.IsDict → m.getDict typeName key default = .ok default)
  | value => m.get key default = value

section Walks

open ConfigurationManager

variable {tree default sub value : Tree α} {front path rest : Path} {k : String} {entries : Entries α}

theorem sizeOf_child (h : tree.child k = some sub) : sizeOf sub < sizeOf tree := by
  cases tree with
  | null => cases h
  | leaf _ => cases h
  | dict entries =>
      have hmem := Library.Entries.mem_of_lookup h
      have hentry := List.sizeOf_lt_of_mem hmem
      simp only [Tree.dict.sizeOf_spec, Prod.mk.sizeOf_spec] at hentry ⊢
      omega

-- What is inside of a tree is not the tree.
theorem ne_of_at? (h : tree.at? path = some value) (hne : path ≠ []) : value ≠ tree := by
  have hle (path : Path) {tree : Tree α} (h : tree.at? path = some value) :
      sizeOf value ≤ sizeOf tree := by
    induction path generalizing tree with
    | nil =>
        rw [Tree.at?_nil] at h
        rw [Option.some.inj h]
    | cons k path ih =>
        rw [Tree.at?_cons] at h
        obtain ⟨sub, hchild, hsub⟩ := Option.bind_eq_some_iff.mp h
        exact (ih hsub).trans (sizeOf_child hchild).le
  rintro rfl
  obtain ⟨k, rest, rfl⟩ := List.exists_cons_of_ne_nil hne
  rw [Tree.at?_cons] at h
  obtain ⟨sub, hchild, hsub⟩ := Option.bind_eq_some_iff.mp h
  exact absurd (sizeOf_child hchild) (Nat.not_lt.mpr (hle rest hsub))

-- A path ends in the tree, at a dictionary that lacks the next key, or at something else on its way.
theorem at?_cases (tree : Tree α) (path : Path) : (∃ value, tree.at? path = some value) ∨
    (∃ rest, Lacks tree path rest) ∨
      ∃ front rest value, path = front ++ rest ∧ rest ≠ [] ∧ tree.at? front = some value ∧
        ¬value.IsDict := by
  induction path generalizing tree with
  | nil => exact .inl ⟨tree, Tree.at?_nil⟩
  | cons k path ih =>
      cases tree with
      | null => exact .inr (.inr ⟨[], _, .null, rfl, List.cons_ne_nil _ _, Tree.at?_nil, id⟩)
      | leaf value => exact .inr (.inr ⟨[], _, .leaf value, rfl, List.cons_ne_nil _ _, Tree.at?_nil, id⟩)
      | dict entries =>
          cases hl : Library.Entries.lookup k entries with
          | none => exact .inr (.inl ⟨path, [], k, entries, rfl, Tree.at?_nil, hl⟩)
          | some sub =>
              have hbelow (front : Path) : (Tree.dict entries).at? (k :: front) = sub.at? front := by
                rw [Tree.at?_cons, Tree.child, hl, Option.bind_some]
              rcases ih sub with ⟨value, hv⟩ | ⟨rest, front, next, inner, rfl, hfront, hn⟩ |
                ⟨front, rest, value, rfl, hrest, hfront, hd⟩
              · exact .inl ⟨value, (hbelow path).trans hv⟩
              · exact .inr (.inl ⟨rest, k :: front, next, inner, rfl, (hbelow front).trans hfront, hn⟩)
              · exact .inr (.inr ⟨k :: front, rest, value, rfl, hrest, (hbelow front).trans hfront, hd⟩)

theorem walk_append (default : Tree α) (h : tree.at? front = some sub) (rest : Path) :
    walk default tree (front ++ rest) = walk default sub rest := by
  induction front generalizing tree with
  | nil =>
      rw [Tree.at?_nil] at h
      rw [Option.some.inj h, List.nil_append]
  | cons k front ih =>
      rw [Tree.at?_cons] at h
      obtain ⟨next, hchild, hnext⟩ := Option.bind_eq_some_iff.mp h
      cases tree with
      | null => cases hchild
      | leaf _ => cases hchild
      | dict entries =>
          have hl : Library.Entries.lookup k entries = some next := hchild
          rw [List.cons_append, walk, hl, Option.getD_some, ih hnext]

theorem walk_of_at? (default : Tree α) (h : tree.at? path = some value) :
    walk default tree path = value := by
  have hend := walk_append default h []
  rw [List.append_nil] at hend
  rw [hend, walk]

-- Where a key is missing the search goes on inside of the default.
theorem walk_of_lacks (default : Tree α) (h : Lacks tree path rest) :
    walk default tree path = walk default default rest := by
  obtain ⟨front, k, entries, rfl, hfront, hk⟩ := h
  rw [walk_append default hfront, walk, hk, Option.getD_none]

theorem walk_of_not_isDict (hd : ¬value.IsDict) (hne : path ≠ []) : walk default value path = default := by
  obtain ⟨k, rest, rfl⟩ := List.exists_cons_of_ne_nil hne
  cases value with
  | null => rfl
  | leaf _ => rfl
  | dict _ => exact absurd trivial hd

theorem at?_of_lacks (h : Lacks tree path rest) : tree.at? path = none := by
  obtain ⟨front, k, entries, rfl, hfront, hk⟩ := h
  rw [Tree.at?_append, hfront, Option.bind_some, Tree.at?_cons, Tree.child, hk, Option.bind_none]

-- The search in the default ends at the default itself or at None, unless it strays.
theorem strays_iff : Strays default path ↔
    walk default default path ≠ default ∧ walk default default path ≠ .null := by
  constructor
  · intro h
    induction h with
    | inside hne hat hnull =>
        rw [walk_of_at? default hat]
        exact ⟨ne_of_at? hat hne, hnull⟩
    | again hlacks _ ih =>
        rw [walk_of_lacks default hlacks]
        exact ih
  · intro ⟨hdefault, hnull⟩
    induction hn : path.length using Nat.strong_induction_on generalizing path with
    | _ n ih =>
        rcases at?_cases default path with ⟨value, hat⟩ | ⟨rest, hlacks⟩ |
          ⟨front, rest, value, rfl, hrest, hfront, hd⟩
        · rw [walk_of_at? default hat] at hdefault hnull
          refine .inside ?_ hat hnull
          rintro rfl
          rw [Tree.at?_nil] at hat
          exact hdefault (Option.some.inj hat).symm
        · rw [walk_of_lacks default hlacks] at hdefault hnull
          have hshorter : rest.length < path.length := by
            obtain ⟨front, k, entries, rfl, -⟩ := hlacks
            rw [List.length_append, List.length_cons]
            omega
          exact .again hlacks (ih rest.length (hn ▸ hshorter) hdefault hnull rfl)
        · rw [walk_append default hfront, walk_of_not_isDict hd hrest] at hdefault
          exact (hdefault rfl).elim

theorem get_of_walk {m : ConfigurationManager α} {key : String}
    (h : walk default (.dict m.mergedData) (Text.split '.' key) = value) :
    m.get key default = if value = .null then default else value := by
  unfold ConfigurationManager.get
  rw [h]
  cases value with
  | null => rfl
  | leaf _ => rfl
  | dict _ => rfl

theorem getDict_of_get {typeName : α → String} {m : ConfigurationManager α} {key : String}
    (h : m.get key default = default) (hd : default.IsDict) :
    m.getDict typeName key default = .ok default := by
  unfold getDict
  rw [h]
  cases default with
  | null => rfl
  | leaf _ => exact hd.elim
  | dict _ => rfl

end Walks

open ConfigurationManager in
-- A key yields its value or the default as it is, unless the rest of a missing key leads into the
-- default.
theorem yieldsDefault_iff (typeName : α → String) (m : ConfigurationManager α) (key : String)
    (default : Tree α) : YieldsDefault typeName m key default ↔
      ∀ rest, Lacks (.dict m.mergedData) (Text.split '.' key) rest → ¬Strays default rest := by
  have hmissing : ((Tree.dict m.mergedData).at? (Text.split '.' key)).getD .null = .null →
      (YieldsDefault typeName m key default ↔ m.get key default = default) := by
    intro hnull
    unfold YieldsDefault
    rw [hnull]
    exact and_iff_left_of_imp getDict_of_get
  constructor
  · intro h rest hlacks hstrays
    have hwalk := walk_of_lacks default hlacks
    obtain ⟨hdefault, hnull⟩ := strays_iff.mp hstrays
    have hget := (hmissing (by rw [at?_of_lacks hlacks, Option.getD_none])).mp h
    rw [get_of_walk hwalk, if_neg hnull] at hget
    exact hdefault hget
  · intro h
    rcases at?_cases (.dict m.mergedData) (Text.split '.' key) with ⟨value, hat⟩ | ⟨rest, hlacks⟩ |
      ⟨front, rest, value, hkey, hrest, hfront, hd⟩
    · have hget := get_of_walk (walk_of_at? default hat)
      by_cases hnull : value = .null
      · rw [hmissing (by rw [hat, Option.getD_some, hnull]), hget, if_pos hnull]
      · rw [if_neg hnull] at hget
        unfold YieldsDefault
        rw [hat, Option.getD_some]
        cases value with
        | null => exact (hnull rfl).elim
        | leaf _ => exact hget
        | dict _ => exact hget
    · have hget := get_of_walk (walk_of_lacks default hlacks)
      rw [hmissing (by rw [at?_of_lacks hlacks, Option.getD_none]), hget]
      have hend := mt strays_iff.mpr (h rest hlacks)
      rw [not_and_or, not_not, not_not] at hend
      rcases hend with hend | hend
      · rw [hend]
        exact ite_self _
      · rw [if_pos hend]
    · have hwalk : walk default (.dict m.mergedData) (Text.split '.' key) = default := by
        rw [hkey, walk_append default hfront, walk_of_not_isDict hd hrest]
      have hat : (Tree.dict m.mergedData).at? (Text.split '.' key) = none := by
        rw [hkey, Tree.at?_append, hfront, Option.bind_some, Tree.at?_of_not_isDict hd hrest]
      rw [hmissing (by rw [hat, Option.getD_none]), get_of_walk hwalk]
      exact ite_self _

-- The key a.b is missing, and the default has something under b.
theorem default_is_searched :
    ¬YieldsDefault (fun _ => "int") (ConfigurationManager.blank : ConfigurationManager Nat) "a.b"
      (.dict [("b", .leaf 5)]) := by
  have hsplit : Text.split '.' "a.b" = ["a", "b"] := by decide
  intro h
  unfold YieldsDefault ConfigurationManager.get at h
  rw [hsplit] at h
  have hleaf : (Tree.leaf 5 : Tree Nat) = .dict [("b", .leaf 5)] := h.1
  cases hleaf

end YasinCore.Config
