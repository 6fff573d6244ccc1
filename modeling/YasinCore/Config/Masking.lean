import YasinCore.Config.Settings
import YasinCore.Library.Tree.Writes

namespace YasinCore.Config

open YasinCore.Library

variable {α : Type}

section Masks

variable (sensitive : Finset String) (stars : α)

mutual

-- What becomes of a value below a key that is not sensitive.
def maskTree (key : String) : Tree α → Tree α
  | .dict entries => .dict (maskSensitive (key ++ ".") entries)
  | tree => tree

def maskSensitive (start : String) : Entries α → Entries α
  | [] => []
  | (k, v) :: rest =>
      (k, if start ++ k ∈ sensitive then .leaf stars else maskTree (start ++ k) v) ::
        maskSensitive start rest

end

end Masks

structure Status (α : Type) where
  state : String
  configPath : String
  schemaCount : Nat
  configuration : Entries α

-- The path of the file is fixed by the constructor.
def ConfigurationManager.status (configPath : String) (stars : α) (m : ConfigurationManager α) :
    Status α where
  state := "active"
  configPath := configPath
  schemaCount := m.schemas.entries.length
  configuration := maskSensitive m.sensitiveKeys stars "" m.mergedData

-- Dictionaries are equal whatever the order of their entries.
structure Status.Same (first second : Status α) : Prop where
  state : first.state = second.state
  configPath : first.configPath = second.configPath
  schemaCount : first.schemaCount = second.schemaCount
  configuration : (Tree.dict first.configuration).Same (.dict second.configuration)

-- The keys on the way, with dots between them.
def dottedKey (start : String) : Path → String
  | [] => start
  | [k] => start ++ k
  | k :: rest => dottedKey (start ++ k ++ ".") rest

-- A place that is registered as sensitive, and a place at or below one.
def Marked (sensitive : Finset String) (start : String) (path : Path) : Prop :=
  path ≠ [] ∧ dottedKey start path ∈ sensitive

def Covered (sensitive : Finset String) (start : String) (path : Path) : Prop :=
  ∃ front, front <+: path ∧ Marked sensitive start front

-- Two trees agree outside of what is sensitive: where one has something else than the other at a
-- sensitive place, both have something there.
structure Agree (sensitive : Finset String) (start : String) (first second : Entries α) : Prop where
  outside : ∀ path, ¬Covered sensitive start path →
    (Tree.dict first).nodeAt path = (Tree.dict second).nodeAt path
  present : ∀ path, Marked sensitive start path →
    ((Tree.dict first).at? path).isSome = ((Tree.dict second).at? path).isSome

section Lookups

variable {sensitive : Finset String} {stars : α} {start k : String} {rest : Path}
  {entries first second : Entries α}

theorem lookup_maskSensitive : Library.Entries.lookup k (maskSensitive sensitive stars start entries) =
    (Library.Entries.lookup k entries).map fun v =>
      if start ++ k ∈ sensitive then .leaf stars else maskTree sensitive stars (start ++ k) v := by
  induction entries with
  | nil => rfl
  | cons entry entries ih =>
      obtain ⟨other, v⟩ := entry
      rw [maskSensitive, Library.Entries.lookup, Library.Entries.lookup]
      by_cases he : other = k
      · rw [if_pos he, if_pos he, he, Option.map_some]
      · rw [if_neg he, if_neg he, ih]

theorem dottedKey_cons (h : rest ≠ []) :
    dottedKey start (k :: rest) = dottedKey (start ++ k ++ ".") rest := by
  obtain ⟨next, rest, rfl⟩ := List.exists_cons_of_ne_nil h
  rfl

-- Below a key that is not sensitive.
theorem marked_cons (hk : start ++ k ∉ sensitive) :
    Marked sensitive start (k :: rest) ↔ Marked sensitive (start ++ k ++ ".") rest := by
  unfold Marked
  cases rest with
  | nil => exact iff_of_false (fun h => hk h.2) fun h => h.1 rfl
  | cons next rest =>
      rw [dottedKey_cons (List.cons_ne_nil next rest)]
      simp

theorem covered_cons (hk : start ++ k ∉ sensitive) :
    Covered sensitive start (k :: rest) ↔ Covered sensitive (start ++ k ++ ".") rest := by
  constructor
  · rintro ⟨front, hfront, hmarked⟩
    obtain ⟨next, front, rfl⟩ := List.exists_cons_of_ne_nil hmarked.1
    obtain ⟨rfl, hrest⟩ := List.cons_prefix_cons.mp hfront
    exact ⟨front, hrest, (marked_cons hk).mp hmarked⟩
  · rintro ⟨front, hfront, hmarked⟩
    exact ⟨k :: front, List.cons_prefix_cons.mpr ⟨rfl, hfront⟩, (marked_cons hk).mpr hmarked⟩

theorem not_covered_nil : ¬Covered sensitive start [] := by
  rintro ⟨front, hfront, hmarked⟩
  exact hmarked.1 (List.prefix_nil.mp hfront)

-- What two trees have in common is in common below each key that is not sensitive.
theorem Agree.below {sub sub' : Entries α} (h : Agree sensitive start first second)
    (hk : start ++ k ∉ sensitive) (hfirst : Library.Entries.lookup k first = some (.dict sub))
    (hsecond : Library.Entries.lookup k second = some (.dict sub')) :
    Agree sensitive (start ++ k ++ ".") sub sub' := by
  have hleft (rest : Path) : (Tree.dict first).at? (k :: rest) = (Tree.dict sub).at? rest := by
    rw [Tree.at?_cons, Tree.child, hfirst, Option.bind_some]
  have hright (rest : Path) : (Tree.dict second).at? (k :: rest) = (Tree.dict sub').at? rest := by
    rw [Tree.at?_cons, Tree.child, hsecond, Option.bind_some]
  refine ⟨fun rest hrest => ?_, fun rest hrest => ?_⟩
  · have hsame := h.outside (k :: rest) fun hc => hrest ((covered_cons hk).mp hc)
    unfold Tree.nodeAt at hsame ⊢
    rwa [hleft, hright] at hsame
  · have hsame := h.present (k :: rest) ((marked_cons hk).mpr hrest)
    rwa [hleft, hright] at hsame

-- At every path the masked trees have the same, whatever is behind the masks.
theorem Agree.nodeAt_maskSensitive (h : Agree sensitive start first second) (stars : α) (path : Path) :
    (Tree.dict (maskSensitive sensitive stars start first)).nodeAt path =
      (Tree.dict (maskSensitive sensitive stars start second)).nodeAt path := by
  have hchild (entries : Entries α) (k : String) (rest : Path) :
      (Tree.dict entries).nodeAt (k :: rest) =
        (Library.Entries.lookup k entries).bind fun v => v.nodeAt rest := by
    unfold Tree.nodeAt
    rw [Tree.at?_cons, Option.map_bind]
    rfl
  induction path generalizing start first second with
  | nil => rfl
  | cons k rest ih =>
      rw [hchild, hchild, lookup_maskSensitive, lookup_maskSensitive]
      by_cases hk : start ++ k ∈ sensitive
      · have hpresent := h.present [k] ⟨List.cons_ne_nil k [], hk⟩
        have hat (entries : Entries α) :
            (Tree.dict entries).at? [k] = Library.Entries.lookup k entries := by
          rw [Tree.at?_cons]
          simp [Tree.child]
        rw [hat, hat] at hpresent
        have hstars (old : Option (Tree α)) : ((old.map fun v => if start ++ k ∈ sensitive then .leaf stars
            else maskTree sensitive stars (start ++ k) v).bind fun v => v.nodeAt rest) =
              if old.isSome then (Tree.leaf stars).nodeAt rest else none := by
          cases old with
          | none => rfl
          | some v =>
              rw [Option.map_some, if_pos hk]
              rfl
        rw [hstars, hstars, hpresent]
      · have hnot : ¬Covered sensitive start [k] := fun hc => not_covered_nil ((covered_cons hk).mp hc)
        have hnode := h.outside [k] hnot
        rw [hchild, hchild] at hnode
        simp only [if_neg hk]
        cases hfirst : Library.Entries.lookup k first with
        | none =>
            cases hsecond : Library.Entries.lookup k second with
            | none => rfl
            | some v' =>
                rw [hfirst, hsecond] at hnode
                cases hnode
        | some v =>
            cases hsecond : Library.Entries.lookup k second with
            | none =>
                rw [hfirst, hsecond] at hnode
                cases hnode
            | some v' =>
                rw [hfirst, hsecond, Option.bind_some, Option.bind_some, Tree.nodeAt_nil,
                  Tree.nodeAt_nil, Option.some.injEq] at hnode
                rw [Option.map_some, Option.map_some, Option.bind_some, Option.bind_some]
                cases v with
                | dict sub =>
                    cases v' with
                    | dict sub' => exact ih (h.below hk hfirst hsecond)
                    | null | leaf value' => cases hnode
                | null =>
                    cases v' with
                    | null => rfl
                    | dict sub' | leaf value' => cases hnode
                | leaf value =>
                    cases v' with
                    | leaf value' =>
                        obtain rfl := Tree.Node.leaf.inj hnode
                        rfl
                    | null | dict sub' => cases hnode

end Lookups

-- Two managers that differ in sensitive values only report the same status.
theorem status_same (configPath : String) (stars : α) (m n : ConfigurationManager α)
    (hschemas : m.schemas = n.schemas) (hkeys : m.sensitiveKeys = n.sensitiveKeys)
    (h : Agree m.sensitiveKeys "" m.mergedData n.mergedData) :
    (m.status configPath stars).Same (n.status configPath stars) where
  state := rfl
  configPath := rfl
  schemaCount := congrArg (fun schemas => schemas.entries.length) hschemas
  configuration path := by
    have hsame := h.nodeAt_maskSensitive stars path
    unfold ConfigurationManager.status
    rwa [← hkeys]

section Samples

def withToken (token : Nat) : ConfigurationManager Nat :=
  { ConfigurationManager.blank with
    mergedData := [("auth", .dict [("token", .leaf token), ("user", .leaf 1)]), ("port", .leaf 8080)]
    sensitiveKeys := {"auth.token"} }

theorem nodeAt_withToken (first second : Nat) {path : Path} (h : path ≠ ["auth", "token"]) :
    (Tree.dict (withToken first).mergedData).nodeAt path =
      (Tree.dict (withToken second).mergedData).nodeAt path := by
  cases path with
  | nil => rfl
  | cons k rest =>
      simp only [withToken, Tree.nodeAt, Tree.at?_cons, Tree.child, Library.Entries.lookup]
      by_cases hk : "auth" = k
      · subst hk
        cases rest with
        | nil => rfl
        | cons next rest =>
            simp only [if_pos, Option.bind_some, Tree.at?_cons, Tree.child, Library.Entries.lookup]
            by_cases hnext : "token" = next
            · subst hnext
              cases rest with
              | nil => exact (h rfl).elim
              | cons last rest => rfl
            · rw [if_neg hnext, if_neg hnext]
      · rw [if_neg hk, if_neg hk]

theorem agree_withToken (first second : Nat) :
    Agree {"auth.token"} "" (withToken first).mergedData (withToken second).mergedData := by
  refine ⟨fun path hpath => nodeAt_withToken first second ?_, fun path _ => ?_⟩
  · rintro rfl
    exact hpath ⟨["auth", "token"], List.prefix_rfl, List.cons_ne_nil _ _, by decide⟩
  · by_cases hpath : path = ["auth", "token"]
    · subst hpath
      rfl
    · have hnode := congrArg Option.isSome (nodeAt_withToken first second hpath)
      unfold Tree.nodeAt at hnode
      rwa [Option.isSome_map, Option.isSome_map] at hnode

theorem status_same_withToken :
    ((withToken 7).status "config.yaml" 0).Same ((withToken 8).status "config.yaml" 0) :=
  status_same "config.yaml" 0 _ _ rfl rfl (agree_withToken 7 8)

end Samples

end YasinCore.Config
