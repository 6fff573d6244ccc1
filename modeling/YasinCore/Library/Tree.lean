import YasinCore.Library.Dict

namespace YasinCore.Library

-- Values nested in dictionaries; what is neither None nor a dictionary is a leaf.
inductive Tree (α : Type)
  | null
  | leaf (value : α)
  | dict (entries : List (String × Tree α))

abbrev Path := List String

namespace Tree

variable {α : Type}

def IsDict : Tree α → Prop
  | .dict _ => True
  | _ => False

instance (tree : Tree α) : Decidable tree.IsDict := by
  cases tree <;> unfold IsDict <;> infer_instance

instance [DecidableEq α] (tree : Tree α) (value : α) : Decidable (tree = .leaf value) :=
  match tree with
  | .leaf other => decidable_of_iff (other = value) (by simp)
  | .null => isFalse nofun
  | .dict _ => isFalse nofun

instance (tree : Tree α) : Decidable (tree = .null) :=
  match tree with
  | .null => isTrue rfl
  | .leaf _ => isFalse nofun
  | .dict _ => isFalse nofun

def child (key : String) : Tree α → Option (Tree α)
  | .dict entries => Entries.lookup key entries
  | _ => none

-- The value below a path.
def at? : Tree α → Path → Option (Tree α)
  | tree, [] => some tree
  | tree, key :: path => (tree.child key).bind fun sub => sub.at? path

-- Writing below a path makes the missing dictionaries; none is the failure on the way through
-- something that is no dictionary.
def put (value : Tree α) : Option (Tree α) → Path → Option (Tree α)
  | _, [] => some value
  | none, key :: path => (put value none path).map fun sub => .dict [(key, sub)]
  | some (.dict entries), key :: path =>
      (put value (Entries.lookup key entries) path).map fun sub =>
        .dict (Entries.assign key sub entries)
  | some _, _ :: _ => none

-- What a written value leaves at a path, given what was there before.
def track (path : Path) (written : Path × Tree α) (old : Option (Tree α)) : Option (Tree α) :=
  if written.1 <+: path then written.2.at? (path.drop written.1.length)
  else if path <+: written.1 then put written.2 old (written.1.drop path.length)
  else old

mutual

-- A value that arrives by an update: dictionaries are merged, everything else is replaced.
def mergeInto : Tree α → Option (Tree α) → Tree α
  | .dict update, some (.dict base) => .dict (mergeEntries update base)
  | tree, _ => tree

def mergeEntries : List (String × Tree α) → List (String × Tree α) → List (String × Tree α)
  | [], base => base
  | (key, value) :: rest, base =>
      mergeEntries rest (Entries.assign key (mergeInto value (Entries.lookup key base)) base)

end

mutual

-- The leaves below a tree with their dotted keys. Empty dictionaries leave no trace.
def flattenInto (key : String) : Tree α → List (String × Tree α) → List (String × Tree α)
  | .dict entries, flat => flattenEntries (key ++ ".") entries flat
  | tree, flat => Entries.assign key tree flat

def flattenEntries (start : String) :
    List (String × Tree α) → List (String × Tree α) → List (String × Tree α)
  | [], flat => flat
  | (key, value) :: rest, flat => flattenEntries start rest (flattenInto (start ++ key) value flat)

end

-- Some entry stands at the path, or something that is no dictionary stands above it.
def Defines : List (String × Tree α) → Path → Prop
  | _, [] => True
  | entries, key :: path => ∃ tree, (key, tree) ∈ entries ∧
      match tree, path with
      | _, [] => True
      | .dict sub, _ :: _ => Defines sub path
      | _, _ :: _ => False

def Shadows : List (String × Tree α) → Path → Prop
  | _, [] => False
  | entries, key :: path => path ≠ [] ∧ ∃ tree, (key, tree) ∈ entries ∧
      match tree with
      | .dict sub => Shadows sub path
      | _ => True

section Put

variable {value : Tree α} {old : Option (Tree α)} {tree : Tree α}

@[simp] theorem at?_nil : tree.at? [] = some tree := by
  cases tree <;> rfl

theorem at?_cons {key : String} {path : Path} :
    tree.at? (key :: path) = (tree.child key).bind fun sub => sub.at? path := by
  cases tree <;> rfl

theorem bind_at?_cons {key : String} {path : Path} : (old.bind fun tree => tree.at? (key :: path)) =
    (old.bind fun tree => tree.child key).bind fun sub => sub.at? path := by
  cases old <;> simp [at?_cons]

theorem child_dict_assign {key other : String} {sub : Tree α} {entries : List (String × Tree α)} :
    (dict (Entries.assign key sub entries)).child other =
      if other = key then some sub else (dict entries).child other :=
  Entries.lookup_assign key other sub entries

-- A successful write goes through the child of its first key and leaves the other children alone.
theorem put_cons {key : String} {path : Path} (h : put value old (key :: path) = some tree) :
    ∃ sub, put value (old.bind fun tree => tree.child key) path = some sub ∧ ∀ other,
      tree.child other = if other = key then some sub else old.bind fun tree => tree.child other := by
  cases old with
  | none =>
      obtain ⟨sub, hp, rfl⟩ := Option.map_eq_some_iff.mp h
      refine ⟨sub, hp, fun other => ?_⟩
      by_cases he : other = key
      · simp [child, Entries.lookup, he]
      · simp [child, Entries.lookup, he, Ne.symm he]
  | some base =>
      cases base with
      | null => cases h
      | leaf _ => cases h
      | dict entries =>
          obtain ⟨sub, hp, rfl⟩ := Option.map_eq_some_iff.mp h
          exact ⟨sub, hp, fun other => child_dict_assign⟩

theorem track_cons {key : String} {path written : Path} :
    track (key :: path) (key :: written, value) old = track path (written, value) old := by
  simp [track, List.cons_prefix_cons]

-- Reading after writing: what a write leaves at each path depends only on what was there.
theorem at?_put {written : Path} (h : put value old written = some tree) (path : Path) :
    tree.at? path = track path (written, value) (old.bind fun tree => tree.at? path) := by
  induction written generalizing old tree path with
  | nil =>
      obtain rfl : value = tree := by
        cases old <;> exact Option.some.inj h
      simp [track]
  | cons key written ih =>
      cases path with
      | nil => simp [track, h]
      | cons other path =>
          obtain ⟨sub, hp, hchild⟩ := put_cons h
          rw [at?_cons, hchild]
          by_cases he : other = key
          · subst he
            rw [if_pos rfl, Option.bind_some, ih hp, track_cons, bind_at?_cons]
          · rw [if_neg he, ← bind_at?_cons, track, if_neg, if_neg]
            · exact fun hpre => he (List.cons_prefix_cons.mp hpre).1
            · exact fun hpre => he (List.cons_prefix_cons.mp hpre).1.symm

end Put

section Merge

theorem at?_dict_of_not_defines {entries : List (String × Tree α)} {path : Path}
    (h : ¬Defines entries path) : (dict entries).at? path = none := by
  induction path generalizing entries with
  | nil => exact absurd (by unfold Defines; trivial) h
  | cons key path ih =>
      rw [at?_cons]
      cases hl : (dict entries).child key with
      | none => rfl
      | some tree =>
          have hm : (key, tree) ∈ entries := Entries.mem_of_lookup hl
          rw [Option.bind_some]
          cases path with
          | nil => exact absurd ⟨tree, hm, by trivial⟩ h
          | cons next path =>
              cases tree with
              | null => rfl
              | leaf _ => rfl
              | dict sub => exact ih fun hd => h ⟨dict sub, hm, hd⟩

-- Where an update says nothing about a path, it either hides the path or leaves it alone.
def Passes (hidden : Prop) (new old : Option (Tree α)) : Prop :=
  (¬hidden ∧ new = old) ∨ (hidden ∧ new = none)

theorem Passes.trans {hidden hidden' : Prop} {new mid old : Option (Tree α)}
    (h : Passes hidden mid old) (h' : Passes hidden' new mid) : Passes (hidden ∨ hidden') new old := by
  rcases h with ⟨hn, rfl⟩ | ⟨hh, rfl⟩
  · rcases h' with ⟨hn', rfl⟩ | ⟨hh', rfl⟩
    · exact .inl ⟨fun hc => hc.elim hn hn', rfl⟩
    · exact .inr ⟨.inr hh', rfl⟩
  · rcases h' with ⟨_, rfl⟩ | ⟨_, rfl⟩
    · exact .inr ⟨.inl hh, rfl⟩
    · exact .inr ⟨.inl hh, rfl⟩

theorem Passes.none {hidden : Prop} : Passes hidden (Option.none : Option (Tree α)) Option.none := by
  by_cases h : hidden
  · exact .inr ⟨h, rfl⟩
  · exact .inl ⟨h, rfl⟩

-- What a single arriving value hides.
def Hides (path : Path) : Tree α → Prop
  | dict sub => Shadows sub path
  | _ => True

-- One arriving value, seen at a path below it, when merging dictionaries behaves so further down.
theorem passes_mergeInto {value : Tree α} {old : Option (Tree α)} {next : String} {path : Path}
    (hrec : ∀ update base : List (String × Tree α), ¬Defines update (next :: path) →
      Passes (Shadows update (next :: path)) ((dict (mergeEntries update base)).at? (next :: path))
        ((dict base).at? (next :: path)))
    (hd : ∀ sub, value = dict sub → ¬Defines sub (next :: path)) :
    Passes (Hides (next :: path) value)
      ((mergeInto value old).at? (next :: path)) (old.bind fun tree => tree.at? (next :: path)) := by
  cases value with
  | null => exact .inr ⟨trivial, rfl⟩
  | leaf _ => exact .inr ⟨trivial, rfl⟩
  | dict update =>
      have hnone := at?_dict_of_not_defines (hd update rfl)
      have hreplaced : Passes (Shadows update (next :: path)) ((dict update).at? (next :: path))
          Option.none := by
        rw [hnone]
        exact .none
      cases old with
      | none => exact hreplaced
      | some tree =>
          cases tree with
          | dict base => exact hrec update base (hd update rfl)
          | null => exact hreplaced
          | leaf _ => exact hreplaced

theorem shadows_cons {other key next : String} {value : Tree α} {rest : List (String × Tree α)}
    {path : Path} : Shadows ((other, value) :: rest) (key :: next :: path) ↔
      (other = key ∧ Hides (next :: path) value) ∨ Shadows rest (key :: next :: path) := by
  constructor
  · rintro ⟨hne, tree, hm, ht⟩
    rcases List.mem_cons.mp hm with he | hm
    · obtain ⟨rfl, rfl⟩ := Prod.mk.inj he
      exact .inl ⟨rfl, ht⟩
    · exact .inr ⟨hne, tree, hm, ht⟩
  · rintro (⟨rfl, ht⟩ | ⟨hne, tree, hm, ht⟩)
    · exact ⟨by simp, value, List.mem_cons_self, ht⟩
    · exact ⟨hne, tree, List.mem_cons_of_mem _ hm, ht⟩

-- An update that does not define a path passes it, level by level and entry by entry.
theorem passes_mergeEntries {path : Path} (hp : path ≠ []) (update base : List (String × Tree α))
    (h : ¬Defines update path) :
    Passes (Shadows update path) ((dict (mergeEntries update base)).at? path) ((dict base).at? path) := by
  induction path generalizing update base with
  | nil => exact absurd rfl hp
  | cons key path ih =>
      induction update generalizing base with
      | nil => exact .inl ⟨by simp [Shadows], rfl⟩
      | cons entry rest ihrest =>
          obtain ⟨other, value⟩ := entry
          have hrest : ¬Defines rest (key :: path) := by
            rintro ⟨tree, hm, ht⟩
            exact h ⟨tree, List.mem_cons_of_mem _ hm, ht⟩
          have hlater := ihrest (Entries.assign other (mergeInto value (Entries.lookup other base)) base)
            hrest
          rw [mergeEntries]
          by_cases he : other = key
          · subst he
            cases path with
            | nil => exact absurd ⟨value, List.mem_cons_self, by trivial⟩ h
            | cons next path =>
                have hsub : ∀ sub, value = dict sub → ¬Defines sub (next :: path) := by
                  rintro sub rfl hd
                  exact h ⟨dict sub, List.mem_cons_self, hd⟩
                have hhead : Passes _ ((mergeInto value (Entries.lookup other base)).at? (next :: path))
                    ((dict base).at? (other :: next :: path)) := passes_mergeInto (ih (by simp)) hsub
                have hread : (dict (Entries.assign other (mergeInto value (Entries.lookup other base))
                    base)).at? (other :: next :: path) =
                    (mergeInto value (Entries.lookup other base)).at? (next :: path) := by
                  rw [at?_cons, child_dict_assign, if_pos rfl, Option.bind_some]
                rw [hread] at hlater
                rw [shadows_cons]
                simpa only [true_and] using hhead.trans hlater
          · have hread : (dict (Entries.assign other (mergeInto value (Entries.lookup other base))
                base)).at? (key :: path) = (dict base).at? (key :: path) := by
              rw [at?_cons, child_dict_assign, if_neg (Ne.symm he), at?_cons]
            rw [hread] at hlater
            cases path with
            | nil => exact hlater.imp (fun hl => ⟨by simp [Shadows], hl.2⟩) fun hl => by simp [Shadows] at hl
            | cons next path =>
                rw [shadows_cons]
                simpa only [he, false_and, false_or] using hlater

end Merge

section Layers

mutual

-- Every dictionary has one entry for each of its keys.
def Proper : Tree α → Prop
  | .dict entries => (entries.map Prod.fst).Nodup ∧ ProperEntries entries
  | _ => True

def ProperEntries : List (String × Tree α) → Prop
  | [] => True
  | (_, value) :: rest => Proper value ∧ ProperEntries rest

end

variable {tree value : Tree α} {update base : List (String × Tree α)} {old : Option (Tree α)}

theorem proper_of_lookup {key : String} {entries : List (String × Tree α)} (h : ProperEntries entries)
    (hl : Entries.lookup key entries = some tree) : tree.Proper := by
  induction entries with
  | nil => cases hl
  | cons entry rest ih =>
      obtain ⟨hentry, hrest⟩ := h
      rw [Entries.lookup] at hl
      split at hl
      · exact Option.some.inj hl ▸ hentry
      · exact ih hrest hl

theorem Proper.at? {path : Path} (h : value.Proper) (hp : value.at? path = some tree) : tree.Proper := by
  induction path generalizing value with
  | nil =>
      rw [at?_nil] at hp
      exact Option.some.inj hp ▸ h
  | cons key path ih =>
      rw [at?_cons] at hp
      obtain ⟨sub, hchild, hsub⟩ := Option.bind_eq_some_iff.mp hp
      cases value with
      | null => cases hchild
      | leaf _ => cases hchild
      | dict entries => exact ih (proper_of_lookup h.2 hchild) hsub

theorem at?_append (path rest : Path) :
    tree.at? (path ++ rest) = (tree.at? path).bind fun sub => sub.at? rest := by
  induction path generalizing tree with
  | nil => simp
  | cons key path ih =>
      rw [List.cons_append, at?_cons, at?_cons, Option.bind_assoc]
      congr 1
      funext sub
      exact ih

theorem at?_of_not_isDict {path : Path} (h : ¬tree.IsDict) (hp : path ≠ []) : tree.at? path = none := by
  cases path with
  | nil => exact absurd rfl hp
  | cons key path =>
      rw [at?_cons]
      cases tree with
      | null => rfl
      | leaf _ => rfl
      | dict _ => exact absurd trivial h

theorem mergeInto_of_not_isDict (h : ¬value.IsDict) : mergeInto value old = value := by
  cases value with
  | null => rfl
  | leaf _ => rfl
  | dict _ => exact absurd trivial h

-- One level of an update: its keys are merged or added, and all others stay.
theorem lookup_mergeEntries (hn : (update.map Prod.fst).Nodup) (base : List (String × Tree α)) (key : String) :
    Entries.lookup key (mergeEntries update base) =
      match Entries.lookup key update with
      | some value => some (mergeInto value (Entries.lookup key base))
      | none => Entries.lookup key base := by
  induction update generalizing base with
  | nil => rfl
  | cons entry rest ih =>
      obtain ⟨hnot, hrest⟩ := List.nodup_cons.mp hn
      rw [mergeEntries, ih hrest, Entries.lookup_assign, Entries.lookup]
      by_cases he : entry.1 = key
      · subst he
        simp [Entries.lookup_eq_none_iff.mpr hnot]
      · simp [he, Ne.symm he]

-- One level of an arriving value, whatever is there before it.
theorem child_mergeInto (hn : (update.map Prod.fst).Nodup) (old : Option (Tree α)) (key : String) :
    (mergeInto (dict update) old).child key =
      match Entries.lookup key update with
      | some sub => some (mergeInto sub (old.bind fun tree => tree.child key))
      | none => old.bind fun tree => tree.child key := by
  have halone : (dict update).child key =
      match Entries.lookup key update with
      | some sub => some (mergeInto sub none)
      | none => none := by
    rw [child]
    cases Entries.lookup key update with
    | none => rfl
    | some sub => cases sub <;> rfl
  cases old with
  | none => exact halone
  | some lower =>
      cases lower with
      | null => exact halone
      | leaf _ => exact halone
      | dict base => exact lookup_mergeEntries hn base key

-- What an arriving value makes of a path, given what was there before.
def overlay : Path → Tree α → Option (Tree α) → Option (Tree α)
  | [], value, old => some (mergeInto value old)
  | key :: path, .dict update, old =>
      match Entries.lookup key update with
      | some sub => overlay path sub old
      | none => old
  | _ :: _, _, _ => none

theorem at?_mergeInto_eq (h : value.Proper) (path : Path) (old : Option (Tree α)) :
    (mergeInto value old).at? path = overlay path value (old.bind fun tree => tree.at? path) := by
  induction path generalizing value old with
  | nil => cases old <;> simp [overlay]
  | cons key path ih =>
      cases value with
      | null => rfl
      | leaf _ => rfl
      | dict update =>
          rw [at?_cons, child_mergeInto h.1, bind_at?_cons, overlay]
          cases hl : Entries.lookup key update with
          | none => rfl
          | some sub => exact ih (proper_of_lookup h.2 hl) _

-- What an update has at a path arrives there as if it were written below the path alone.
theorem at?_mergeInto {path : Path} (h : value.Proper) (hp : value.at? path = some tree)
    (old : Option (Tree α)) :
    (mergeInto value old).at? path = some (mergeInto tree (old.bind fun sub => sub.at? path)) := by
  rw [at?_mergeInto_eq h]
  generalize (old.bind fun sub => sub.at? path) = before
  clear h
  induction path generalizing value with
  | nil =>
      rw [at?_nil] at hp
      rw [overlay, Option.some.inj hp]
  | cons key path ih =>
      rw [at?_cons] at hp
      obtain ⟨sub, hchild, hsub⟩ := Option.bind_eq_some_iff.mp hp
      cases value with
      | null => cases hchild
      | leaf _ => cases hchild
      | dict update =>
          rw [overlay, show Entries.lookup key update = some sub from hchild]
          exact ih hsub

theorem properEntries_assign {key : String} {entries : List (String × Tree α)}
    (h : ProperEntries entries) (hv : value.Proper) : ProperEntries (Entries.assign key value entries) := by
  induction entries with
  | nil => exact ⟨hv, trivial⟩
  | cons entry rest ih =>
      obtain ⟨hentry, hrest⟩ := h
      rw [Entries.assign]
      split
      · exact ⟨hv, hrest⟩
      · exact ⟨hentry, ih hrest⟩

theorem proper_put {path : Path} (hv : value.Proper) (ho : ∀ sub, old = some sub → sub.Proper)
    (h : put value old path = some tree) : tree.Proper := by
  induction path generalizing old tree with
  | nil =>
      obtain rfl : value = tree := by
        cases old <;> exact Option.some.inj h
      exact hv
  | cons key path ih =>
      cases old with
      | none =>
          obtain ⟨sub, hsub, rfl⟩ := Option.map_eq_some_iff.mp h
          exact ⟨List.nodup_singleton key, ih (fun sub (hs : none = some sub) => nomatch hs) hsub, trivial⟩
      | some base =>
          cases base with
          | null => cases h
          | leaf _ => cases h
          | dict entries =>
              obtain ⟨sub, hsub, rfl⟩ := Option.map_eq_some_iff.mp h
              obtain ⟨hn, hentries⟩ := ho _ rfl
              have hproper : sub.Proper := ih (fun _ hl => proper_of_lookup hentries hl) hsub
              exact ⟨(Dict.set ⟨entries, hn⟩ key sub).nodup, properEntries_assign hentries hproper⟩

-- Nothing of an update is in the way of a path: there are only dictionaries above it, and at the
-- path there is nothing.
def Free (path : Path) (update : List (String × Tree α)) : Prop :=
  (dict update).at? path = none ∧ ∀ above rest sub, path = above ++ rest → rest ≠ [] →
    (dict update).at? above = some sub → sub.IsDict

theorem at?_mergeEntries_of_free {path : Path} (h : (dict update).Proper) (hf : Free path update)
    (hp : (dict base).at? path = some tree) : (dict (mergeEntries update base)).at? path = some tree := by
  induction path generalizing update base with
  | nil =>
      have hnone := hf.1
      rw [at?_nil] at hnone
      cases hnone
  | cons key path ih =>
      have hlevel := lookup_mergeEntries h.1 base key
      rw [at?_cons] at hp ⊢
      obtain ⟨lower, hlower, htree⟩ := Option.bind_eq_some_iff.mp hp
      cases hl : Entries.lookup key update with
      | none =>
          rw [hl] at hlevel
          exact (congrArg (Option.bind · _) hlevel).trans hp
      | some sub =>
          have hchild : (dict update).child key = some sub := hl
          have hmerged : (dict (mergeEntries update base)).child key = some (mergeInto sub (some lower)) := by
            have hlookup : Entries.lookup key base = some lower := hlower
            rw [hl, hlookup] at hlevel
            exact hlevel
          have hnone := hf.1
          rw [at?_cons, hchild, Option.bind_some] at hnone
          have hsub (above rest : Path) (found : Tree α) (he : path = above ++ rest) (hr : rest ≠ [])
              (hfound : sub.at? above = some found) : found.IsDict := by
            refine hf.2 (key :: above) rest found (congrArg (key :: ·) he) hr ?_
            rw [at?_cons, hchild, Option.bind_some, hfound]
          have hne : path ≠ [] := by
            rintro rfl
            rw [at?_nil] at hnone
            cases hnone
          rw [hmerged, Option.bind_some]
          have hdict : sub.IsDict := hsub [] path sub rfl hne (at?_nil ..)
          -- The value below is a dictionary as well, since the path goes on in it.
          have hlowerDict : lower.IsDict := by
            by_contra hc
            rw [at?_of_not_isDict hc hne] at htree
            cases htree
          cases sub with
          | null => exact hdict.elim
          | leaf _ => exact hdict.elim
          | dict subUpdate =>
              cases lower with
              | null => exact hlowerDict.elim
              | leaf _ => exact hlowerDict.elim
              | dict subBase => exact ih (proper_of_lookup h.2 hl) ⟨hnone, hsub⟩ htree

end Layers

end Tree

end YasinCore.Library
