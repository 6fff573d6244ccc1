import Mathlib.Data.List.Nodup
import Mathlib.Data.List.Perm.Basic

namespace YasinCore.Library

variable {κ α β : Type*}

namespace Entries

theorem keys_filterMap (f : κ → α → Option β) (entries : List (κ × α)) :
    ((entries.filterMap fun entry => (f entry.1 entry.2).map fun value => (entry.1, value)).map
      Prod.fst).Sublist (entries.map Prod.fst) := by
  induction entries with
  | nil => exact List.nil_sublist _
  | cons entry rest ih =>
      cases hf : f entry.1 entry.2 with
      | none =>
          rw [List.filterMap_cons_none (by simp [hf])]
          exact ih.cons _
      | some value =>
          rw [List.filterMap_cons_some (b := (entry.1, value)) (by simp [hf])]
          exact ih.cons_cons _

variable [DecidableEq κ]

def lookup (key : κ) : List (κ × α) → Option α
  | [] => none
  | (other, value) :: rest => if other = key then some value else lookup key rest

-- Assignment keeps the position of a key that is already there.
def assign (key : κ) (value : α) : List (κ × α) → List (κ × α)
  | [] => [(key, value)]
  | (other, old) :: rest =>
      if other = key then (other, value) :: rest else (other, old) :: assign key value rest

def remove (key : κ) (entries : List (κ × α)) : List (κ × α) :=
  entries.filter (fun entry => entry.1 ≠ key)

theorem lookup_assign (key other : κ) (value : α) (entries : List (κ × α)) :
    lookup other (assign key value entries) =
      if other = key then some value else lookup other entries := by
  induction entries with
  | nil =>
      by_cases h : other = key
      · simp [assign, lookup, h]
      · simp [assign, lookup, h, Ne.symm h]
  | cons entry rest ih =>
      simp only [assign]
      by_cases he : entry.1 = key
      · by_cases h : other = key
        · simp [lookup, he, h]
        · have hne : entry.1 ≠ other := fun hc => h (hc.symm.trans he)
          simp [lookup, he, h, Ne.symm h]
      · simp only [he, ite_false, lookup, ih]
        by_cases h : entry.1 = other
        · have hne : other ≠ key := fun hc => he (h.trans hc)
          simp [h, hne]
        · simp [h]

theorem lookup_remove (key other : κ) (entries : List (κ × α)) :
    lookup other (remove key entries) = if other = key then none else lookup other entries := by
  induction entries with
  | nil => simp [remove, lookup]
  | cons entry rest ih =>
      simp only [remove, List.filter_cons] at ih ⊢
      by_cases he : entry.1 = key
      · by_cases h : other = key
        · simpa [he, h] using ih
        · simpa [he, h, lookup, Ne.symm h] using ih
      · by_cases h : entry.1 = other
        · have hne : other ≠ key := fun hc => he (h.trans hc)
          simp [h, lookup, hne]
        · simpa [he, h, lookup] using ih

theorem mem_of_lookup {key : κ} {value : α} {entries : List (κ × α)}
    (h : lookup key entries = some value) : (key, value) ∈ entries := by
  induction entries with
  | nil => simp [lookup] at h
  | cons entry rest ih =>
      simp only [lookup] at h
      split at h
      · rename_i he
        cases h
        exact he ▸ List.mem_cons_self
      · exact List.mem_cons_of_mem _ (ih h)

theorem lookup_of_mem {key : κ} {value : α} {entries : List (κ × α)}
    (hn : (entries.map Prod.fst).Nodup) (h : (key, value) ∈ entries) :
    lookup key entries = some value := by
  induction entries with
  | nil => simp at h
  | cons entry rest ih =>
      simp only [List.map_cons, List.nodup_cons] at hn
      rcases List.mem_cons.mp h with rfl | h
      · simp [lookup]
      · have hne : entry.1 ≠ key := by
          rintro rfl
          exact hn.1 (List.mem_map.mpr ⟨_, h, rfl⟩)
        simp [lookup, hne, ih hn.2 h]

theorem lookup_eq_none_iff {key : κ} {entries : List (κ × α)} :
    lookup key entries = none ↔ key ∉ entries.map Prod.fst := by
  induction entries with
  | nil => simp [lookup]
  | cons entry rest ih =>
      simp only [lookup, List.map_cons, List.mem_cons, not_or]
      by_cases h : entry.1 = key
      · simp [h]
      · simp [h, ih, Ne.symm h]

theorem assign_of_notMem {key : κ} {entries : List (κ × α)} (h : key ∉ entries.map Prod.fst) (value : α) :
    assign key value entries = entries ++ [(key, value)] := by
  induction entries with
  | nil => rfl
  | cons entry rest ih =>
      obtain ⟨hne, hrest⟩ := not_or.mp (List.mem_cons.not.mp h)
      rw [assign, if_neg (Ne.symm hne), ih hrest]
      rfl

-- Entries without repeated keys make the dictionary that they list.
theorem foldl_assign {first second : List (κ × α)} (h : ((first ++ second).map Prod.fst).Nodup) :
    second.foldl (fun entries entry => assign entry.1 entry.2 entries) first = first ++ second := by
  induction second generalizing first with
  | nil => simp
  | cons entry second ih =>
      have hsplit : first ++ entry :: second = (first ++ [entry]) ++ second := by simp
      have hnot : entry.1 ∉ first.map Prod.fst := by
        rw [List.map_append, List.nodup_append] at h
        exact fun hm => h.2.2 _ hm _ List.mem_cons_self rfl
      rw [List.foldl_cons, assign_of_notMem hnot, hsplit]
      exact ih (hsplit ▸ h)

theorem keys_assign (key : κ) (value : α) (entries : List (κ × α)) :
    (assign key value entries).map Prod.fst =
      if key ∈ entries.map Prod.fst then entries.map Prod.fst
      else entries.map Prod.fst ++ [key] := by
  induction entries with
  | nil => simp [assign]
  | cons entry rest ih =>
      simp only [assign]
      by_cases h : entry.1 = key
      · simp [h]
      · simp only [h, ite_false, List.map_cons, ih, List.mem_cons, Ne.symm h, false_or]
        split <;> simp

theorem assign_assign (key : κ) (first second : α) (entries : List (κ × α)) :
    assign key second (assign key first entries) = assign key second entries := by
  induction entries with
  | nil => simp [assign]
  | cons entry entries ih =>
      by_cases h : entry.1 = key
      · simp [assign, h]
      · simp [assign, h, ih]

theorem assign_of_lookup {key : κ} {value : α} {entries : List (κ × α)}
    (h : lookup key entries = some value) : assign key value entries = entries := by
  induction entries with
  | nil => cases h
  | cons entry rest ih =>
      rw [lookup] at h
      rw [assign]
      split at h
      · rename_i he
        cases h
        rw [if_pos he]
      · rename_i hne
        rw [if_neg hne, ih h]

theorem mem_values_assign {key : κ} {value other : α} {entries : List (κ × α)}
    (h : other ∈ (assign key value entries).map Prod.snd) :
    other = value ∨ other ∈ entries.map Prod.snd := by
  induction entries with
  | nil => exact .inl (List.mem_singleton.mp h)
  | cons entry rest ih =>
      rw [assign] at h
      split at h
      · exact (List.mem_cons.mp h).imp_right (List.mem_cons_of_mem _)
      · rcases List.mem_cons.mp h with he | h
        · exact .inr (List.mem_cons.mpr (.inl he))
        · exact (ih h).imp_right (List.mem_cons_of_mem _)

theorem nodup_values_assign {value : α} {entries : List (κ × α)} (h : (entries.map Prod.snd).Nodup)
    (hv : value ∉ entries.map Prod.snd) (key : κ) :
    ((assign key value entries).map Prod.snd).Nodup := by
  induction entries with
  | nil => exact List.nodup_singleton value
  | cons entry rest ih =>
      obtain ⟨hentry, hnodup⟩ := List.nodup_cons.mp h
      obtain ⟨hne, hrest⟩ := not_or.mp (List.mem_cons.not.mp hv)
      rw [assign]
      split
      · exact List.nodup_cons.mpr ⟨hrest, hnodup⟩
      · refine List.nodup_cons.mpr ⟨fun hm => ?_, ih hnodup hrest⟩
        rcases mem_values_assign hm with he | hm
        · exact hne he.symm
        · exact hentry hm

theorem keys_remove (key : κ) (entries : List (κ × α)) :
    (remove key entries).map Prod.fst = (entries.map Prod.fst).filter (· ≠ key) := by
  simp only [remove, List.filter_map]
  rfl

end Entries

-- An insertion-ordered map: the entries in the order in which their keys were first assigned.
structure Dict (κ : Type*) (α : Type*) where
  entries : List (κ × α)
  nodup : (entries.map Prod.fst).Nodup

namespace Dict

@[ext] theorem ext {left right : Dict κ α} (h : left.entries = right.entries) : left = right := by
  cases left; cases right; cases h; rfl

instance [DecidableEq κ] [DecidableEq α] : DecidableEq (Dict κ α) := fun left right =>
  decidable_of_iff (left.entries = right.entries) ⟨ext, congrArg entries⟩

def empty : Dict κ α := ⟨[], List.nodup_nil⟩

def keys (dict : Dict κ α) : List κ := dict.entries.map Prod.fst

def values (dict : Dict κ α) : List α := dict.entries.map Prod.snd

def size (dict : Dict κ α) : Nat := dict.entries.length

instance : Membership κ (Dict κ α) := ⟨fun dict key => key ∈ dict.keys⟩

def mapValues (dict : Dict κ α) (f : κ → α → β) : Dict κ β where
  entries := dict.entries.map fun entry => (entry.1, f entry.1 entry.2)
  nodup := by simpa only [List.map_map, Function.comp_def] using dict.nodup

def filter (dict : Dict κ α) (keep : κ → α → Bool) : Dict κ α where
  entries := dict.entries.filter fun entry => keep entry.1 entry.2
  nodup := dict.nodup.sublist (List.filter_sublist.map _)

-- The entries for which the function has a value, under their old keys.
def filterMap (dict : Dict κ α) (f : κ → α → Option β) : Dict κ β where
  entries := dict.entries.filterMap fun entry => (f entry.1 entry.2).map fun value => (entry.1, value)
  nodup := dict.nodup.sublist (Entries.keys_filterMap f dict.entries)

theorem values_filter (dict : Dict κ α) (keep : κ → α → Bool) :
    (dict.filter keep).values.Sublist dict.values :=
  List.filter_sublist.map _

@[simp] theorem keys_empty : (empty : Dict κ α).keys = [] := rfl

@[simp] theorem keys_mapValues (dict : Dict κ α) (f : κ → α → β) :
    (dict.mapValues f).keys = dict.keys := by
  simp [keys, mapValues]

variable [DecidableEq κ]

instance (key : κ) (dict : Dict κ α) : Decidable (key ∈ dict) :=
  inferInstanceAs (Decidable (key ∈ dict.keys))

def get? (dict : Dict κ α) (key : κ) : Option α := Entries.lookup key dict.entries

def set (dict : Dict κ α) (key : κ) (value : α) : Dict κ α where
  entries := Entries.assign key value dict.entries
  nodup := by
    rw [Entries.keys_assign]
    split
    · exact dict.nodup
    · rename_i h
      refine List.nodup_append.mpr ⟨dict.nodup, List.nodup_singleton _, ?_⟩
      rintro other ho _ hk rfl
      exact h (List.mem_singleton.mp hk ▸ ho)

-- The entries of another dictionary, set one after the other.
def update (dict other : Dict κ α) : Dict κ α :=
  other.entries.foldl (fun (d : Dict κ α) entry => d.set entry.1 entry.2) dict

-- The dictionary that a list of entries makes, the last one of a key deciding.
def ofEntries (entries : List (κ × α)) : Dict κ α :=
  entries.foldl (fun (d : Dict κ α) entry => d.set entry.1 entry.2) ⟨[], List.nodup_nil⟩

def erase (dict : Dict κ α) (key : κ) : Dict κ α where
  entries := Entries.remove key dict.entries
  nodup := by
    rw [Entries.keys_remove]
    exact dict.nodup.filter _

@[simp] theorem get?_empty (key : κ) : (empty : Dict κ α).get? key = none := rfl

theorem get?_set (dict : Dict κ α) (key other : κ) (value : α) :
    (dict.set key value).get? other = if other = key then some value else dict.get? other :=
  Entries.lookup_assign key other value dict.entries

@[simp] theorem get?_set_self (dict : Dict κ α) (key : κ) (value : α) :
    (dict.set key value).get? key = some value := by
  simp [get?_set]

theorem get?_set_of_ne (dict : Dict κ α) {key other : κ} (value : α) (h : other ≠ key) :
    (dict.set key value).get? other = dict.get? other := by
  simp [get?_set, h]

theorem forall_set {dict : Dict κ α} {holds : κ → α → Prop}
    (h : ∀ key value, dict.get? key = some value → holds key value) {key : κ} {value : α}
    (hnew : holds key value) (other : κ) (found : α) (hget : (dict.set key value).get? other = some found) :
    holds other found := by
  rw [get?_set] at hget
  split at hget
  · rename_i he
    obtain rfl := Option.some.inj hget
    rwa [he]
  · exact h other found hget

theorem ofEntries_entries (dict : Dict κ α) : ofEntries dict.entries = dict := by
  have hfold (entries : List (κ × α)) (d : Dict κ α) :
      (entries.foldl (fun (d : Dict κ α) entry => d.set entry.1 entry.2) d).entries =
        entries.foldl (fun entries entry => Entries.assign entry.1 entry.2 entries) d.entries := by
    induction entries generalizing d with
    | nil => rfl
    | cons entry entries ih => exact ih _
  apply ext
  have hassign := @Entries.foldl_assign κ α _ [] dict.entries dict.nodup
  rw [ofEntries, hfold, hassign, List.nil_append]

theorem ofEntries_of_nodup {entries : List (κ × α)} (h : (entries.map Prod.fst).Nodup) :
    ofEntries entries = ⟨entries, h⟩ :=
  ofEntries_entries ⟨entries, h⟩

-- Of two values set under one key the second stays.
theorem set_set (dict : Dict κ α) (key : κ) (first second : α) :
    (dict.set key first).set key second = dict.set key second := by
  apply ext
  exact Entries.assign_assign key first second dict.entries

-- A value that is there already
theorem set_eq_self {dict : Dict κ α} {key : κ} {value : α} (h : dict.get? key = some value) :
    dict.set key value = dict := by
  apply ext
  exact Entries.assign_of_lookup h

theorem get?_erase (dict : Dict κ α) (key other : κ) :
    (dict.erase key).get? other = if other = key then none else dict.get? other :=
  Entries.lookup_remove key other dict.entries

@[simp] theorem get?_erase_self (dict : Dict κ α) (key : κ) : (dict.erase key).get? key = none := by
  simp [get?_erase]

theorem get?_erase_of_ne (dict : Dict κ α) {key other : κ} (h : other ≠ key) :
    (dict.erase key).get? other = dict.get? other := by
  simp [get?_erase, h]

theorem mem_entries_iff (dict : Dict κ α) (key : κ) (value : α) :
    (key, value) ∈ dict.entries ↔ dict.get? key = some value :=
  ⟨Entries.lookup_of_mem dict.nodup, Entries.mem_of_lookup⟩

theorem get?_eq_none_iff (dict : Dict κ α) (key : κ) : dict.get? key = none ↔ key ∉ dict :=
  Entries.lookup_eq_none_iff

theorem mem_iff (dict : Dict κ α) (key : κ) : key ∈ dict ↔ ∃ value, dict.get? key = some value := by
  rw [← Option.ne_none_iff_exists', ne_eq, get?_eq_none_iff, not_not]

theorem mem_keys_iff (dict : Dict κ α) (key : κ) :
    key ∈ dict.keys ↔ ∃ value, dict.get? key = some value := mem_iff dict key

theorem values_erase (dict : Dict κ α) (key : κ) : (dict.erase key).values.Sublist dict.values :=
  List.filter_sublist.map _

theorem mem_values_iff (dict : Dict κ α) (value : α) :
    value ∈ dict.values ↔ ∃ key, dict.get? key = some value := by
  constructor
  · intro h
    obtain ⟨⟨key, found⟩, he, rfl⟩ := List.mem_map.mp h
    exact ⟨key, (dict.mem_entries_iff key found).mp he⟩
  · rintro ⟨key, h⟩
    exact List.mem_map.mpr ⟨(key, value), (dict.mem_entries_iff key value).mpr h, rfl⟩

theorem mem_values_set {dict : Dict κ α} {key : κ} {value other : α}
    (h : other ∈ (dict.set key value).values) : other = value ∨ other ∈ dict.values :=
  Entries.mem_values_assign h

theorem nodup_values_set {dict : Dict κ α} {value : α} (h : dict.values.Nodup)
    (hv : value ∉ dict.values) (key : κ) : (dict.set key value).values.Nodup :=
  Entries.nodup_values_assign h hv key

theorem keys_set (dict : Dict κ α) (key : κ) (value : α) :
    (dict.set key value).keys = if key ∈ dict then dict.keys else dict.keys ++ [key] :=
  Entries.keys_assign key value dict.entries

-- Two dictionaries with the same keys still have them after an assignment to the same key.
theorem keys_set_congr {left : Dict κ α} {right : Dict κ β} (h : left.keys = right.keys) (key : κ)
    (value : α) (value' : β) : (left.set key value).keys = (right.set key value').keys := by
  have hmem : key ∈ left ↔ key ∈ right := by
    change key ∈ left.keys ↔ key ∈ right.keys
    rw [h]
  rw [keys_set, keys_set, h]
  simp only [hmem]

theorem keys_erase_congr {left : Dict κ α} {right : Dict κ β} (h : left.keys = right.keys) (key : κ) :
    (left.erase key).keys = (right.erase key).keys := by
  change (Entries.remove key left.entries).map Prod.fst = (Entries.remove key right.entries).map Prod.fst
  rw [Entries.keys_remove, Entries.keys_remove]
  exact congrArg (List.filter _) h

theorem mem_set (dict : Dict κ α) (key other : κ) (value : α) :
    other ∈ dict.set key value ↔ other = key ∨ other ∈ dict := by
  rw [mem_iff, get?_set, mem_iff]
  by_cases h : other = key <;> simp [h]

theorem mem_erase (dict : Dict κ α) (key other : κ) :
    other ∈ dict.erase key ↔ other ≠ key ∧ other ∈ dict := by
  rw [mem_iff, get?_erase, mem_iff]
  by_cases h : other = key <;> simp [h]

theorem get?_mapValues (dict : Dict κ α) (f : κ → α → β) (key : κ) :
    (dict.mapValues f).get? key = (dict.get? key).map (f key) := by
  obtain ⟨entries, _⟩ := dict
  simp only [get?, mapValues]
  induction entries with
  | nil => rfl
  | cons entry rest ih =>
      simp only [List.map_cons, Entries.lookup]
      by_cases h : entry.1 = key
      · simp [h]
      · simpa [h] using ih (by simp_all)

theorem get?_filter (dict : Dict κ α) (keep : κ → α → Bool) (key : κ) :
    (dict.filter keep).get? key = (dict.get? key).filter (keep key) := by
  apply Option.ext
  intro value
  rw [← mem_entries_iff, Option.filter_eq_some_iff, ← mem_entries_iff]
  simp [filter]

theorem get?_filterMap (dict : Dict κ α) (f : κ → α → Option β) (key : κ) :
    (dict.filterMap f).get? key = (dict.get? key).bind (f key) := by
  apply Option.ext
  intro value
  rw [← mem_entries_iff, Option.bind_eq_some_iff]
  simp only [filterMap, List.mem_filterMap, Option.map_eq_some_iff, Prod.mk.injEq]
  constructor
  · rintro ⟨⟨other, old⟩, hm, found, hf, rfl, rfl⟩
    exact ⟨old, (dict.mem_entries_iff other old).mp hm, hf⟩
  · rintro ⟨old, hold, hf⟩
    exact ⟨(key, old), (dict.mem_entries_iff key old).mpr hold, value, hf, rfl, rfl⟩

theorem erase_eq_filter (dict : Dict κ α) (key : κ) :
    dict.erase key = dict.filter fun other _ => other ≠ key := rfl

omit [DecidableEq κ] in
theorem filter_filter (dict : Dict κ α) (first second : κ → α → Bool) :
    (dict.filter first).filter second =
      dict.filter fun key value => first key value && second key value := by
  apply ext
  simp only [filter, List.filter_filter, Bool.and_comm]

theorem filter_congr {dict : Dict κ α} {keep keep' : κ → α → Bool}
    (h : ∀ key value, dict.get? key = some value → keep key value = keep' key value) :
    dict.filter keep = dict.filter keep' := by
  apply ext
  refine List.filter_congr fun entry he => h entry.1 entry.2 ?_
  exact (dict.mem_entries_iff _ _).mp he

theorem filter_eq_self {dict : Dict κ α} {keep : κ → α → Bool}
    (h : ∀ key value, dict.get? key = some value → keep key value) : dict.filter keep = dict := by
  apply ext
  refine List.filter_eq_self.mpr fun entry he => h entry.1 entry.2 ?_
  exact (dict.mem_entries_iff _ _).mp he

theorem foldl_erase (dict : Dict κ α) (keys : List κ) :
    keys.foldl erase dict = dict.filter fun key _ => key ∉ keys := by
  induction keys generalizing dict with
  | nil => exact (filter_eq_self fun _ _ _ => by simp).symm
  | cons key keys ih =>
      rw [List.foldl_cons, ih, erase_eq_filter, filter_filter]
      exact filter_congr fun other _ _ => by simp

-- A new value under a key takes the place of the old one, among those that are kept as in all.
theorem filter_set_of_keep {dict : Dict κ α} {keep : κ → α → Bool} {key : κ} {value old : α}
    (h : dict.get? key = some old) (hold : keep key old) (hnew : keep key value) :
    (dict.set key value).filter keep = (dict.filter keep).set key value := by
  apply ext
  obtain ⟨entries, _⟩ := dict
  simp only [get?] at h
  simp only [set, filter]
  induction entries with
  | nil => cases h
  | cons entry rest ih =>
      rw [Entries.lookup] at h
      by_cases hk : entry.1 = key
      · rw [if_pos hk, Option.some.injEq] at h
        obtain ⟨_, _⟩ := entry
        subst hk h
        simp [Entries.assign, hold, hnew]
      · rw [if_neg hk] at h
        have hrest := ih (by simp_all) h
        by_cases he : keep entry.1 entry.2
        · simp [Entries.assign, hk, he, hrest]
        · simp [Entries.assign, hk, he, hrest]

-- A new value that is not kept takes the old one away.
theorem filter_set_of_drop {dict : Dict κ α} {keep : κ → α → Bool} {key : κ} {value : α}
    (hnew : keep key value = false) :
    (dict.set key value).filter keep = (dict.filter keep).erase key := by
  apply ext
  obtain ⟨entries, hnodup⟩ := dict
  simp only [set, filter, erase, Entries.remove, List.filter_filter]
  induction entries with
  | nil => simp [Entries.assign, hnew]
  | cons entry rest ih =>
      obtain ⟨hnot, hnodup⟩ := List.nodup_cons.mp hnodup
      by_cases hk : entry.1 = key
      · subst hk
        have hrest : ∀ other ∈ rest, other.1 ≠ entry.1 := fun other hm he =>
          hnot (List.mem_map.mpr ⟨other, hm, he⟩)
        have hall : rest.filter (fun other => keep other.1 other.2) =
            rest.filter fun other => decide (other.1 ≠ entry.1) && keep other.1 other.2 :=
          List.filter_congr fun other hm => by simp [hrest other hm]
        simpa [Entries.assign, hnew] using hall
      · by_cases he : keep entry.1 entry.2
        · simp [Entries.assign, hk, he, ih hnodup]
        · simp [Entries.assign, hk, he, ih hnodup]

theorem erase_of_notMem {dict : Dict κ α} {key : κ} (h : key ∉ dict) : dict.erase key = dict := by
  rw [erase_eq_filter]
  refine filter_eq_self fun other value hv => ?_
  have hne : other ≠ key := by
    rintro rfl
    exact h ((mem_iff dict other).mpr ⟨value, hv⟩)
  simpa using hne

-- An entry that is erased at once leaves nothing.
theorem erase_set (dict : Dict κ α) (key : κ) (value : α) :
    (dict.set key value).erase key = dict.erase key := by
  rw [erase_eq_filter, filter_set_of_drop (by simp), ← erase_eq_filter]
  exact erase_of_notMem fun h => ((mem_erase dict key key).mp h).1 rfl

theorem mapValues_erase (dict : Dict κ α) (f : α → β) (key : κ) :
    (dict.erase key).mapValues (fun _ => f) = (dict.mapValues fun _ => f).erase key := by
  apply ext
  simp only [erase, mapValues, Entries.remove, List.filter_map]
  rfl

theorem mapValues_set (dict : Dict κ α) (f : α → β) (key : κ) (value : α) :
    (dict.set key value).mapValues (fun _ => f) = (dict.mapValues fun _ => f).set key (f value) := by
  apply ext
  obtain ⟨entries, _⟩ := dict
  simp only [set, mapValues]
  induction entries with
  | nil => rfl
  | cons entry rest ih =>
      simp only [Entries.assign, List.map_cons]
      split
      · rfl
      · rw [List.map_cons, ih (by simp_all)]

end Dict

end YasinCore.Library
