import YasinCore.Memory.Persistent
import YasinCore.Storage.Transactions
import Mathlib.Logic.Function.Basic

namespace YasinCore.Memory.Persistent

open YasinCore.Library YasinCore.Storage

variable {φ : Type} {b : Builtins φ} {floats : Floats φ} {disk : Disk} {now : Clock} {key : Str}
  {view view' : Str → Option (Json φ)}

-- The value of a stored dictionary that has the form of an entry, as an entry.
def parsed (b : Builtins φ) (now : Clock) : Json φ → Option (MemoryEntry φ)
  | .dict fields =>
      if (Entries.lookup (.ofString "key") fields).isNone ∨
          (Entries.lookup (.ofString "value") fields).isNone then none
      else MemoryEntry.fromDict b now fields
  | _ => none

-- The value reads as an entry that has expired.
def expired (b : Builtins φ) (now : Clock) (data : Json φ) : Bool :=
  (parsed b now data).any (·.isExpired b now)

-- The entry that a memory takes a stored value for.
def reading (b : Builtins φ) (now : Clock) (key : Str) : Option (Json φ) → Option (MemoryEntry φ)
  | none => none
  | some .null => none
  | some data => some ((parsed b now data).getD (wrapped b now key data))

-- What is stored under the keys, if it is a dictionary.
def View (view : Str → Option (Json φ)) (s : JSONFileStorage φ) : Prop :=
  ∃ entries, s.data = .dict entries ∧ ∀ key, Entries.lookup key entries = view key

-- What is left under the keys when the expired entries are gone.
def live (b : Builtins φ) (now : Clock) (view : Str → Option (Json φ)) : Str → Option (Json φ) :=
  fun key => (view key).filter fun data => !expired b now data

section Actions

-- Whether or not the file can be written, the memory stays as it is.
theorem save_data (floats : Floats φ) (disk : Disk) (pred : Json φ → Prop) :
    Triple (fun s => pred s.data) (Storage.Operation.save floats disk) (fun _ s => pred s.data)
      fun _ s => pred s.data := by
  intro s hs
  have hsaved := save_saved floats disk s
  generalize Storage.Operation.save floats disk s = result at hsaved ⊢
  cases hsaved with
  | blocked message hb => exact hs
  | failed message _ hrefused => exact hs
  | done _ => exact hs

-- An action changes the memory even if the file cannot be written.
theorem action_data {act : Action φ} (pre post : Json φ → Prop)
    (hsaves : ∀ data data', pre data → act.effect data = .saves data' → post data')
    (hkeeps : ∀ data, pre data → act.effect data = .returns ∨ act.effect data = .raises → post data) :
    Triple (fun s => pre s.data) (ofStorage (act.operation floats disk)) (fun _ s => post s.data)
      fun _ s => post s.data := by
  intro s hs
  have heffect := operation_effect floats disk act s
  unfold ofStorage
  cases he : act.effect s.data with
  | saves data =>
      rw [he] at heffect
      have hrun : act.operation floats disk s =
          Storage.Operation.save floats disk { s with data := data } := heffect
      have hsave := save_data floats disk post { s with data := data } (hsaves s.data data hs he)
      rw [hrun]
      revert hsave
      cases Storage.Operation.save floats disk { s with data := data } with
      | ok _ t => exact fun ht => ht
      | error _ t => exact fun ht => ht
  | returns =>
      rw [he] at heffect
      have hrun : act.operation floats disk s = .ok () s := heffect
      rw [hrun]
      exact hkeeps s.data hs (.inl he)
  | raises =>
      rw [he] at heffect
      obtain ⟨e, hrun, -⟩ := heffect
      rw [hrun]
      exact hkeeps s.data hs (.inr he)

theorem action_view {act : Action φ}
    (h : ∀ entries, (∀ key, Entries.lookup key entries = view key) → ∃ entries',
      (act.effect (.dict entries) = .saves (.dict entries') ∨
        act.effect (.dict entries) = .returns ∧ entries' = entries) ∧
      ∀ key, Entries.lookup key entries' = view' key) :
    Triple (View view) (ofStorage (act.operation floats disk)) (fun _ => View view')
      fun _ => View view' := by
  refine action_data
    (fun data => ∃ entries, data = .dict entries ∧ ∀ key, Entries.lookup key entries = view key)
    (fun data => ∃ entries, data = .dict entries ∧ ∀ key, Entries.lookup key entries = view' key)
    ?_ ?_
  · rintro _ data ⟨entries, rfl, hview⟩ he
    obtain ⟨entries', hsaves | ⟨hreturns, -⟩, hview'⟩ := h entries hview
    · have hdata : data = .dict entries' := Effect.saves.inj (he.symm.trans hsaves)
      exact ⟨entries', hdata, hview'⟩
    · rw [hreturns] at he
      cases he
  · rintro _ ⟨entries, rfl, hview⟩ he
    obtain ⟨entries', hsaves | ⟨-, rfl⟩, hview'⟩ := h entries hview
    · rw [hsaves] at he
      rcases he with he | he
      · cases he
      · cases he
    · exact ⟨entries', rfl, hview'⟩

theorem set_view (key : Str) (value : Json φ) :
    Triple (View view) (ofStorage (Storage.Operation.set floats disk key value))
      (fun _ => View (Function.update view key (some value)))
      fun _ => View (Function.update view key (some value)) := by
  show Triple _ (ofStorage (Action.operation floats disk (.set key value))) _ _
  refine action_view fun entries hview => ⟨_, .inl rfl, fun other => ?_⟩
  rw [Entries.lookup_assign, Function.update_apply, hview]

theorem delete_view (key : Str) :
    Triple (View view) (ofStorage (Storage.Operation.delete floats disk key))
      (fun _ => View (Function.update view key none)) fun _ => View (Function.update view key none) := by
  show Triple _ (ofStorage (Action.operation floats disk (.delete key))) _ _
  refine action_view fun entries hview => ?_
  have hlookup : ∀ other, Entries.lookup other (Entries.remove key entries) =
      Function.update view key none other := by
    intro other
    rw [Entries.lookup_remove, Function.update_apply, hview]
  by_cases hm : key ∈ entries.map Prod.fst
  · exact ⟨_, .inl (if_pos hm), hlookup⟩
  · have hremove : Entries.remove key entries = entries := by
      refine List.filter_eq_self.mpr fun entry he => ?_
      have hne : entry.1 ≠ key := fun hk => hm (hk ▸ List.mem_map_of_mem he)
      simpa using hne
    exact ⟨entries, .inr ⟨if_neg hm, rfl⟩, hremove ▸ hlookup⟩

theorem clear_view : Triple (View view) (clear floats disk) (fun _ => View fun _ => none)
    fun _ => View fun _ => none := by
  show Triple _ (ofStorage (Action.operation floats disk .clear)) _ _
  exact action_view fun _ _ => ⟨[], .inl rfl, fun _ => rfl⟩

theorem storageGet_run {s : JSONFileStorage φ} (hs : View view s) (key : Str) :
    storageGet key s = .ok ((view key).getD .null) s := by
  obtain ⟨entries, hdata, hview⟩ := hs
  have hget : s.get key .null = .ok ((view key).getD .null) := by
    rw [JSONFileStorage.get, hdata, ← hview]
  unfold storageGet
  rw [hget]

theorem getAllKeys_view : Triple (View view) (getAllKeys (φ := φ))
    (fun keys s => (∀ key, key ∈ keys ↔ (view key).isSome) ∧ View view s) fun _ _ => False := by
  refine Triple.get_bind fun seen => ?_
  rintro s ⟨rfl, entries, hdata, hview⟩
  rw [hdata]
  refine ⟨fun key => ?_, entries, hdata, hview⟩
  rw [← hview, ← not_iff_not, Option.not_isSome_iff_eq_none, Entries.lookup_eq_none_iff]

end Actions

section Reading

variable {data : Json φ}

theorem wrapped_not_isExpired (b : Builtins φ) (now : Clock) (key : Str) (data : Json φ) :
    (wrapped b now key data).isExpired b now = false := by
  simp [wrapped, MemoryEntry.init, MemoryEntry.isExpired, Builtins.truth]

-- How a value is read: as an entry, or not at all, and then it is the value of one.
theorem readEntry_cases (b : Builtins φ) (floats : Floats φ) (disk : Disk) (now : Clock) (key : Str)
    (data : Json φ) :
    (∃ entry, parsed b now data = some entry ∧ readEntry b floats disk now key data =
      if entry.isExpired b now then do
        ofStorage (Storage.Operation.delete floats disk key)
        return none
      else return some entry) ∨
    parsed b now data = none ∧
      (readEntry b floats disk now key data = pure (some (wrapped b now key data)) ∨
        readEntry b floats disk now key data = throw .conversion) := by
  cases data with
  | dict fields =>
      unfold parsed readEntry
      dsimp only
      by_cases hmissing : (Entries.lookup (.ofString "key") fields).isNone ∨
          (Entries.lookup (.ofString "value") fields).isNone
      · rw [if_pos hmissing, if_pos hmissing]
        exact .inr ⟨rfl, .inl rfl⟩
      · rw [if_neg hmissing, if_neg hmissing]
        cases MemoryEntry.fromDict b now fields with
        | none => exact .inr ⟨rfl, .inr rfl⟩
        | some entry => exact .inl ⟨entry, rfl, rfl⟩
  | _ => exact .inr ⟨rfl, .inl rfl⟩

-- A value that has not expired is read and nothing else happens.
theorem readEntry_live (h : expired b now data = false) (s : JSONFileStorage φ) :
    tryCatch (readEntry b floats disk now key data) (fun _ => return some (wrapped b now key data)) s =
      .ok (some ((parsed b now data).getD (wrapped b now key data))) s := by
  rcases readEntry_cases b floats disk now key data with ⟨entry, hparsed, hread⟩ | ⟨hparsed, hread | hread⟩
  · have hexpired : entry.isExpired b now = false := by
      rw [expired, hparsed] at h
      exact h
    rw [hread, hparsed, if_neg (by simp [hexpired])]
    rfl
  · rw [hread, hparsed]
    rfl
  · rw [hread, hparsed]
    rfl

-- An expired value is gone afterwards, and what is read in its place has not expired.
theorem readEntry_expired (h : expired b now data) :
    Triple (View view) (tryCatch (readEntry b floats disk now key data) fun _ =>
        return some (wrapped b now key data))
      (fun found s => found.any (·.isExpired b now) = false ∧ View (Function.update view key none) s)
      fun _ _ => False := by
  obtain ⟨entry, hparsed, hread⟩ | ⟨hparsed, -⟩ := readEntry_cases b floats disk now key data
  · have hexpired : entry.isExpired b now = true := by
      rw [expired, hparsed] at h
      exact h
    rw [hread, if_pos hexpired]
    refine Triple.tryCatch ((delete_view key).bind fun _ => Triple.pure fun s hs => ⟨rfl, hs⟩) fun _ => ?_
    exact Triple.pure fun s hs => ⟨wrapped_not_isExpired b now key data, hs⟩
  · rw [expired, hparsed] at h
    cases h

theorem reading_of_ne (hne : data ≠ .null) : reading b now key (some data) =
    some ((parsed b now data).getD (wrapped b now key data)) := by
  cases data with
  | null => exact absurd rfl hne
  | _ => rfl

theorem reading_live {stored : Option (Json φ)}
    (h : ∀ data, stored = some data → expired b now data = false) :
    (reading b now key stored).any (·.isExpired b now) = false := by
  cases stored with
  | none => rfl
  | some data =>
      by_cases hnull : data = .null
      · subst hnull
        rfl
      · have hlive := h data rfl
        rw [reading_of_ne hnull, Option.any_some]
        rw [expired] at hlive
        cases hparsed : parsed b now data with
        | none => exact wrapped_not_isExpired b now key data
        | some entry =>
            rw [hparsed] at hlive
            exact hlive

theorem getEntry_null {s : JSONFileStorage φ} (hget : storageGet key s = .ok .null s) :
    getEntry b floats disk now key s = .ok none s := by
  unfold getEntry
  rw [run_bind_ok hget]
  rfl

theorem getEntry_value {s : JSONFileStorage φ} (hget : storageGet key s = .ok data s)
    (hne : data ≠ .null) : getEntry b floats disk now key s =
      tryCatch (readEntry b floats disk now key data) (fun _ => return some (wrapped b now key data)) s := by
  unfold getEntry
  rw [run_bind_ok hget]
  cases data with
  | null => exact absurd rfl hne
  | _ => rfl

theorem getEntry_live (h : ∀ data, view key = some data → expired b now data = false) :
    Triple (View view) (getEntry b floats disk now key)
      (fun found s => found = reading b now key (view key) ∧ View view s) fun _ _ => False := by
  intro s hs
  have hget := storageGet_run hs key
  cases hdata : view key with
  | none =>
      rw [hdata] at hget
      rw [getEntry_null hget]
      exact ⟨rfl, hs⟩
  | some data =>
      rw [hdata, Option.getD_some] at hget
      by_cases hnull : data = .null
      · subst hnull
        rw [getEntry_null hget]
        exact ⟨rfl, hs⟩
      · rw [getEntry_value hget hnull, readEntry_live (h data hdata), reading_of_ne hnull]
        exact ⟨rfl, hs⟩

-- Whether or not the value has expired, what is read has not.
theorem getEntry_view (key : Str) : Triple (View view) (getEntry b floats disk now key)
    (fun found s => found.any (·.isExpired b now) = false ∧
      View (Function.update view key ((view key).filter fun data => !expired b now data)) s)
    fun _ _ => False := by
  intro s hs
  by_cases hexpired : ∃ data, view key = some data ∧ expired b now data
  · obtain ⟨data, hdata, hexpired⟩ := hexpired
    have hnull : data ≠ .null := by
      rintro rfl
      cases hexpired
    have hget := storageGet_run hs key
    rw [hdata, Option.getD_some] at hget
    have hread := @readEntry_expired φ b floats disk now key view data hexpired s hs
    rw [getEntry_value hget hnull, hdata, Option.filter_some, hexpired]
    exact hread
  · have hlive : ∀ data, view key = some data → expired b now data = false := by
      intro data hdata
      by_contra hc
      exact hexpired ⟨data, hdata, by simpa using hc⟩
    have hkept : (view key).filter (fun data => !expired b now data) = view key := by
      cases hdata : view key with
      | none => rfl
      | some data => simp [Option.filter_some, hlive data hdata]
    have hread := @getEntry_live φ b floats disk now key view hlive s hs
    rw [hkept, Function.update_eq_self]
    revert hread
    cases getEntry b floats disk now key s with
    | ok found t =>
        rintro ⟨rfl, ht⟩
        exact ⟨reading_live hlive, ht⟩
    | error e t => exact fun hread => hread

end Reading

section Cleanup

-- The keys of which the expired ones are removed.
def swept (b : Builtins φ) (now : Clock) (keys : List Str) (view : Str → Option (Json φ)) :
    Str → Option (Json φ) :=
  fun key => if key ∈ keys then live b now view key else view key

theorem swept_cons (key : Str) (keys : List Str) (view : Str → Option (Json φ)) :
    swept b now keys (Function.update view key (live b now view key)) = swept b now (key :: keys) view := by
  funext other
  by_cases ho : other = key
  · subst ho
    have hidem : ((view other).filter fun data => !expired b now data).filter
        (fun data => !expired b now data) = (view other).filter fun data => !expired b now data := by
      rw [Option.filter_filter]
      simp
    by_cases hm : other ∈ keys
    · simp [swept, live, hm, hidem]
    · simp [swept, live, hm]
  · simp [swept, live, ho]

-- Reading an expired value has removed it already, so that no key is collected.
theorem expiredKeys_view (keys : List Str) : Triple (View view) (expiredKeys b floats disk now keys)
    (fun found s => found = [] ∧ View (swept b now keys view) s) fun _ _ => False := by
  induction keys generalizing view with
  | nil => exact Triple.pure fun s hs => ⟨rfl, hs⟩
  | cons key keys ih =>
      refine (getEntry_view key).bind fun entry => Triple.of_fact fun hentry => ?_
      refine ih.bind fun found => Triple.of_fact ?_
      rintro rfl
      refine Triple.pure fun s hs => ⟨?_, ?_⟩
      · rw [hentry]
        rfl
      · rw [← swept_cons]
        exact hs

theorem cleanupExpired_view (depth : Nat) :
    Triple (View view) (cleanupExpired b floats disk now (depth + 1)) (fun _ => View (live b now view))
      fun _ _ => False := by
  unfold cleanupExpired
  refine getAllKeys_view.bind fun keys => Triple.of_fact fun hkeys => ?_
  refine (expiredKeys_view keys).bind fun found => Triple.of_fact ?_
  rintro rfl
  have hlive : swept b now keys view = live b now view := by
    funext key
    by_cases hm : key ∈ keys
    · exact if_pos hm
    · have hnone : view key = none := by
        rw [hkeys] at hm
        simpa using hm
      rw [swept, if_neg hm, live, hnone]
      rfl
  rw [hlive]
  exact Triple.pure fun s hs => hs

theorem live_live {data : Json φ} (h : live b now view key = some data) : expired b now data = false := by
  have hkept := (Option.filter_eq_some_iff.mp h).2
  simpa using hkept

end Cleanup

section Gather

variable {keep : MemoryEntry φ → Except MemoryError Bool}

-- What is read and kept, of the values that have not expired; an exception has a reason.
theorem gather_view (hlive : ∀ key data, view key = some data → expired b now data = false)
    (keys : List Str) : Triple (View view) (gather b floats disk now keep keys)
      (fun found s => View view s ∧
        (∀ entry, entry ∈ found ↔ ∃ key ∈ keys, reading b now key (view key) = some entry ∧
          keep entry = .ok true) ∧
        ∀ key ∈ keys, ∀ entry, reading b now key (view key) = some entry → ∃ kept, keep entry = .ok kept)
      fun _ s => View view s ∧ ∃ key ∈ keys, ∃ entry, reading b now key (view key) = some entry ∧
        ∀ kept, keep entry ≠ .ok kept := by
  induction keys with
  | nil => exact Triple.pure fun s hs => ⟨hs, by simp, by simp⟩
  | cons key keys ih =>
      unfold gather
      refine (getEntry_live (hlive key)).of_total.bind fun found => Triple.of_fact ?_
      rintro rfl
      cases hread : reading b now key (view key) with
      | none =>
          refine ih.imp (fun _ => id) ?_ ?_
          · rintro found s ⟨hs, hfound, hkept⟩
            refine ⟨hs, fun entry => ?_, ?_⟩
            · rw [hfound]
              simp [hread]
            · simpa [hread] using hkept
          · rintro e s ⟨hs, other, hm, hreason⟩
            exact ⟨hs, other, List.mem_cons_of_mem _ hm, hreason⟩
      | some entry =>
          dsimp only
          cases hk : keep entry with
          | error e =>
              refine Triple.throw fun s hs => ⟨hs, key, List.mem_cons_self, entry, hread, ?_⟩
              rw [hk]
              nofun
          | ok kept =>
              dsimp only
              refine Triple.bind (ih.imp (fun _ => id) (fun _ _ => id) ?_) fun others => ?_
              · rintro e s ⟨hs, other, hm, hreason⟩
                exact ⟨hs, other, List.mem_cons_of_mem _ hm, hreason⟩
              · refine Triple.pure fun s ⟨hs, hfound, hkept⟩ => ⟨hs, fun other => ?_, ?_⟩
                · have hhead : (entry = other ∧ keep other = .ok true) ↔ kept = true ∧ other = entry := by
                    constructor
                    · rintro ⟨rfl, ho⟩
                      rw [hk, Except.ok.injEq] at ho
                      exact ⟨ho, rfl⟩
                    · rintro ⟨rfl, rfl⟩
                      exact ⟨rfl, hk⟩
                  simp only [List.mem_cons, exists_eq_or_imp, hread, Option.some.injEq, hhead, ← hfound]
                  cases kept with
                  | true => simp
                  | false => simp
                · rintro other ho found hf
                  rcases List.mem_cons.mp ho with rfl | ho
                  · rw [hread] at hf
                    cases hf
                    exact ⟨kept, hk⟩
                  · exact hkept other ho found hf

end Gather

section Calls

variable (depth : Nat)

-- What has not expired is left under all keys but the one that is written.
theorem live_updated {value : Option (Json φ)} {s : JSONFileStorage φ}
    (hs : View (Function.update (live b now view) key value) s) :
    ∃ view', View view' s ∧ ∀ other, other ≠ key → view' other = live b now view other :=
  ⟨_, hs, fun _ ho => Function.update_of_ne ho _ _⟩

theorem set_live (key : Str) (value : Json φ) (metadata : Option (List (Str × Json φ)))
    (ttl : Option Int) : Triple (View view) (set b floats disk now (depth + 1) key value metadata ttl)
      (fun _ s => ∃ view', View view' s ∧ ∀ other, other ≠ key → view' other = live b now view other)
      fun _ s => ∃ view', View view' s ∧ ∀ other, other ≠ key → view' other = live b now view other := by
  unfold set
  refine (cleanupExpired_view depth).of_total.bind fun _ => ?_
  cases MemoryEntry.ofSet b now key value metadata ttl with
  | error e => exact Triple.throw fun s hs => ⟨_, hs, fun _ _ => rfl⟩
  | ok entry =>
      exact (set_view key (.dict entry.toDict)).imp (fun _ => id) (fun _ _ => live_updated)
        fun _ _ => live_updated

theorem delete_live (key : Str) : Triple (View view) (delete b floats disk now (depth + 1) key)
    (fun _ s => ∃ view', View view' s ∧ ∀ other, other ≠ key → view' other = live b now view other)
    fun _ s => ∃ view', View view' s ∧ ∀ other, other ≠ key → view' other = live b now view other := by
  unfold delete
  refine (cleanupExpired_view depth).of_total.bind fun _ => ?_
  exact (delete_view key).imp (fun _ => id) (fun _ _ => live_updated) fun _ _ => live_updated

theorem get_live (key : Str) (default : Json φ) :
    Triple (View view) (get b floats disk now (depth + 1) key default)
      (fun _ => View (live b now view)) fun _ _ => False := by
  unfold get
  refine (cleanupExpired_view depth).bind fun _ => ?_
  refine (getEntry_live fun data => live_live).bind fun found => Triple.of_fact fun _ => ?_
  cases found with
  | none => exact Triple.pure fun _ => id
  | some entry => exact Triple.pure fun _ => id

-- What search and filter have in common: the loop over all keys, once what has expired is gone.
theorem gather_live (keep : MemoryEntry φ → Except MemoryError Bool) :
    Triple (View view) (do
        cleanupExpired b floats disk now (depth + 1)
        gather b floats disk now keep (← getAllKeys))
      (fun found s => View (live b now view) s ∧
        (∀ entry, entry ∈ found ↔ ∃ key, reading b now key (live b now view key) = some entry ∧
          keep entry = .ok true) ∧
        ∀ key entry, reading b now key (live b now view key) = some entry → ∃ kept, keep entry = .ok kept)
      fun _ s => View (live b now view) s ∧ ∃ key entry,
        reading b now key (live b now view key) = some entry ∧ ∀ kept, keep entry ≠ .ok kept := by
  refine (cleanupExpired_view depth).of_total.bind fun _ => ?_
  refine getAllKeys_view.of_total.bind fun keys => Triple.of_fact fun hkeys => ?_
  have hmem : ∀ {key entry}, reading b now key (live b now view key) = some entry → key ∈ keys := by
    intro key entry hread
    rw [hkeys]
    cases hdata : live b now view key with
    | none =>
        rw [hdata] at hread
        cases hread
    | some data => rfl
  refine (gather_view (fun key data => live_live) keys).imp (fun _ => id) ?_ ?_
  · rintro found s ⟨hs, hfound, hkept⟩
    refine ⟨hs, fun entry => (hfound entry).trans ⟨?_, ?_⟩, fun key entry hread => ?_⟩
    · rintro ⟨key, -, hread⟩
      exact ⟨key, hread⟩
    · rintro ⟨key, hread, hk⟩
      exact ⟨key, hmem hread, hread, hk⟩
    · exact hkept key (hmem hread) entry hread
  · rintro e s ⟨hs, key, -, entry, hreason⟩
    exact ⟨hs, key, entry, hreason⟩

theorem status_live : Triple (View view) (status b floats disk now (depth + 1))
    (fun result s => View (live b now view) s ∧ ∃ keys, result = .status "active" keys.length keys ∧
      ∀ key, key ∈ keys ↔ (live b now view key).isSome) fun _ _ => False := by
  unfold status
  refine (cleanupExpired_view depth).bind fun _ => ?_
  refine getAllKeys_view.bind fun keys => Triple.of_fact fun hkeys => ?_
  exact Triple.pure fun s hs => ⟨hs, keys, rfl, hkeys⟩

end Calls

end YasinCore.Memory.Persistent
