import YasinCore.Memory.Persistent
import YasinCore.Memory.Visible
import YasinCore.Storage.Transactions

namespace YasinCore.Memory

open YasinCore.Library YasinCore.Storage

variable {φ : Type} {b : Builtins φ} {now later : Clock} {key : Str} {entry : MemoryEntry φ}
  {kept : Data φ}

-- What set makes of a serializable value under a key: a created entry, with no end or one in UTC.
structure Stored (key : Str) (entry : MemoryEntry φ) : Prop where
  key_eq : entry.key = .str key
  created : ∃ text, text ≠ [] ∧ entry.createdAt = .str text
  expires : entry.expireAt = .null ∨
    ∃ exp : DateTime, exp.offset = some 0 ∧ entry.expireAt = .str exp.isoformat
  value : entry.value.Serializable
  metadata : ∃ entries, entry.metadata = .ofEntries entries ∧ Json.SerializableEntries entries

def AllStored (kept : Data φ) : Prop := ∀ key entry, kept.get? key = some entry → Stored key entry

theorem isoformat_ne_nil (d : DateTime) : d.isoformat ≠ [] := List.cons_ne_nil _ _

-- What to_dict writes, from_dict reads.
theorem Stored.fromDict_toDict (h : Stored key entry) (b : Builtins φ) (now : Clock) :
    MemoryEntry.fromDict b now entry.toDict = some entry := by
  obtain ⟨text, hne, hcreated⟩ := h.created
  obtain ⟨entries, hmetadata, -⟩ := h.metadata
  obtain ⟨k, value, metadata, createdAt, expireAt⟩ := entry
  dsimp only at hcreated hmetadata
  subst hcreated hmetadata
  have htruth : b.truth (.str text) = true := by
    cases text with
    | nil => exact absurd rfl hne
    | cons _ _ => rfl
  have hinit : MemoryEntry.init b now k value (.ofEntries entries) (.str text) expireAt =
      ⟨k, value, .ofEntries entries, .str text, expireAt⟩ := by
    simp [MemoryEntry.init, htruth]
  unfold MemoryEntry.toDict
  rw [Items.named_ofEntries]
  exact congrArg some hinit

theorem isExpired_of_null (h : entry.expireAt = .null) : entry.isExpired b now = false := by
  simp [MemoryEntry.isExpired, h, Builtins.truth]

theorem isExpired_iff {exp : DateTime} (hexp : exp.offset = some 0)
    (h : entry.expireAt = .str exp.isoformat) :
    entry.isExpired b now ↔ exp.micros < now.utc.micros := by
  have htruth : b.truth (.str exp.isoformat) = true := rfl
  simp [MemoryEntry.isExpired, h, htruth, DateTime.fromisoformat_isoformat, DateTime.isAware,
    DateTime.instant, hexp, now.utc_offset]

-- An entry that has expired stays so.
theorem Stored.isExpired_mono (h : Stored key entry) (hle : now.utc.micros ≤ later.utc.micros)
    (hexpired : entry.isExpired b now) : entry.isExpired b later := by
  obtain hnull | ⟨exp, hexp, htext⟩ := h.expires
  · rw [isExpired_of_null hnull] at hexpired
    cases hexpired
  · rw [isExpired_iff hexp htext] at hexpired ⊢
    omega

theorem addSeconds_offset {d exp : DateTime} {seconds : Int} (h : d.addSeconds seconds = some exp) :
    exp.offset = d.offset := by
  unfold DateTime.addSeconds at h
  split at h
  · cases h
    rfl
  · cases h

theorem stored_init (now : Clock) {value : Json φ} {metadata : List (Str × Json φ)} {expireAt : Json φ}
    (hvalue : value.Serializable) (hmetadata : Json.SerializableEntries metadata)
    (hexpires : expireAt = .null ∨ ∃ exp : DateTime, exp.offset = some 0 ∧ expireAt = .str exp.isoformat) :
    Stored key (.init b now (.str key) value (.ofEntries metadata) .null expireAt) where
  key_eq := rfl
  created := ⟨now.utc.isoformat, isoformat_ne_nil _, rfl⟩
  expires := hexpires
  value := hvalue
  metadata := ⟨metadata, rfl, hmetadata⟩

theorem stored_ofSet {value : Json φ} {metadata : Option (List (Str × Json φ))} {ttl : Option Int}
    (hvalue : value.Serializable) (hmetadata : Json.SerializableEntries (metadata.getD []))
    (h : MemoryEntry.ofSet b now key value metadata ttl = .ok entry) : Stored key entry := by
  unfold MemoryEntry.ofSet at h
  cases ttl with
  | none =>
      cases h
      exact stored_init now hvalue hmetadata (.inl rfl)
  | some ttl =>
      dsimp only at h
      cases hexp : now.utc.addSeconds ttl with
      | none =>
          rw [hexp] at h
          cases h
      | some exp =>
          rw [hexp] at h
          cases h
          have hoffset : exp.offset = some 0 := (addSeconds_offset hexp).trans now.utc_offset
          exact stored_init now hvalue hmetadata (.inr ⟨exp, hoffset, rfl⟩)

theorem AllStored.empty : AllStored (.empty : Data φ) := by
  intro key entry he
  simp at he

theorem AllStored.filter (h : AllStored kept) (keep : Str → MemoryEntry φ → Bool) :
    AllStored (kept.filter keep) := by
  intro key entry he
  rw [Dict.get?_filter] at he
  exact h key entry (Option.filter_eq_some_iff.mp he).1

theorem AllStored.erase (h : AllStored kept) (key : Str) : AllStored (kept.erase key) := by
  rw [Dict.erase_eq_filter]
  exact h.filter _

theorem AllStored.set (h : AllStored kept) (hentry : Stored key entry) :
    AllStored (kept.set key entry) := by
  intro other found hf
  rw [Dict.get?_set] at hf
  split at hf
  · rename_i ho
    cases hf
    exact ho ▸ hentry
  · exact h other found hf

-- The data of the storage that keeps some entries.
def encoded (kept : Data φ) : Json φ :=
  .dict (kept.mapValues fun _ entry => Json.dict entry.toDict).entries

def Stores (kept : Data φ) (s : JSONFileStorage φ) : Prop := s.data = encoded kept

theorem AllStored.serializable (h : AllStored kept) : (encoded kept).Serializable := by
  rw [encoded, Json.Serializable, Json.serializableEntries_iff]
  intro item hi
  obtain ⟨⟨key, entry⟩, he, rfl⟩ := List.mem_map.mp hi
  have hstored := h key entry ((kept.mem_entries_iff key entry).mp he)
  obtain ⟨text, -, hcreated⟩ := hstored.created
  obtain ⟨entries, hentries, hmetadata⟩ := hstored.metadata
  have hexpire : entry.expireAt.Serializable := by
    obtain hnull | ⟨exp, -, htext⟩ := hstored.expires
    · rw [hnull, Json.Serializable]
      trivial
    · rw [htext, Json.Serializable]
      trivial
  dsimp only
  rw [Json.Serializable, Json.serializableEntries_iff]
  simp [MemoryEntry.toDict, hstored.key_eq, hcreated, hexpire, hstored.value, Json.Serializable, hentries,
    Items.named_ofEntries, hmetadata]

-- Every write of data that can be serialized succeeds.
def WritesSucceed (floats : Floats φ) (disk : Disk) : Prop :=
  ∀ data : Json φ, data.Serializable → disk.Accepts floats data

theorem writesSucceed_of_sound {floats : Floats φ} {disk : Disk} (hdirectory : disk.directory = none)
    (hopening : disk.opening = none) (hroom : disk.room = none) : WritesSucceed floats disk := by
  intro data hdata
  constructor
  · simp [Disk.Blocks, hdirectory, hopening]
  · rw [Disk.failure, hroom]
    exact Json.encode_refusal floats 4 data hdata 0

namespace Persistent

variable {floats : Floats φ} {disk : Disk}

theorem save_of_accepts {s : JSONFileStorage φ} (h : disk.Accepts floats s.data) :
    ∃ t, Storage.Operation.save floats disk s = .ok () t ∧ t.data = s.data := by
  have hsaved := save_saved floats disk s
  generalize Storage.Operation.save floats disk s = result at hsaved ⊢
  cases hsaved with
  | blocked message hb => exact absurd hb h.1
  | failed message _ hrefused => exact absurd h hrefused
  | done _ => exact ⟨_, rfl, rfl⟩

-- An action of the storage that leaves the encoding of other entries.
theorem action_triple (hdisk : WritesSucceed floats disk) (act : Action φ) {kept' : Data φ}
    (h : AllStored kept')
    (hact : act.effect (encoded kept) = .saves (encoded kept') ∨
      act.effect (encoded kept) = .returns ∧ kept' = kept) :
    Triple (Stores kept) (ofStorage (act.operation floats disk)) (fun _ => Stores kept')
      fun _ _ => False := by
  intro s hs
  have heffect := operation_effect floats disk act s
  rw [Stores] at hs
  rw [hs] at heffect
  obtain hsaves | ⟨hreturns, rfl⟩ := hact
  · rw [hsaves] at heffect
    obtain ⟨t, ht, hdata⟩ := save_of_accepts (s := { s with data := encoded kept' }) (hdisk _ h.serializable)
    dsimp only at heffect
    unfold ofStorage
    rw [heffect, ht]
    exact hdata
  · rw [hreturns] at heffect
    dsimp only at heffect
    unfold ofStorage
    rw [heffect]
    exact hs

theorem set_triple (hdisk : WritesSucceed floats disk) (h : AllStored kept)
    (hentry : Stored key entry) :
    Triple (Stores kept) (ofStorage (Storage.Operation.set floats disk key (.dict entry.toDict)))
      (fun _ => Stores (kept.set key entry)) fun _ _ => False := by
  refine action_triple hdisk (.set key (.dict entry.toDict)) (h.set hentry) (.inl ?_)
  rw [encoded, encoded, Dict.mapValues_set]
  rfl

theorem delete_triple (hdisk : WritesSucceed floats disk) (h : AllStored kept) (key : Str) :
    Triple (Stores kept) (ofStorage (Storage.Operation.delete floats disk key))
      (fun _ => Stores (kept.erase key)) fun _ _ => False := by
  refine action_triple hdisk (.delete key) (h.erase key) ?_
  have hmem : key ∈ (kept.mapValues fun _ entry => Json.dict entry.toDict).entries.map Prod.fst ↔
      key ∈ kept := by
    show key ∈ (kept.mapValues fun _ entry => Json.dict entry.toDict).keys ↔ _
    rw [Dict.keys_mapValues]
    rfl
  by_cases hk : key ∈ kept
  · left
    rw [encoded, encoded, Action.effect, if_pos (hmem.mpr hk), Dict.mapValues_erase]
    rfl
  · right
    exact ⟨if_neg (mt hmem.mp hk), Dict.erase_of_notMem hk⟩

theorem clear_triple (hdisk : WritesSucceed floats disk) (kept : Data φ) :
    Triple (Stores kept) (clear floats disk) (fun _ => Stores .empty) fun _ _ => False := by
  exact action_triple hdisk (.clear) .empty (.inl rfl)

theorem storageGet_triple (kept : Data φ) (key : Str) :
    Triple (Stores kept) (storageGet key)
      (fun value s => value = ((kept.get? key).map fun entry => Json.dict entry.toDict).getD .null ∧
        Stores kept s) fun _ _ => False := by
  intro s hs
  have hget : s.get key .null =
      .ok (((kept.get? key).map fun entry => Json.dict entry.toDict).getD .null) := by
    have hlookup := Dict.get?_mapValues kept (fun _ entry => Json.dict entry.toDict) key
    rw [JSONFileStorage.get, hs, ← hlookup]
    rfl
  unfold storageGet
  rw [hget]
  exact ⟨rfl, hs⟩

theorem getAllKeys_triple (kept : Data φ) :
    Triple (Stores kept) (getAllKeys (φ := φ)) (fun keys s => keys = kept.keys ∧ Stores kept s)
      fun _ _ => False := by
  refine Triple.get_bind fun seen => ?_
  rintro s ⟨rfl, hs⟩
  rw [hs, encoded]
  exact ⟨Dict.keys_mapValues _ _, hs⟩

-- What reading one key leaves: the entry is removed if it has expired.
def purge (b : Builtins φ) (now : Clock) (key : Str) (kept : Data φ) : Data φ :=
  kept.filter fun other entry => !(other = key && entry.isExpired b now)

theorem purge_of_live (he : kept.get? key = some entry) (hlive : entry.isExpired b now = false) :
    purge b now key kept = kept := by
  refine Dict.filter_eq_self fun other found hf => ?_
  by_cases ho : other = key
  · subst ho
    rw [he] at hf
    cases hf
    simp [hlive]
  · simp [ho]

theorem purge_of_expired (he : kept.get? key = some entry) (hexpired : entry.isExpired b now) :
    purge b now key kept = kept.erase key := by
  rw [Dict.erase_eq_filter]
  refine Dict.filter_congr fun other found hf => ?_
  by_cases ho : other = key
  · subst ho
    rw [he] at hf
    cases hf
    simp [hexpired]
  · simp [ho]

theorem readEntry_eq (h : Stored key entry) :
    readEntry b floats disk now key (.dict entry.toDict) =
      if entry.isExpired b now then do
        ofStorage (Storage.Operation.delete floats disk key)
        return none
      else return some entry := by
  have hpresent : ¬((Entries.lookup (.ofString "key") entry.toDict).isNone = true ∨
      (Entries.lookup (.ofString "value") entry.toDict).isNone = true) := by
    rintro (hn | hn) <;> cases hn
  rw [readEntry, if_neg hpresent, h.fromDict_toDict]

theorem getEntry_triple (hdisk : WritesSucceed floats disk) (h : AllStored kept) (key : Str) :
    Triple (Stores kept) (getEntry b floats disk now key)
      (fun found s => found = (shown b now kept).get? key ∧ Stores (purge b now key kept) s)
      fun _ _ => False := by
  have hshown : (shown b now kept).get? key = (kept.get? key).filter (!·.isExpired b now) :=
    Dict.get?_filter ..
  rw [hshown]
  refine (storageGet_triple kept key).bind fun value => Triple.of_fact ?_
  rintro rfl
  cases he : kept.get? key with
  | none =>
      have hpurge : purge b now key kept = kept := Dict.filter_eq_self fun other entry ho => by
        have hne : other ≠ key := by
          rintro rfl
          rw [he] at ho
          cases ho
        simp [hne]
      rw [hpurge]
      exact Triple.pure fun s hs => ⟨rfl, hs⟩
  | some entry =>
      have hstored := h key entry he
      refine Triple.tryCatch_of_total ?_
      rw [Option.map_some, Option.getD_some, readEntry_eq hstored]
      refine Triple.ite (fun hexpired => ?_) fun hlive => ?_
      · rw [purge_of_expired he hexpired]
        refine (delete_triple hdisk h key).bind fun _ => Triple.pure fun s hs => ⟨?_, hs⟩
        rw [Option.filter_some, hexpired]
        rfl
      · rw [purge_of_live he (by simpa using hlive)]
        refine Triple.pure fun s hs => ⟨?_, hs⟩
        rw [Option.filter_some, if_pos (by simpa using hlive)]

-- The entries after several keys were read.
def purgeAll (b : Builtins φ) (now : Clock) (keys : List Str) (kept : Data φ) : Data φ :=
  kept.filter fun key entry => !(key ∈ keys && entry.isExpired b now)

theorem purgeAll_cons (key : Str) (keys : List Str) (kept : Data φ) :
    purgeAll b now keys (purge b now key kept) = purgeAll b now (key :: keys) kept := by
  unfold purge purgeAll
  rw [Dict.filter_filter]
  refine Dict.filter_congr fun other entry _ => ?_
  cases entry.isExpired b now <;> simp

theorem purgeAll_keys (kept : Data φ) : purgeAll b now kept.keys kept = shown b now kept := by
  refine Dict.filter_congr fun key entry he => ?_
  have hkey : key ∈ kept.keys := (kept.mem_keys_iff key).mpr ⟨entry, he⟩
  simp [hkey]

theorem not_isExpired_of_shown (h : (shown b now kept).get? key = some entry) :
    entry.isExpired b now = false := by
  rw [shown, Dict.get?_filter, Option.filter_eq_some_iff] at h
  simpa using h.2

-- No key is ever collected: reading an expired entry has removed it already.
theorem expiredKeys_triple (hdisk : WritesSucceed floats disk) (h : AllStored kept) (keys : List Str) :
    Triple (Stores kept) (expiredKeys b floats disk now keys)
      (fun found s => found = [] ∧ Stores (purgeAll b now keys kept) s) fun _ _ => False := by
  induction keys generalizing kept with
  | nil =>
      have hall : purgeAll b now [] kept = kept := Dict.filter_eq_self fun _ _ _ => by simp
      rw [hall]
      exact Triple.pure fun s hs => ⟨rfl, hs⟩
  | cons key keys ih =>
      refine (getEntry_triple hdisk h key).bind fun found => Triple.of_fact fun hfound => ?_
      have hpurged : AllStored (purge b now key kept) := h.filter _
      refine (ih hpurged).bind fun others => Triple.of_fact fun hothers => ?_
      have hnone : found.any (·.isExpired b now) = false := by
        cases found with
        | none => rfl
        | some entry => exact not_isExpired_of_shown hfound.symm
      rw [purgeAll_cons, hothers, hnone]
      exact Triple.pure fun s hs => ⟨rfl, hs⟩

theorem cleanupExpired_triple (hdisk : WritesSucceed floats disk) (h : AllStored kept) (depth : Nat) :
    Triple (Stores kept) (cleanupExpired b floats disk now (depth + 1))
      (fun _ => Stores (shown b now kept)) fun _ _ => False := by
  refine (getAllKeys_triple kept).bind fun keys => Triple.of_fact ?_
  rintro rfl
  refine (expiredKeys_triple hdisk h kept.keys).bind fun found => Triple.of_fact ?_
  rintro rfl
  rw [purgeAll_keys]
  exact Triple.pure fun s hs => hs

theorem shown_shown (b : Builtins φ) (now : Clock) (kept : Data φ) :
    shown b now (shown b now kept) = shown b now kept := by
  unfold shown
  rw [Dict.filter_filter]
  exact Dict.filter_congr fun _ _ _ => by simp

theorem shown_purge (b : Builtins φ) (now : Clock) (key : Str) (kept : Data φ) :
    shown b now (purge b now key kept) = shown b now kept := by
  unfold shown purge
  rw [Dict.filter_filter]
  refine Dict.filter_congr fun other entry _ => ?_
  cases entry.isExpired b now <;> simp

theorem purge_shown (b : Builtins φ) (now : Clock) (key : Str) (kept : Data φ) :
    purge b now key (shown b now kept) = shown b now kept := by
  refine Dict.filter_eq_self fun other entry ho => ?_
  simp [not_isExpired_of_shown ho]

-- Reading a key removes nothing once the expired entries are gone.
theorem getEntry_shown_triple (hdisk : WritesSucceed floats disk) (h : AllStored kept) (key : Str) :
    Triple (Stores (shown b now kept)) (getEntry b floats disk now key)
      (fun found s => found = (shown b now kept).get? key ∧ Stores (shown b now kept) s)
      fun _ _ => False := by
  have hshown : AllStored (shown b now kept) := h.filter _
  have hread := @getEntry_triple φ b now _ _ _ hdisk hshown key
  rwa [shown_shown, purge_shown] at hread

-- The loop over the keys of entries that are all shown finds them all.
theorem gather_triple (hdisk : WritesSucceed floats disk) (h : AllStored kept)
    (keep : MemoryEntry φ → Except MemoryError Bool) (items : List (Str × MemoryEntry φ))
    (hitems : ∀ item ∈ items, (shown b now kept).get? item.1 = some item.2) :
    Triple (Stores (shown b now kept)) (gather b floats disk now keep (items.map Prod.fst))
      (fun found s => select keep (items.map Prod.snd) = .ok found ∧ Stores (shown b now kept) s)
      fun e s => select keep (items.map Prod.snd) = .error e ∧ Stores (shown b now kept) s := by
  induction items with
  | nil => exact Triple.pure fun s hs => ⟨rfl, hs⟩
  | cons item items ih =>
      have hitem := hitems item List.mem_cons_self
      have hrest := ih fun other ho => hitems other (List.mem_cons_of_mem _ ho)
      have hread := @getEntry_shown_triple φ b now _ _ _ hdisk h item.1
      rw [hitem] at hread
      refine hread.of_total.bind fun found => Triple.of_fact ?_
      rintro rfl
      dsimp only
      cases hk : keep item.2 with
      | error e =>
          refine Triple.throw fun s hs => ⟨?_, hs⟩
          show (keep item.2 >>= _) = _
          rw [hk]
          rfl
      | ok kept' =>
          have hselect : select keep ((item :: items).map Prod.snd) =
              (select keep (items.map Prod.snd)).map fun others =>
                if kept' then item.2 :: others else others := by
            show (keep item.2 >>= _) = _
            rw [hk]
            cases select keep (items.map Prod.snd) <;> rfl
          rw [hselect]
          refine (hrest.imp (fun _ => id) (fun _ _ => id) ?_).bind fun others => Triple.of_fact ?_
          · rintro e s ⟨he, hs⟩
            rw [he]
            exact ⟨rfl, hs⟩
          · intro ho
            rw [ho]
            exact Triple.pure fun s hs => ⟨rfl, hs⟩

end Persistent

-- What set is given can be serialized.
def Call.Serializable : Call φ → Prop
  | .set _ value metadata _ => value.Serializable ∧ Json.SerializableEntries (metadata.getD [])
  | _ => True

-- The storage keeps entries of which the same ones are shown.
def Agrees (b : Builtins φ) (now : Clock) (data : Data φ) (s : JSONFileStorage φ) : Prop :=
  ∃ kept, Stores kept s ∧ AllStored kept ∧ shown b now kept = shown b now data

namespace Visible

-- The dictionary that a call leaves, whether it returns or raises.
theorem allStored_finalState {data : Data φ} (h : AllStored data) {c : Call φ} (hc : c.Serializable) :
    AllStored (finalState (call b now c) data) := by
  have hshown : AllStored (shown b now data) := h.filter _
  cases c with
  | set key value metadata ttl =>
      unfold finalState call
      dsimp only
      cases he : MemoryEntry.ofSet b now key value metadata ttl with
      | error e => exact hshown
      | ok entry => exact hshown.set (stored_ofSet hc.1 hc.2 he)
  | delete key => exact hshown.erase key
  | clear => exact .empty
  | search query =>
      unfold finalState call
      dsimp only
      cases select (MemoryEntry.isHit b query) (shown b now data).values <;> exact hshown
  | get | getEntry | filter | status => exact hshown

end Visible

namespace Persistent

variable {floats : Floats φ} {disk : Disk} {data : Data φ}

-- What a call must do to match the abstract memory.
def Matches (b : Builtins φ) (floats : Floats φ) (disk : Disk) (now : Clock) (depth : Nat) (kept data : Data φ)
    (c : Call φ) : Prop :=
  Triple (Stores kept) (call b floats disk now (depth + 1) c)
    (fun r s => ∃ data', Visible.call b now c data = .ok r data' ∧ Agrees b now data' s)
    fun e s => ∃ data', Visible.call b now c data = .error e data' ∧ Agrees b now data' s

theorem select_ok (keep : MemoryEntry φ → Bool) (entries : List (MemoryEntry φ)) :
    select (fun entry => .ok (keep entry)) entries = .ok (entries.filter keep) := by
  induction entries with
  | nil => rfl
  | cons entry entries ih =>
      show (select (fun entry => .ok (keep entry)) entries >>= _) = _
      rw [ih, List.filter_cons]
      rfl

-- After the cleanup, the loop over all keys goes through the entries that are shown.
theorem gatherAll_triple (hdisk : WritesSucceed floats disk) (h : AllStored kept)
    (keep : MemoryEntry φ → Except MemoryError Bool) :
    Triple (Stores (shown b now kept)) (getAllKeys >>= gather b floats disk now keep)
      (fun found s => select keep (shown b now kept).values = .ok found ∧ Stores (shown b now kept) s)
      fun e s => select keep (shown b now kept).values = .error e ∧ Stores (shown b now kept) s := by
  refine (getAllKeys_triple _).of_total.bind fun keys => Triple.of_fact ?_
  rintro rfl
  refine gather_triple hdisk h keep (shown b now kept).entries fun item hi => ?_
  exact ((shown b now kept).mem_entries_iff item.1 item.2).mp hi

-- The two searches differ in what they keep.
theorem entries_triple (hdisk : WritesSucceed floats disk) (h : AllStored kept)
    (hsame : shown b now kept = shown b now data) (keep : MemoryEntry φ → Except MemoryError Bool) :
    Triple (Stores (shown b now kept))
      (getAllKeys >>= fun keys => gather b floats disk now keep keys >>= fun found =>
        pure (Result.entries found))
      (fun r s => ∃ found, select keep (shown b now data).values = .ok found ∧ r = Result.entries found ∧
        Stores (shown b now kept) s)
      fun e s => select keep (shown b now data).values = .error e ∧ Stores (shown b now kept) s := by
  rw [← bind_assoc, ← hsame]
  refine (gatherAll_triple hdisk h keep).bind fun found => Triple.of_fact fun hf => ?_
  exact Triple.pure fun s hs => ⟨found, hf, rfl, hs⟩

-- Every call does what it does to the abstract memory that shows the same entries.
theorem call_matches (hdisk : WritesSucceed floats disk) (h : AllStored kept) (depth : Nat)
    (hsame : shown b now kept = shown b now data) {c : Call φ} (hc : c.Serializable) :
    Matches b floats disk now depth kept data c := by
  have hshown : AllStored (shown b now kept) := h.filter _
  have hself : ∀ s, Stores (shown b now kept) s → Agrees b now (shown b now data) s :=
    fun s hs => ⟨_, hs, hshown, by rw [hsame]⟩
  have hclean := (@cleanupExpired_triple φ b now _ _ _ hdisk h depth)
  unfold Matches
  cases c with
  | set key value metadata ttl =>
      simp only [call, set, Visible.call, bind_assoc]
      refine hclean.of_total.bind fun _ => ?_
      cases he : MemoryEntry.ofSet b now key value metadata ttl with
      | error e => exact Triple.throw fun s hs => ⟨_, rfl, hself s hs⟩
      | ok entry =>
          have hentry := stored_ofSet hc.1 hc.2 he
          refine (set_triple hdisk hshown hentry).of_total.bind fun _ => Triple.pure fun s hs => ?_
          exact ⟨_, rfl, _, hs, hshown.set hentry, by rw [hsame]⟩
  | get key default =>
      simp only [call, get, Visible.call, bind_assoc]
      refine hclean.of_total.bind fun _ => ?_
      refine (getEntry_shown_triple hdisk h key).of_total.bind fun found => Triple.of_fact ?_
      rintro rfl
      rw [hsame]
      cases (shown b now data).get? key <;>
        exact Triple.pure fun s hs => ⟨_, rfl, hself s (hsame ▸ hs)⟩
  | getEntry key =>
      simp only [call, Visible.call]
      refine (getEntry_triple hdisk h key).of_total.bind fun found => Triple.of_fact ?_
      rintro rfl
      refine Triple.pure fun s hs => ⟨_, by rw [hsame], _, hs, h.filter _, ?_⟩
      rw [shown_purge, shown_shown, hsame]
  | delete key =>
      simp only [call, delete, Visible.call, bind_assoc]
      refine hclean.of_total.bind fun _ => ?_
      refine (delete_triple hdisk hshown key).of_total.bind fun _ => Triple.pure fun s hs => ?_
      exact ⟨_, rfl, _, hs, hshown.erase key, by rw [hsame]⟩
  | clear =>
      simp only [call, Visible.call]
      refine (clear_triple hdisk kept).of_total.bind fun _ => Triple.pure fun s hs => ?_
      exact ⟨_, rfl, _, hs, .empty, rfl⟩
  | search query =>
      simp only [call, search, Visible.call, bind_assoc]
      refine hclean.of_total.bind fun _ => ?_
      refine (entries_triple hdisk h hsame _).imp (fun _ => id) ?_ ?_
      · rintro r s ⟨found, hf, rfl, hs⟩
        rw [hf]
        exact ⟨_, rfl, hself s hs⟩
      · rintro e s ⟨he, hs⟩
        rw [he]
        exact ⟨_, rfl, hself s hs⟩
  | filter filters =>
      simp only [call, filter, Visible.call, bind_assoc]
      refine hclean.of_total.bind fun _ => ?_
      refine (entries_triple hdisk h hsame _).imp (fun _ => id) ?_ ?_
      · rintro r s ⟨found, hf, rfl, hs⟩
        rw [select_ok] at hf
        cases hf
        exact ⟨_, rfl, hself s hs⟩
      · rintro e s ⟨he, hs⟩
        rw [select_ok] at he
        cases he
  | status =>
      simp only [call, status, Visible.call]
      refine hclean.of_total.bind fun _ => ?_
      refine (getAllKeys_triple _).of_total.bind fun keys => Triple.of_fact ?_
      rintro rfl
      refine Triple.pure fun s hs => ⟨_, ?_, hself s hs⟩
      rw [hsame]
      simp [Dict.keys, Dict.size]

end Persistent

-- The readings of the clock do not go back.
def Chronological (calls : List (Clock × Call φ)) : Prop :=
  calls.Pairwise fun first second => first.1.utc.micros ≤ second.1.utc.micros

-- Related before some calls: the same entries will be shown at the time of any of them.
def Alike (b : Builtins φ) (calls : List (Clock × Call φ)) (s : JSONFileStorage φ) (data : Data φ) : Prop :=
  AllStored data ∧ Chronological calls ∧ (∀ timed ∈ calls, timed.2.Serializable) ∧
    ∃ kept, Stores kept s ∧ AllStored kept ∧
      ∀ timed ∈ calls, shown b timed.1 kept = shown b timed.1 data

-- What is not shown now is not shown later either.
theorem AllStored.shown_shown (h : AllStored kept) (hle : now.utc.micros ≤ later.utc.micros) :
    shown b later (shown b now kept) = shown b later kept := by
  unfold shown
  rw [Dict.filter_filter]
  refine Dict.filter_congr fun key entry he => ?_
  cases hnow : entry.isExpired b now with
  | false => simp
  | true => simp [(h key entry he).isExpired_mono hle hnow]

theorem Agrees.alike {data : Data φ} {s : JSONFileStorage φ} {calls : List (Clock × Call φ)}
    (h : Agrees b now data s) (hdata : AllStored data) (hcalls : Chronological calls)
    (hser : ∀ timed ∈ calls, timed.2.Serializable)
    (hlater : ∀ timed ∈ calls, now.utc.micros ≤ timed.1.utc.micros) : Alike b calls s data := by
  obtain ⟨kept, hs, hkept, hsame⟩ := h
  refine ⟨hdata, hcalls, hser, kept, hs, hkept, fun timed ht => ?_⟩
  rw [← hkept.shown_shown (hlater timed ht), hsame, hdata.shown_shown (hlater timed ht)]

-- The two long-term memories, one over a storage of its own that starts empty, give the same
-- results at all times, and these are what a memory shows that has dropped what has expired.
theorem long_term_memories_interchangeable (b : Builtins φ) (floats : Floats φ) (disk : Disk)
    (depth : Nat) (calls : List (Clock × Call φ)) (s : JSONFileStorage φ) (hs : s.data = .dict [])
    (hdisk : WritesSucceed floats disk) (htimes : Chronological calls)
    (hvalues : ∀ timed ∈ calls, timed.2.Serializable) :
    outcomes (fun timed : Clock × Call φ => Persistent.call b floats disk timed.1 (depth + 1) timed.2)
        calls s =
      outcomes (fun timed : Clock × Call φ => InMemory.call b timed.1 timed.2) calls .empty ∧
    outcomes (fun timed : Clock × Call φ => InMemory.call b timed.1 timed.2) calls .empty =
      outcomes (fun timed : Clock × Call φ => Visible.call b timed.1 timed.2) calls .empty := by
  have hvisible : (fun timed : Clock × Call φ => InMemory.call b timed.1 timed.2) =
      fun timed => Visible.call b timed.1 timed.2 :=
    funext fun timed => InMemory.call_eq b timed.1 timed.2
  rw [hvisible]
  refine ⟨outcomes_eq (Alike b) ?_ ?_, rfl⟩
  · rintro ⟨now, c⟩ calls t data ⟨hdata, hcalls, hser, kept, ht, hkept, hsame⟩
    obtain ⟨hlater, hrest⟩ := List.pairwise_cons.mp hcalls
    have hc := hser (now, c) List.mem_cons_self
    have hmatch : Matching (fun t data => Agrees b now data t)
        (Persistent.call b floats disk now (depth + 1) c t) (Visible.call b now c data) :=
      (Persistent.call_matches hdisk hkept depth (hsame (now, c) List.mem_cons_self) hc).matching ht
    have hstored : AllStored (finalState (Visible.call b now c) data) :=
      Visible.allStored_finalState hdata hc
    refine hmatch.imp fun t ht => ?_
    exact ht.alike hstored hrest (fun timed h => hser timed (List.mem_cons_of_mem _ h)) hlater
  · exact ⟨.empty, htimes, hvalues, .empty, hs, .empty, fun _ _ => rfl⟩

section Sample

theorem second_lt_endOfTime {second : Nat} (h : second < 86400) : second * 1000000 < endOfTime := by
  unfold endOfTime microsPerDay
  omega

-- So many seconds after the start of the calendar.
def atSecond (second : Nat) (h : second < 86400) : Clock where
  utc := ⟨second * 1000000, some 0, second_lt_endOfTime h, DateTime.utc_isOffset⟩
  wall := ⟨second * 1000000, none, second_lt_endOfTime h, DateTime.no_isOffset⟩
  utc_offset := rfl
  wall_offset := rfl

def plainBuiltins : Builtins Unit where
  str _ := []
  lower text := text
  equal _ _ := false
  isZero _ := false

-- A value that lives for a minute, read within the minute and after it.
def shortLived : List (Clock × Call Unit) :=
  [(atSecond 0 (by decide), .set (.ofString "token") (.int 7) none (some 60)),
    (atSecond 30 (by decide), .get (.ofString "token") .null),
    (atSecond 61 (by decide), .get (.ofString "token") .null)]

def intOf : Except MemoryError (Result Unit) → Option Int
  | .ok (.value (.int n)) => some n
  | _ => none

theorem shortLived_interchangeable :
    (outcomes (fun timed : Clock × Call Unit =>
        Persistent.call plainBuiltins sampleFloats ready timed.1 1 timed.2) shortLived fresh).map intOf =
      [none, some 7, none] := by
  have htimes : Chronological shortLived := by
    simp [Chronological, shortLived, atSecond]
  have hvalues : ∀ timed ∈ shortLived, timed.2.Serializable := by
    simp [shortLived, Call.Serializable, Json.Serializable, Json.SerializableEntries]
  have h := long_term_memories_interchangeable plainBuiltins sampleFloats ready 0 shortLived fresh rfl
    (writesSucceed_of_sound rfl rfl rfl) htimes hvalues
  rw [h.1]
  decide +kernel

end Sample

end YasinCore.Memory
