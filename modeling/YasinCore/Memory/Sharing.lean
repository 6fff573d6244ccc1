import YasinCore.Library.Transition
import YasinCore.Memory.Interchange
import YasinCore.Memory.Persistent.Lemmas

namespace YasinCore.Memory

open YasinCore.Library YasinCore.Storage

variable {φ : Type}

-- The other users of a client's storage.
inductive Subsystem
  | scheduler
  | contexts
  | context (id : Str)
  | agentState (name : Str)

namespace Subsystem

def key : Subsystem → Str
  | .scheduler => .ofString "scheduler:schedule"
  | .contexts => .ofString "contexts"
  | .context id => .ofString "context:" ++ id
  | .agentState name => .ofString "agent_state_" ++ name

-- What a subsystem asks for if nothing is stored.
def default : Subsystem → Json φ
  | .agentState _ => .dict []
  | _ => .null

def readBack (sub : Subsystem) (s : JSONFileStorage φ) : Except StorageError (Json φ) :=
  s.get sub.key sub.default

end Subsystem

def stored (s : JSONFileStorage φ) (key : Str) : Option (Json φ) :=
  match s.data with
  | .dict entries => Entries.lookup key entries
  | _ => none

def Call.key? : Call φ → Option Str
  | .set key _ _ _ => some key
  | .get key _ => some key
  | .getEntry key => some key
  | .delete key => some key
  | _ => none

-- A call at a time, with a key that no other subsystem uses.
structure OwnCall (φ : Type) where
  now : Clock
  call : Call φ
  own : ∀ sub : Subsystem, call.key? ≠ some sub.key

open Persistent

-- The result contains what a subsystem has stored, or the key of it.
def Result.Shows (b : Builtins φ) (now : Clock) (s : JSONFileStorage φ) : Result φ → Prop
  | .entries found => ∃ (sub : Subsystem) (entry : MemoryEntry φ),
      reading b now sub.key (stored s sub.key) = some entry ∧ entry ∈ found
  | .status _ _ keys => ∃ sub : Subsystem, sub.key ∈ keys
  | _ => False

-- A memory at work: the storage as it was at the start and as it is now, and whether a result has
-- shown what is not the memory's.
structure Session (φ : Type) where
  start : JSONFileStorage φ
  storage : JSONFileStorage φ
  exposed : Prop

namespace Session

def begin (s : JSONFileStorage φ) : Session φ := ⟨s, s, False⟩

variable (b : Builtins φ) (floats : Floats φ) (disk : Disk) (depth : Nat)

def step (w : Session φ) (c : OwnCall φ) : Option (Session φ) :=
  some { w with
    storage := finalState (Persistent.call b floats disk c.now (depth + 1) c.call) w.storage
    exposed := w.exposed ∨
      ∃ value ∈ returned (Persistent.call b floats disk c.now (depth + 1) c.call) w.storage,
        value.Shows b c.now w.storage }

-- The other subsystems read back what they would have read at the start, and nothing of theirs was
-- shown.
structure Undisturbed (w : Session φ) : Prop where
  kept : ∀ sub : Subsystem, sub.readBack w.storage = sub.readBack w.start
  hidden : ¬w.exposed

end Session

-- Nothing that the other subsystems have stored reads as an expired entry.
def NoneExpired (b : Builtins φ) (now : Clock) (s : JSONFileStorage φ) : Prop :=
  ∀ (sub : Subsystem) (data : Json φ), stored s sub.key = some data → expired b now data = false

-- Some value that has not expired reads as an entry whose key is no string.
def Unsearchable (b : Builtins φ) (now : Clock) (s : JSONFileStorage φ) : Prop :=
  ∃ (key : Str) (entry : MemoryEntry φ), reading b now key (live b now (stored s) key) = some entry ∧
    ∀ text, entry.key ≠ .str text

-- The condition on a call, by what the other subsystems have stored.
def Spares (b : Builtins φ) (now : Clock) (s : JSONFileStorage φ) : Call φ → Prop
  | .getEntry _ => True
  | .clear => ∀ (sub : Subsystem) (data : Json φ), stored s sub.key = some data → data = sub.default
  | .status => ∀ sub : Subsystem, stored s sub.key = none
  | .search query => NoneExpired b now s ∧ (Unsearchable b now s ∨
      ∀ (sub : Subsystem) (entry : MemoryEntry φ), reading b now sub.key (stored s sub.key) = some entry →
        entry.isHit b query ≠ .ok true)
  | .filter filters => NoneExpired b now s ∧
      ∀ (sub : Subsystem) (entry : MemoryEntry φ), reading b now sub.key (stored s sub.key) = some entry →
        entry.hasMetadata b filters = false
  | _ => NoneExpired b now s

variable {b : Builtins φ} {floats : Floats φ} {disk : Disk} {now : Clock} {s t : JSONFileStorage φ}
  {view : Str → Option (Json φ)}

section Views

theorem view_stored {entries : List (Str × Json φ)} (h : s.data = .dict entries) : View (stored s) s := by
  refine ⟨entries, h, fun key => ?_⟩
  rw [stored, h]

theorem readBack_view (hs : View view s) (sub : Subsystem) :
    sub.readBack s = .ok ((view sub.key).getD sub.default) := by
  obtain ⟨entries, hdata, hview⟩ := hs
  rw [Subsystem.readBack, JSONFileStorage.get, hdata, ← hview]

theorem default_not_expired (b : Builtins φ) (now : Clock) (sub : Subsystem) :
    expired b now sub.default = false := by
  cases sub with
  | agentState name => rfl
  | _ => rfl

-- A subsystem notices that what it has stored is removed, unless it is what it would find anyway.
theorem live_getD_eq_iff (sub : Subsystem) :
    (live b now view sub.key).getD sub.default = (view sub.key).getD sub.default ↔
      ∀ data, view sub.key = some data → expired b now data = false := by
  rw [live]
  cases hdata : view sub.key with
  | none => simp
  | some data =>
      rw [Option.filter_some]
      cases hexpired : expired b now data with
      | false => simp [hexpired]
      | true =>
          have hne : sub.default ≠ data := by
            rintro rfl
            rw [default_not_expired] at hexpired
            cases hexpired
          simp [hexpired, hne]

theorem live_of_noneExpired (h : NoneExpired b now s) (sub : Subsystem) :
    live b now (stored s) sub.key = stored s sub.key := by
  rw [live]
  cases hdata : stored s sub.key with
  | none => rfl
  | some data => simp [Option.filter_some, h sub data hdata]

-- What the subsystems read back after a call that leaves what has not expired.
theorem readBack_live_iff (hs : View (stored s) s) {view' : Str → Option (Json φ)} (ht : View view' t)
    (hview : ∀ sub : Subsystem, view' sub.key = live b now (stored s) sub.key) :
    (∀ sub : Subsystem, sub.readBack t = sub.readBack s) ↔ NoneExpired b now s := by
  refine forall_congr' fun sub => ?_
  rw [readBack_view hs, readBack_view ht, hview, Except.ok.injEq]
  exact live_getD_eq_iff sub

end Views

section Calls

variable {depth : Nat}

-- What a call does to the subsystems: they read back what they did, and are not shown.
def Leaves (b : Builtins φ) (floats : Floats φ) (disk : Disk) (depth : Nat) (s : JSONFileStorage φ)
    (now : Clock) (c : Call φ) : Prop :=
  (∀ sub : Subsystem, sub.readBack (finalState (Persistent.call b floats disk now (depth + 1) c) s) =
    sub.readBack s) ∧
  ¬∃ value ∈ returned (Persistent.call b floats disk now (depth + 1) c) s, value.Shows b now s

-- A call that shows nothing, by the storages it may end in.
theorem leaves_iff_of_hidden {pre ends : JSONFileStorage φ → Prop} {spares : Prop} {c : Call φ}
    (hs : pre s) (h : Triple pre (Persistent.call b floats disk now (depth + 1) c)
      (fun value t => (∀ s, ¬value.Shows b now s) ∧ ends t) fun _ => ends)
    (hends : ∀ t, ends t → ((∀ sub : Subsystem, sub.readBack t = sub.readBack s) ↔ spares)) :
    Leaves b floats disk depth s now c ↔ spares := by
  unfold Leaves
  rcases h.outcome hs with ⟨value, hreturned, hshows, ht⟩ | ⟨hreturned, e, ht⟩
  · rw [hreturned, hends _ ht]
    simp [hshows]
  · rw [hreturned, hends _ ht]
    simp

-- A call that only cleans up and uses keys of its own.
theorem quiet_leaves_iff {c : Call φ} (hs : View (stored s) s)
    (h : Triple (View (stored s)) (Persistent.call b floats disk now (depth + 1) c)
      (fun value t => (∀ s, ¬value.Shows b now s) ∧ ∃ view', View view' t ∧
        ∀ sub : Subsystem, view' sub.key = live b now (stored s) sub.key)
      fun _ t => ∃ view', View view' t ∧
        ∀ sub : Subsystem, view' sub.key = live b now (stored s) sub.key) :
    Leaves b floats disk depth s now c ↔ NoneExpired b now s := by
  refine leaves_iff_of_hidden hs h ?_
  rintro t ⟨view', ht, hview⟩
  exact readBack_live_iff hs ht hview

-- A search in what has not expired finds what the subsystems have stored exactly when it is kept.
theorem shows_entries_iff (h : NoneExpired b now s) {keep : MemoryEntry φ → Prop}
    {found : List (MemoryEntry φ)}
    (hfound : ∀ entry, entry ∈ found ↔
      ∃ key, reading b now key (live b now (stored s) key) = some entry ∧ keep entry) :
    (Result.entries found).Shows b now s ↔ ∃ (sub : Subsystem) (entry : MemoryEntry φ),
      reading b now sub.key (stored s sub.key) = some entry ∧ keep entry := by
  refine exists_congr fun sub => exists_congr fun entry => and_congr_right fun hread => ?_
  rw [hfound]
  constructor
  · rintro ⟨_, -, hkeep⟩
    exact hkeep
  · intro hkeep
    refine ⟨sub.key, ?_, hkeep⟩
    rw [live_of_noneExpired h]
    exact hread

theorem isHit_ok_iff {query : Str} {entry : MemoryEntry φ} :
    (∃ kept, entry.isHit b query = .ok kept) ↔ ∃ text, entry.key = .str text := by
  unfold MemoryEntry.isHit
  cases entry.key with
  | str text => simp
  | _ => simp

theorem search_outcome (query : Str) :
    Triple (View (stored s)) (Persistent.call b floats disk now (depth + 1) (.search query))
      (fun value t => View (live b now (stored s)) t ∧ ¬Unsearchable b now s ∧ ∃ found,
        value = .entries found ∧ ∀ entry, entry ∈ found ↔
          ∃ key, reading b now key (live b now (stored s) key) = some entry ∧
            entry.isHit b query = .ok true)
      fun _ t => View (live b now (stored s)) t ∧ Unsearchable b now s := by
  have hgather := @gather_live φ b floats disk now (stored s) depth (MemoryEntry.isHit b query)
  refine Triple.bind (hgather.imp (fun _ => id) (fun _ _ => id) ?_) fun found => Triple.pure ?_
  · rintro e t ⟨ht, key, entry, hread, hreason⟩
    refine ⟨ht, key, entry, hread, fun text htext => ?_⟩
    have hhit : ∃ kept, entry.isHit b query = .ok kept := isHit_ok_iff.mpr ⟨text, htext⟩
    obtain ⟨kept, hkept⟩ := hhit
    exact hreason kept hkept
  · rintro t ⟨ht, hfound, hkept⟩
    refine ⟨ht, ?_, found, rfl, hfound⟩
    rintro ⟨key, entry, hread, hreason⟩
    obtain ⟨text, htext⟩ := isHit_ok_iff.mp (hkept key entry hread)
    exact hreason text htext

theorem search_leaves_iff (hs : View (stored s) s) (query : Str) :
    Leaves b floats disk depth s now (.search query) ↔ Spares b now s (.search query) := by
  have houtcome := (@search_outcome φ b floats disk now s depth query).outcome hs
  unfold Leaves
  rcases houtcome with ⟨value, hreturned, ht, hsearchable, found, rfl, hfound⟩ | ⟨hreturned, e, ht, hraises⟩
  · rw [hreturned, readBack_live_iff hs ht fun _ => rfl]
    refine and_congr_right fun hnone => ?_
    have hshows := shows_entries_iff hnone hfound
    simp only [Option.mem_def, Option.some.injEq, exists_eq_left', hshows, hsearchable, false_or]
    push Not
    rfl
  · rw [hreturned, readBack_live_iff hs ht fun _ => rfl]
    simp [Spares, hraises]

theorem filter_outcome (filters : List (Str × Json φ)) :
    Triple (View (stored s)) (Persistent.call b floats disk now (depth + 1) (.filter filters))
      (fun value t => View (live b now (stored s)) t ∧ ∃ found, value = .entries found ∧
        ∀ entry, entry ∈ found ↔ ∃ key, reading b now key (live b now (stored s) key) = some entry ∧
          entry.hasMetadata b filters)
      fun _ _ => False := by
  have hgather := @gather_live φ b floats disk now (stored s) depth
    fun entry => .ok (entry.hasMetadata b filters)
  refine Triple.bind (hgather.imp (fun _ => id) (fun _ _ => id) ?_) fun found => Triple.pure ?_
  · rintro e t ⟨-, key, entry, -, hreason⟩
    exact hreason _ rfl
  · rintro t ⟨ht, hfound, -⟩
    refine ⟨ht, found, rfl, fun entry => ?_⟩
    rw [hfound]
    simp only [Except.ok.injEq]

theorem filter_leaves_iff (hs : View (stored s) s) (filters : List (Str × Json φ)) :
    Leaves b floats disk depth s now (.filter filters) ↔ Spares b now s (.filter filters) := by
  have houtcome := (@filter_outcome φ b floats disk now s depth filters).outcome hs
  unfold Leaves
  rcases houtcome with ⟨value, hreturned, ht, found, rfl, hfound⟩ | ⟨-, e, hfalse⟩
  · rw [hreturned, readBack_live_iff hs ht fun _ => rfl]
    refine and_congr_right fun hnone => ?_
    have hshows := shows_entries_iff hnone hfound
    simp only [Option.mem_def, Option.some.injEq, exists_eq_left', hshows]
    push Not
    simp only [Bool.not_eq_true]
  · exact hfalse.elim

theorem status_leaves_iff (hs : View (stored s) s) :
    Leaves b floats disk depth s now .status ↔ Spares b now s .status := by
  have houtcome := (@status_live φ b floats disk now (stored s) depth).outcome hs
  unfold Leaves
  rcases houtcome with ⟨value, hreturned, ht, keys, rfl, hkeys⟩ | ⟨-, e, hfalse⟩
  · have hreturned' : returned (Persistent.call b floats disk now (depth + 1) .status) s =
        some (.status "active" keys.length keys) := hreturned
    rw [hreturned']
    have hkept := readBack_live_iff hs ht fun _ => rfl
    constructor
    · rintro ⟨hleft, hhidden⟩ sub
      have hnone : NoneExpired b now s := hkept.mp hleft
      by_contra hstored
      refine hhidden ⟨_, rfl, sub, ?_⟩
      rw [hkeys, live_of_noneExpired hnone]
      exact Option.isSome_iff_ne_none.mpr hstored
    · intro hstored
      have hnone : NoneExpired b now s := fun sub data hdata => by
        rw [hstored sub] at hdata
        cases hdata
      refine ⟨hkept.mpr hnone, ?_⟩
      rintro ⟨value, hvalue, hshows⟩
      obtain rfl := Option.some.inj hvalue
      obtain ⟨sub, hm⟩ := hshows
      rw [hkeys, live_of_noneExpired hnone, hstored sub] at hm
      cases hm
  · exact hfalse.elim

theorem getEntry_leaves_iff (hs : View (stored s) s) {key : Str} (hown : ∀ sub : Subsystem, sub.key ≠ key) :
    Leaves b floats disk depth s now (.getEntry key) ↔ Spares b now s (.getEntry key) := by
  have hread : Triple (View (stored s)) (Persistent.call b floats disk now (depth + 1) (.getEntry key))
      (fun value t => (∀ s, ¬value.Shows b now s) ∧ ∃ view', View view' t ∧
        ∀ sub : Subsystem, view' sub.key = stored s sub.key) fun _ _ => False := by
    refine (getEntry_view key).bind fun entry => Triple.of_fact fun _ => Triple.pure fun t ht => ?_
    exact ⟨fun _ h => h, _, ht, fun sub => Function.update_of_ne (hown sub) _ _⟩
  refine leaves_iff_of_hidden hs hread.of_total ?_
  rintro t ⟨view', ht, hview⟩
  refine iff_of_true (fun sub => ?_) trivial
  rw [readBack_view hs, readBack_view ht, hview]

theorem clear_leaves_iff (hs : View (stored s) s) :
    Leaves b floats disk depth s now .clear ↔ Spares b now s .clear := by
  have hclear : Triple (View (stored s)) (Persistent.call b floats disk now (depth + 1) .clear)
      (fun value t => (∀ s, ¬value.Shows b now s) ∧ View (fun _ => none) t)
      fun _ => View fun _ => none :=
    clear_view.bind fun _ => Triple.pure fun t ht => ⟨fun _ h => h, ht⟩
  refine leaves_iff_of_hidden hs hclear fun t ht => forall_congr' fun sub => ?_
  rw [readBack_view hs, readBack_view ht, Except.ok.injEq, Option.getD_none]
  cases stored s sub.key with
  | none => simp
  | some data => simp [eq_comm]

end Calls

section NoDictionary

-- What was parsed from the file may be something else than a dictionary.
def NoDictionary (s : JSONFileStorage φ) : Prop := ∀ entries, s.data ≠ .dict entries

def Raises {α : Type} (prog : Persistent.Operation φ α) : Prop :=
  Triple NoDictionary prog (fun _ _ => False) fun _ => NoDictionary

theorem Raises.bind {α β : Type} {prog : Persistent.Operation φ α} (h : Raises prog)
    (next : α → Persistent.Operation φ β) : Raises (prog >>= next) :=
  Triple.bind h fun _ _ hs => hs.elim

theorem getAllKeys_raises : Raises (getAllKeys (φ := φ)) := by
  refine Triple.get_bind fun seen => ?_
  rintro s ⟨rfl, hs⟩
  cases hdata : s.data with
  | dict entries => exact absurd hdata (hs entries)
  | _ => exact hs

theorem storageGet_raises (key : Str) : Raises (storageGet (φ := φ) key) := by
  intro s hs
  have hget : s.get key .null = .error .attributeError := by
    unfold JSONFileStorage.get
    cases hdata : s.data with
    | dict entries => exact absurd hdata (hs entries)
    | _ => rfl
  unfold storageGet
  rw [hget]
  exact hs

variable {depth : Nat}

theorem cleanupExpired_raises : Raises (cleanupExpired b floats disk now (depth + 1)) := by
  unfold cleanupExpired
  exact getAllKeys_raises.bind _

theorem clear_noDictionary : Triple NoDictionary (Persistent.clear (φ := φ) floats disk)
    (fun _ => NoDictionary) fun _ => NoDictionary := by
  show Triple _ (ofStorage (Action.operation floats disk .clear)) _ _
  refine action_data (fun data => ∀ entries, data ≠ .dict entries)
    (fun data => ∀ entries, data ≠ .dict entries) ?_ fun data hdata _ => hdata
  intro data data' hdata he
  cases data with
  | dict entries => exact absurd rfl (hdata entries)
  | list items =>
      obtain rfl := Effect.saves.inj he
      nofun
  | _ => cases he

-- Without a dictionary there is nothing to read back and nothing to show.
theorem call_noDictionary (c : Call φ) :
    Triple NoDictionary (Persistent.call b floats disk now (depth + 1) c)
      (fun value t => (∀ s, ¬value.Shows b now s) ∧ NoDictionary t) fun _ => NoDictionary := by
  have hraises {α : Type} {prog : Persistent.Operation φ α} (h : Raises prog)
      (next : α → Persistent.Operation φ (Result φ)) : Triple NoDictionary (prog >>= next)
        (fun value t => (∀ s, ¬value.Shows b now s) ∧ NoDictionary t) fun _ => NoDictionary :=
    (h.bind next).imp (fun _ => id) (fun _ _ => False.elim) fun _ _ => id
  cases c with
  | set key value metadata ttl => exact hraises (cleanupExpired_raises.bind _) _
  | get key default => exact hraises (cleanupExpired_raises.bind _) _
  | getEntry key => exact hraises ((storageGet_raises key).bind _) _
  | delete key => exact hraises (cleanupExpired_raises.bind _) _
  | clear => exact clear_noDictionary.bind fun _ => Triple.pure fun t ht => ⟨fun _ h => h, ht⟩
  | search query => exact hraises (cleanupExpired_raises.bind _) _
  | filter filters => exact hraises (cleanupExpired_raises.bind _) _
  | status => exact hraises cleanupExpired_raises _

theorem readBack_noDictionary (hs : NoDictionary s) (sub : Subsystem) :
    sub.readBack s = .error .attributeError := by
  unfold Subsystem.readBack JSONFileStorage.get
  cases hdata : s.data with
  | dict entries => exact absurd hdata (hs entries)
  | _ => rfl

theorem stored_noDictionary (hs : NoDictionary s) (key : Str) : stored s key = none := by
  unfold stored
  cases hdata : s.data with
  | dict entries => exact absurd hdata (hs entries)
  | _ => rfl

theorem noDictionary_leaves (hs : NoDictionary s) (c : Call φ) : Leaves b floats disk depth s now c := by
  have hcall : Triple NoDictionary (Persistent.call b floats disk now (depth + 1) c)
      (fun value t => (∀ s, ¬value.Shows b now s) ∧ NoDictionary t) fun _ => NoDictionary :=
    call_noDictionary c
  have hleaves : Leaves b floats disk depth s now c ↔ True := by
    refine leaves_iff_of_hidden hs hcall fun t ht => iff_of_true (fun sub => ?_) trivial
    rw [readBack_noDictionary ht, readBack_noDictionary hs]
  exact hleaves.mpr trivial

theorem noDictionary_spares (hs : NoDictionary s) (c : Call φ) : Spares b now s c := by
  have hnone : NoneExpired b now s := fun sub data hdata => by
    rw [stored_noDictionary hs] at hdata
    cases hdata
  have hread : ∀ (sub : Subsystem) (entry : MemoryEntry φ),
      reading b now sub.key (stored s sub.key) ≠ some entry := by
    intro sub entry h
    rw [stored_noDictionary hs] at h
    cases h
  cases c with
  | getEntry key => trivial
  | clear =>
      intro sub data hdata
      rw [stored_noDictionary hs] at hdata
      cases hdata
  | status => exact fun sub => stored_noDictionary hs sub.key
  | search query => exact ⟨hnone, .inr fun sub entry h => absurd h (hread sub entry)⟩
  | filter filters => exact ⟨hnone, fun sub entry h => absurd h (hread sub entry)⟩
  | _ => exact hnone

end NoDictionary

-- One call: the other subsystems are left alone exactly when the call spares them.
theorem leaves_iff (depth : Nat) (s : JSONFileStorage φ) (c : OwnCall φ) :
    Leaves b floats disk depth s c.now c.call ↔ Spares b c.now s c.call := by
  obtain ⟨now, call, hown⟩ := c
  by_cases hdict : NoDictionary s
  · exact iff_of_true (noDictionary_leaves hdict call) (noDictionary_spares hdict call)
  obtain ⟨entries, hdata⟩ := not_forall_not.mp hdict
  have hs : View (stored s) s := view_stored hdata
  -- The key of a call is none of theirs.
  have hne {key : Str} (hkey : call.key? = some key) (sub : Subsystem) : sub.key ≠ key := by
    rintro rfl
    exact hown sub hkey
  cases call with
  | set key value metadata ttl =>
      refine quiet_leaves_iff hs (Triple.bind ((set_live depth key value metadata ttl).imp
        (fun _ => id) (fun _ _ => id) ?_) fun _ => Triple.pure ?_)
      · rintro e t ⟨view', ht, hview⟩
        exact ⟨view', ht, fun sub => hview _ (hne rfl sub)⟩
      · rintro t ⟨view', ht, hview⟩
        exact ⟨fun _ h => h, view', ht, fun sub => hview _ (hne rfl sub)⟩
  | get key default =>
      refine quiet_leaves_iff hs ((get_live depth key default).of_total.bind fun value => Triple.pure ?_)
      exact fun t ht => ⟨fun _ h => h, _, ht, fun _ => rfl⟩
  | getEntry key => exact getEntry_leaves_iff hs (hne rfl)
  | delete key =>
      refine quiet_leaves_iff hs (Triple.bind ((delete_live depth key).imp
        (fun _ => id) (fun _ _ => id) ?_) fun _ => Triple.pure ?_)
      · rintro e t ⟨view', ht, hview⟩
        exact ⟨view', ht, fun sub => hview _ (hne rfl sub)⟩
      · rintro t ⟨view', ht, hview⟩
        exact ⟨fun _ h => h, view', ht, fun sub => hview _ (hne rfl sub)⟩
  | clear => exact clear_leaves_iff hs
  | search query => exact search_leaves_iff hs query
  | filter filters => exact filter_leaves_iff hs filters
  | status => exact status_leaves_iff hs

-- A call keeps the other subsystems undisturbed exactly when it spares them.
theorem undisturbed_iff {depth : Nat} {w v : Session φ} {c : OwnCall φ} (hw : w.Undisturbed)
    (hstep : w.step b floats disk depth c = some v) : v.Undisturbed ↔ Spares b c.now w.storage c.call := by
  obtain rfl := Option.some.inj hstep
  rw [← @leaves_iff φ b floats disk depth w.storage c]
  constructor
  · intro hv
    exact ⟨fun sub => (hv.kept sub).trans (hw.kept sub).symm, fun h => hv.hidden (.inr h)⟩
  · rintro ⟨hkept, hhidden⟩
    exact ⟨fun sub => (hkept sub).trans (hw.kept sub), fun h => h.elim hw.hidden hhidden⟩

theorem begin_undisturbed (s : JSONFileStorage φ) : (Session.begin s).Undisturbed :=
  ⟨fun _ => rfl, fun h => h⟩

-- In every sequence of calls on any storage, the other subsystems are undisturbed up to the end
-- exactly when every call spares them.
theorem subsystems_undisturbed_iff (b : Builtins φ) (floats : Floats φ) (disk : Disk) (depth : Nat)
    (s : JSONFileStorage φ) (calls : List (OwnCall φ)) :
    Always (Session.step b floats disk depth) Session.Undisturbed (.begin s) calls ↔
      Meets (Session.step b floats disk depth) (fun w c => Spares b c.now w.storage c.call) (.begin s)
        calls := by
  have hkept : ∀ (w : Session φ) (c : OwnCall φ) (v : Session φ), True →
      w.step b floats disk depth c = some v → True := fun _ _ _ _ _ => trivial
  refine always_iff_meets hkept ?_ trivial (begin_undisturbed s)
  intro w c v _ hw hstep
  exact undisturbed_iff hw hstep

section Sample

-- The schedule of one job that runs every hour.
def hourly : Json Unit :=
  .dict [(.ofString "backup", .dict [
    (.ofString "id", .str (.ofString "backup")), (.ofString "name", .str (.ofString "backup")),
    (.ofString "target", .dict [(.ofString "type", .str (.ofString "str")),
      (.ofString "val", .str (.ofString "workflows.backup"))]),
    (.ofString "args", .list []), (.ofString "kwargs", .dict []), (.ofString "priority", .int 2),
    (.ofString "retries", .int 0), (.ofString "timeout", .null), (.ofString "interval", .int 3600),
    (.ofString "delay", .null), (.ofString "cron", .null), (.ofString "max_runs", .null),
    (.ofString "run_count", .int 0), (.ofString "created_at", .float ()),
    (.ofString "last_run_time", .null), (.ofString "next_run_time", .float ()),
    (.ofString "cancelled", .bool false)])]

-- A storage with a schedule, and with the state of an agent that looks like an entry.
def scheduled : JSONFileStorage Unit where
  filepath := "store.json"
  data := .dict [(.ofString "scheduler:schedule", hourly)]
  file := none

def planned : JSONFileStorage Unit where
  filepath := "store.json"
  data := .dict [(.ofString "agent_state_planner", .dict [(.ofString "key", .str (.ofString "goal")),
    (.ofString "value", .int 7), (.ofString "expire_at", .str (.ofString "0001-01-01T00:00:30"))])]
  file := none

theorem note_own (sub : Subsystem) : some sub.key ≠ some (.ofString "note") := by
  intro h
  have hkey : sub.key = .ofString "note" := Option.some.inj h
  have hhead : sub.key.head? = some (CodePoint.ofChar 'n') := by
    rw [hkey]
    rfl
  cases sub with
  | scheduler => exact absurd hhead (by decide)
  | contexts => exact absurd hhead (by decide)
  | context id =>
      have hc : some (CodePoint.ofChar 'c') = some (CodePoint.ofChar 'n') := hhead
      exact absurd hc (by decide)
  | agentState name =>
      have ha : some (CodePoint.ofChar 'a') = some (CodePoint.ofChar 'n') := hhead
      exact absurd ha (by decide)

theorem later_lt : 61 < 86400 := by
  decide

-- Half a minute after the state of the planner has expired.
def later : Clock := atSecond 61 later_lt

def keyless (c : Call Unit) (h : c.key? = none) : OwnCall Unit where
  now := later
  call := c
  own sub := by
    rw [h]
    nofun

-- A note that has nothing to do with the planner.
def noting : OwnCall Unit where
  now := later
  call := .set (.ofString "note") (.int 1) none none
  own sub := (note_own sub).symm

theorem disturbs {s : JSONFileStorage Unit} {c : OwnCall Unit}
    (h : ¬Spares plainBuiltins c.now s c.call) :
    ¬Always (Session.step plainBuiltins sampleFloats ready 0) Session.Undisturbed (.begin s) [c] := by
  intro ha
  have hv := (always_iff.mp ha) [c] [] _ rfl (.single rfl)
  exact h ((undisturbed_iff (begin_undisturbed s) rfl).mp hv)

-- The schedule is read as the value of an entry.
theorem scheduled_searchable : ¬Unsearchable plainBuiltins later scheduled := by
  rintro ⟨key, entry, hread, hkey⟩
  by_cases hk : key = .ofString "scheduler:schedule"
  · subst hk
    have hentry : wrapped plainBuiltins later (.ofString "scheduler:schedule") hourly = entry :=
      Option.some.inj hread
    refine hkey (.ofString "scheduler:schedule") ?_
    rw [← hentry]
    rfl
  · have hnone : stored scheduled key = none := by
      simp [stored, scheduled, Entries.lookup, Ne.symm hk]
    rw [live, hnone] at hread
    cases hread

-- The schedule is lost when the memory is cleared, and is shown by a search, a filter and the status;
-- the state of the planner is lost when anything is noted.
theorem memory_disturbs_subsystems :
    (∀ c ∈ [keyless .clear rfl, keyless (.search (.ofString "schedule")) rfl,
        keyless (.filter []) rfl, keyless .status rfl],
      ¬Always (Session.step plainBuiltins sampleFloats ready 0) Session.Undisturbed (.begin scheduled)
        [c]) ∧
    ¬Always (Session.step plainBuiltins sampleFloats ready 0) Session.Undisturbed (.begin planned)
      [noting] := by
  have hschedule : stored scheduled Subsystem.scheduler.key = some hourly := rfl
  refine ⟨?_, disturbs fun h => ?_⟩
  · simp only [List.forall_mem_cons]
    refine ⟨disturbs fun h => ?_, disturbs fun h => ?_, disturbs fun h => ?_, disturbs fun h => ?_, ?_⟩
    · exact absurd (h .scheduler _ hschedule) nofun
    · have hhit := h.2.resolve_left scheduled_searchable .scheduler _ (by rw [hschedule]; rfl)
      exact absurd hhit (by decide +kernel)
    · have hkept := h.2 .scheduler _ (by rw [hschedule]; rfl)
      exact absurd hkept (by decide +kernel)
    · have hnone := h .scheduler
      rw [hschedule] at hnone
      cases hnone
    · nofun
  · have hlive := h (.agentState (.ofString "planner")) _ rfl
    exact absurd hlive (by decide +kernel)

end Sample

end YasinCore.Memory
