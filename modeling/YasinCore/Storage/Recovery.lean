import YasinCore.Library.Json.Truncation
import YasinCore.Library.Simulation
import YasinCore.Storage.Transactions

namespace YasinCore.Storage

open YasinCore.Library

variable {φ : Type} {floats : Floats φ} {finite : φ → Prop} {disk : Disk}

-- What the rest of the program calls. A restart is a new process that makes the object anew.
inductive Call (φ : Type)
  | get (key : Str) (default : Json φ)
  | change (act : Action φ)
  | reload
  | initializeService
  | shutdown
  | restart

def JSONFileStorage.init (floats : Floats φ) (filepath : String) (file : Option Content) :
    JSONFileStorage φ :=
  JSONFileStorage.load floats ⟨filepath, .dict [], file⟩

def Call.perform (floats : Floats φ) (disk : Disk) : Call φ → Operation φ (Option (Json φ))
  | .get key default => do
      match (← MonadState.get).get key default with
      | .ok value => return some value
      | .error e => throw e
  | .change act => do
      act.operation floats disk
      return none
  | .reload => do
      modify (JSONFileStorage.reload floats)
      return none
  | .initializeService => do
      modify (JSONFileStorage.load floats)
      return none
  | .shutdown => do
      Operation.save floats disk
      return none
  | .restart => do
      modify fun s => .init floats s.filepath s.file
      return none

-- How a write ends: the file is not opened, it holds a part of the text, or it holds the text.
inductive Written
  | blocked (e : StorageError)
  | torn (e : StorageError)
  | complete

-- What the storage is for: a dictionary, and the one that a restart finds.
structure Store (φ : Type) where
  memory : Dict Str (Json φ)
  durable : Dict Str (Json φ)

namespace Store

abbrev Program (φ : Type) := EStateM StorageError (Store φ)

def save (written : Dict Str (Json φ) → Written) : Program φ Unit := do
  match written (← get).memory with
  | .blocked e => throw e
  | .torn e =>
      modify fun s => { s with durable := .empty }
      throw e
  | .complete => modify fun s => { s with durable := s.memory }

def change (written : Dict Str (Json φ) → Written) : Action φ → Program φ Unit
  | .set key value => do
      modify fun s => { s with memory := s.memory.set key value }
      save written
  | .delete key => do
      if key ∈ (← get).memory then
        modify fun s => { s with memory := s.memory.erase key }
        save written
  | .clear => do
      modify fun s => { s with memory := .empty }
      save written

def recover (s : Store φ) : Store φ := { s with memory := s.durable }

def perform (written : Dict Str (Json φ) → Written) : Call φ → Program φ (Option (Json φ))
  | .get key default => return some (((← MonadState.get).memory.get? key).getD default)
  | .change act => do
      change written act
      return none
  | .shutdown => do
      save written
      return none
  | .reload | .initializeService | .restart => do
      modify recover
      return none

end Store

-- How a save of some data ends on a disk.
def Disk.outcome (disk : Disk) (floats : Floats φ) (filepath : String) (data : Json φ) : Written :=
  match disk.directory, disk.opening with
  | some e, _ => .blocked (.connection ("Failed to create directory for database storage: " ++ e))
  | none, some e =>
      .blocked (.connection ("Failed to write to storage file " ++ filepath ++ ": " ++ e))
  | none, none =>
      match disk.failure (Json.encode floats 4 0 data) with
      | some e => .torn (.connection ("Failed to write to storage file " ++ filepath ++ ": " ++ e))
      | none => .complete

-- The dictionary that a restart finds is the one that the file says.
structure Refines (floats : Floats φ) (finite : φ → Prop) (filepath : String) (s : JSONFileStorage φ)
    (store : Store φ) : Prop where
  path : s.filepath = filepath
  memory : s.data = .dict store.memory.entries
  durable : JSONFileStorage.loaded floats s.file = .dict store.durable.entries
  inMemory : (Json.dict store.memory.entries).Expressible finite
  onDisk : (Json.dict store.durable.entries).Expressible finite

-- The values that are set may hold objects that the encoder refuses.
def Call.Expressible (finite : φ → Prop) : Call φ → Prop
  | .change (.set key value) => Json.Paired key ∧ value.Expressible finite
  | _ => True

def Disk.writes (disk : Disk) (floats : Floats φ) (filepath : String) (data : Dict Str (Json φ)) : Written :=
  disk.outcome floats filepath (.dict data.entries)

theorem expressible_empty : (Json.dict (Dict.empty : Dict Str (Json φ)).entries).Expressible finite :=
  (Json.expressible_dict_iff Dict.empty.nodup).mpr fun _ hm => absurd hm List.not_mem_nil

theorem expressible_set {data : Dict Str (Json φ)} (h : (Json.dict data.entries).Expressible finite)
    {key : Str} {value : Json φ} (hk : Json.Paired key) (hv : value.Expressible finite) :
    (Json.dict (data.set key value).entries).Expressible finite := by
  rw [Json.expressible_dict_iff data.nodup] at h
  refine (Json.expressible_dict_iff (data.set key value).nodup).mpr fun entry hm => ?_
  have hold : ∀ other found, data.get? other = some found →
      Json.Paired other ∧ found.Expressible finite := fun other found hget =>
    h (other, found) ((Dict.mem_entries_iff _ _ _).mpr hget)
  exact Dict.forall_set hold ⟨hk, hv⟩ entry.1 entry.2 ((Dict.mem_entries_iff _ _ _).mp hm)

theorem expressible_erase {data : Dict Str (Json φ)} (h : (Json.dict data.entries).Expressible finite)
    (key : Str) : (Json.dict (data.erase key).entries).Expressible finite := by
  rw [Json.expressible_dict_iff data.nodup] at h
  refine (Json.expressible_dict_iff (data.erase key).nodup).mpr fun entry hm => h entry ?_
  exact List.mem_of_mem_filter hm

-- A write that stopped early leaves a text that decodes to nothing.
theorem loaded_torn (hl : Json.LawfulFloats floats finite) {entries : List (Str × Json φ)}
    (h : (Json.dict entries).Expressible finite) {e : String}
    (hf : disk.failure (Json.encode floats 4 0 (.dict entries)) = some e) :
    JSONFileStorage.loaded floats (some (disk.left floats (.dict entries))) = .dict [] := by
  have hnone : Json.decode floats (disk.written (Json.encode floats 4 0 (.dict entries))) = none := by
    unfold Disk.failure at hf
    unfold Disk.written
    cases hr : disk.room with
    | none =>
        rw [hr] at hf
        exact Json.decode_refused 4 hl h List.prefix_rfl fun _ => Option.isSome_of_eq_some hf
    | some room =>
        simp only [hr] at hf
        refine Json.decode_refused 4 hl h (List.take_prefix _ _) fun hwhole => ?_
        split at hf
        · next hlt =>
            have hlength := congrArg List.length hwhole
            rw [List.length_take] at hlength
            omega
        · exact Option.isSome_of_eq_some hf
  rw [Disk.left, JSONFileStorage.loaded, hnone, Option.getD_none]

theorem loaded_complete (hl : Json.LawfulFloats floats finite) {entries : List (Str × Json φ)}
    (h : (Json.dict entries).Expressible finite) (ha : disk.Accepts floats (.dict entries)) :
    JSONFileStorage.loaded floats (some (disk.left floats (.dict entries))) = .dict entries := by
  have hpatched := Json.patched_of_refusal floats 4 (.dict entries) 0 (Disk.written_of_accepts ha).2
  exact loaded_left hl ha (hpatched ▸ h)

variable {filepath : String} {s : JSONFileStorage φ} {store : Store φ}

theorem save_refines (hl : Json.LawfulFloats floats finite)
    (h : Refines floats finite filepath s store) :
    Matching (Refines floats finite filepath) (Operation.save floats disk s)
      (Store.save (disk.writes floats filepath) store) := by
  obtain ⟨path, data, file⟩ := s
  obtain ⟨rfl, rfl, hdurable, hmemory, hdisk⟩ := h
  have hkept : Refines floats finite path ⟨path, .dict store.memory.entries, file⟩ store :=
    ⟨rfl, rfl, hdurable, hmemory, hdisk⟩
  unfold Operation.save Store.save Disk.writes Disk.outcome
  simp only [run_get_bind]
  cases hd : disk.directory with
  | some e => exact ⟨rfl, hkept⟩
  | none =>
      cases ho : disk.opening with
      | some e => exact ⟨rfl, hkept⟩
      | none =>
          cases hf : disk.failure (Json.encode floats 4 0 (.dict store.memory.entries)) with
          | some e => exact ⟨rfl, rfl, rfl, loaded_torn hl hmemory hf, hmemory, expressible_empty⟩
          | none =>
              have hopen : ¬disk.Blocks := by simp [Disk.Blocks, hd, ho]
              exact ⟨rfl, rfl, rfl, loaded_complete hl hmemory ⟨hopen, hf⟩, hmemory, hmemory⟩

theorem change_refines (hl : Json.LawfulFloats floats finite)
    (h : Refines floats finite filepath s store) {act : Action φ}
    (ha : (Call.change act).Expressible finite) :
    Matching (Refines floats finite filepath) (act.operation floats disk s)
      (Store.change (disk.writes floats filepath) act store) := by
  have heffect := operation_effect floats disk act s
  cases act with
  | set key value =>
      rw [h.memory] at heffect
      rw [show Action.operation floats disk (.set key value) s = _ from heffect]
      exact save_refines hl ⟨h.path, rfl, h.durable, expressible_set h.inMemory ha.1 ha.2, h.onDisk⟩
  | delete key =>
      rw [h.memory] at heffect
      by_cases hk : key ∈ store.memory
      · have hin : key ∈ store.memory.entries.map Prod.fst := hk
        simp only [Action.effect, if_pos hin] at heffect
        rw [show Action.operation floats disk (.delete key) s = _ from heffect, Store.change,
          run_get_bind, if_pos hk]
        exact save_refines hl ⟨h.path, rfl, h.durable, expressible_erase h.inMemory key, h.onDisk⟩
      · have hin : key ∉ store.memory.entries.map Prod.fst := hk
        simp only [Action.effect, if_neg hin] at heffect
        rw [show Action.operation floats disk (.delete key) s = _ from heffect, Store.change,
          run_get_bind, if_neg hk]
        exact ⟨rfl, h⟩
  | clear =>
      rw [h.memory] at heffect
      rw [show Action.operation floats disk .clear s = _ from heffect]
      exact save_refines hl ⟨h.path, rfl, h.durable, expressible_empty, h.onDisk⟩

theorem load_refines (h : Refines floats finite filepath s store) :
    Refines floats finite filepath (s.load floats) store.recover :=
  ⟨h.path, h.durable, h.durable, h.onDisk, h.onDisk⟩

theorem perform_refines (hl : Json.LawfulFloats floats finite) {call : Call φ}
    (hc : call.Expressible finite) (h : Refines floats finite filepath s store) :
    Matching (Refines floats finite filepath) (call.perform floats disk s)
      (Store.perform (disk.writes floats filepath) call store) := by
  cases call with
  | get key default =>
      have hanswer : Call.perform floats disk (.get key default) s =
          .ok (some ((store.memory.get? key).getD default)) s := by
        simp only [Call.perform, run_get_bind, JSONFileStorage.get, h.memory]
        rfl
      rw [hanswer]
      exact ⟨rfl, h⟩
  | change act => exact (change_refines hl h hc).bind (fun _ _ => id) fun _ _ _ ht => ⟨rfl, ht⟩
  | reload => exact ⟨rfl, load_refines h⟩
  | initializeService => exact ⟨rfl, load_refines h⟩
  | shutdown => exact (save_refines hl h).bind (fun _ _ => id) fun _ _ _ ht => ⟨rfl, ht⟩
  | restart => exact ⟨rfl, h.path, h.durable, h.durable, h.onDisk, h.onDisk⟩

-- A call, and the disk that it meets.
abbrev Calls (φ : Type) := List (Call φ × Disk)

theorem calls_refine (hl : Json.LawfulFloats floats finite)
    (h : Refines floats finite filepath s store) {calls : Calls φ}
    (hc : ∀ call ∈ calls, call.1.Expressible finite) :
    outcomes (fun call => call.1.perform floats call.2) calls s =
      outcomes (fun call => Store.perform (call.2.writes floats filepath) call.1) calls store := by
  refine outcomes_eq (fun calls s store => Refines floats finite filepath s store ∧
    ∀ call ∈ calls, call.1.Expressible finite) (fun call calls s store hs => ?_) ⟨h, hc⟩
  obtain ⟨hcall, hcalls⟩ := List.forall_mem_cons.mp hs.2
  have hmatch : Matching _ (call.1.perform floats call.2 s)
      (Store.perform (call.2.writes floats filepath) call.1 store) := perform_refines hl hcall hs.1
  exact hmatch.imp fun t ht => ⟨ht, hcalls⟩

section Sample

-- A device that takes ten characters.
def full : Disk where
  directory := none
  opening := none
  room := some (10, "No space left on device")

def setB : Action Unit := .set (.ofString "b") (.bool true)

def getA : Call Unit := .get (.ofString "a") .null

def tornCalls : Calls Unit :=
  [(.change setA, ready), (getA, ready), (.change setB, full), (.get (.ofString "b") .null, ready),
    (.restart, ready), (getA, ready)]

theorem sampleCall_expressible : ∀ act ∈ [setA, setB],
    (Call.change act).Expressible fun _ : Unit => True := by
  intro act hm
  simp only [List.mem_cons, List.not_mem_nil, or_false] at hm
  rcases hm with rfl | rfl <;>
    exact ⟨by simp [Json.Paired, Str.ofString], by simp [Json.Expressible, Json.patched, Json.Representable]⟩

theorem tornCalls_expressible : ∀ call ∈ tornCalls, call.1.Expressible fun _ : Unit => True := by
  have hset := sampleCall_expressible
  simp only [List.forall_mem_cons] at hset
  simp only [tornCalls, List.forall_mem_cons, hset.1, hset.2.1, true_and]
  exact ⟨trivial, trivial, trivial, trivial, fun _ hm => absurd hm List.not_mem_nil⟩

end Sample

section InMemory

namespace InMemoryStorage

def change : Action φ → EStateM StorageError (Dict Str (Json φ)) Unit
  | .set key value => modify fun data => data.set key value
  | .delete key => do
      if key ∈ (← MonadState.get) then
        modify fun data => data.erase key
  | .clear => modify fun _ => .empty

-- An object that stays: there is nothing to reload, and no restart takes it away.
def perform : Call φ → EStateM StorageError (Dict Str (Json φ)) (Option (Json φ))
  | .get key default => return some (((← MonadState.get).get? key).getD default)
  | .change act => do
      change act
      return none
  | .reload | .initializeService | .shutdown | .restart => return none

end InMemoryStorage

theorem save_settled {written : Dict Str (Json φ) → Written} {value : Unit} {store next : Store φ}
    (h : Store.save written store = .ok value next) : next = ⟨store.memory, store.memory⟩ := by
  rw [Store.save, run_get_bind] at h
  cases hw : written store.memory with
  | blocked e =>
      rw [hw] at h
      cases h
  | torn e =>
      rw [hw] at h
      cases h
  | complete =>
      rw [hw] at h
      cases h
      rfl

theorem saved_settled {written : Dict Str (Json φ) → Written} {value : Option (Json φ)}
    (store : Store φ) {next : Store φ}
    (h : (Store.save written >>= fun _ => (pure none : Store.Program φ (Option (Json φ)))) store =
      .ok value next) : value = none ∧ next = ⟨store.memory, store.memory⟩ := by
  cases hs : Store.save written store with
  | ok _ t =>
      rw [run_bind_ok hs] at h
      cases h
      exact ⟨rfl, save_settled hs⟩
  | error e t =>
      rw [run_bind_error hs] at h
      cases h

-- A call that goes through on a storage whose file is up to date is a call of the other storage.
theorem perform_settled {written : Dict Str (Json φ) → Written} {call : Call φ}
    {data : Dict Str (Json φ)} {value : Option (Json φ)} {next : Store φ}
    (h : Store.perform written call ⟨data, data⟩ = .ok value next) :
    ∃ later, InMemoryStorage.perform call data = .ok value later ∧ next = ⟨later, later⟩ := by
  cases call with
  | get key default =>
      cases h
      exact ⟨data, rfl, rfl⟩
  | change act =>
      cases act with
      | set key value =>
          obtain ⟨rfl, rfl⟩ := saved_settled ⟨data.set key value, data⟩ h
          exact ⟨data.set key value, rfl, rfl⟩
      | delete key =>
          by_cases hk : key ∈ data
          · have hstore : Store.change written (.delete key) ⟨data, data⟩ =
                Store.save written ⟨data.erase key, data⟩ := congrFun (if_pos hk) _
            have herase : InMemoryStorage.change (φ := φ) (.delete key) data =
                .ok () (data.erase key) := congrFun (if_pos hk) _
            obtain ⟨rfl, rfl⟩ := saved_settled _ ((run_bind_congr hstore _).symm.trans h)
            exact ⟨data.erase key, run_bind_ok herase _, rfl⟩
          · have hstore : Store.change written (.delete key) ⟨data, data⟩ = .ok () ⟨data, data⟩ :=
              congrFun (if_neg hk) _
            have hsame : InMemoryStorage.change (φ := φ) (.delete key) data = .ok () data :=
              congrFun (if_neg hk) _
            cases (run_bind_ok hstore _).symm.trans h
            exact ⟨data, run_bind_ok hsame _, rfl⟩
      | clear =>
          obtain ⟨rfl, rfl⟩ := saved_settled ⟨.empty, data⟩ h
          exact ⟨.empty, rfl, rfl⟩
  | shutdown =>
      obtain ⟨rfl, rfl⟩ := saved_settled ⟨data, data⟩ h
      exact ⟨data, rfl, rfl⟩
  | reload | initializeService | restart =>
      cases h
      exact ⟨data, rfl, rfl⟩

def steadyCalls : Calls Unit :=
  [(.change setA, ready), (.restart, ready), (getA, ready), (.change (.delete (.ofString "a")), ready),
    (.shutdown, ready), (.initializeService, ready), (getA, ready)]

theorem steadyCalls_expressible : ∀ call ∈ steadyCalls, call.1.Expressible fun _ : Unit => True := by
  have hset := sampleCall_expressible
  simp only [List.forall_mem_cons] at hset
  simp only [steadyCalls, List.forall_mem_cons, hset.1, true_and]
  exact ⟨trivial, trivial, trivial, trivial, trivial, trivial, fun _ hm => absurd hm List.not_mem_nil⟩

end InMemory

end YasinCore.Storage
