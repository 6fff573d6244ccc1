import YasinCore.Memory.Base

namespace YasinCore.Memory.Persistent

open YasinCore.Library YasinCore.Storage

variable {φ : Type}

abbrev Operation (φ : Type) := EStateM MemoryError (JSONFileStorage φ)

-- A call of the storage, whose exceptions pass through.
def ofStorage {α : Type} (operation : Storage.Operation φ α) : Operation φ α := fun s =>
  match operation s with
  | .ok value t => .ok value t
  | .error e t => .error (.storage e) t

def storageGet (key : Str) : Operation φ (Json φ) := fun s =>
  match s.get key .null with
  | .ok value => .ok value s
  | .error e => .error (.storage e) s

def getAllKeys : Operation φ (List Str) := do
  match (← MonadState.get).data with
  | .dict entries => return entries.map Prod.fst
  | _ => throw (.storage .attributeError)

section

variable (b : Builtins φ) (floats : Floats φ) (disk : Disk) (now : Clock)

-- A value that is no entry counts as the value of one.
def wrapped (key : Str) (data : Json φ) : MemoryEntry φ :=
  .init b now (.str key) data [] .null .null

def readEntry (key : Str) (data : Json φ) : Operation φ (Option (MemoryEntry φ)) :=
  match data with
  | .dict fields =>
      if (Entries.lookup (.ofString "key") fields).isNone ∨
          (Entries.lookup (.ofString "value") fields).isNone then
        return some (wrapped b now key data)
      else
        match MemoryEntry.fromDict b now fields with
        | none => throw .conversion
        | some entry => do
            if entry.isExpired b now then
              ofStorage (Storage.Operation.delete floats disk key)
              return none
            return some entry
  | _ => return some (wrapped b now key data)

def getEntry (key : Str) : Operation φ (Option (MemoryEntry φ)) := do
  match ← storageGet key with
  | .null => return none
  | data =>
      tryCatch (readEntry b floats disk now key data) fun _ => return some (wrapped b now key data)

-- The keys that _cleanup_expired collects.
def expiredKeys : List Str → Operation φ (List Str)
  | [] => return []
  | key :: keys => do
      let entry ← getEntry b floats disk now key
      let others ← expiredKeys keys
      return if entry.any (·.isExpired b now) then key :: others else others

-- _cleanup_expired and delete call each other; the number is the recursion depth that is left.
def cleanupExpired : Nat → Operation φ PUnit
  | 0 => throw .recursion
  | depth + 1 => do
      let keys ← expiredKeys b floats disk now (← getAllKeys)
      keys.forM fun key => do
        cleanupExpired depth
        ofStorage (Storage.Operation.delete floats disk key)

variable (depth : Nat)

def delete (key : Str) : Operation φ PUnit := do
  cleanupExpired b floats disk now depth
  ofStorage (Storage.Operation.delete floats disk key)

def get (key : Str) (default : Json φ) : Operation φ (Json φ) := do
  cleanupExpired b floats disk now depth
  match ← getEntry b floats disk now key with
  | some entry => return entry.value
  | none => return default

def set (key : Str) (value : Json φ) (metadata : Option (List (Str × Json φ))) (ttl : Option Int) :
    Operation φ PUnit := do
  cleanupExpired b floats disk now depth
  match MemoryEntry.ofSet b now key value metadata ttl with
  | .error e => throw e
  | .ok entry => ofStorage (Storage.Operation.set floats disk key (.dict entry.toDict))

def clear : Operation φ PUnit := ofStorage (Storage.Operation.clear floats disk)

-- The loop of search and filter over the stored keys.
def gather (keep : MemoryEntry φ → Except MemoryError Bool) :
    List Str → Operation φ (List (MemoryEntry φ))
  | [] => return []
  | key :: keys => do
      match ← getEntry b floats disk now key with
      | none => gather keep keys
      | some entry =>
          match keep entry with
          | .error e => throw e
          | .ok kept =>
              let others ← gather keep keys
              return if kept then entry :: others else others

def search (query : Str) : Operation φ (List (MemoryEntry φ)) := do
  cleanupExpired b floats disk now depth
  gather b floats disk now (MemoryEntry.isHit b query) (← getAllKeys)

def filter (filters : List (Str × Json φ)) : Operation φ (List (MemoryEntry φ)) := do
  cleanupExpired b floats disk now depth
  gather b floats disk now (fun entry => .ok (entry.hasMetadata b filters)) (← getAllKeys)

def status : Operation φ (Result φ) := do
  cleanupExpired b floats disk now depth
  let keys ← getAllKeys
  return .status "active" keys.length keys

def call : Call φ → Operation φ (Result φ)
  | .set key value metadata ttl => do
      set b floats disk now depth key value metadata ttl
      return .done
  | .get key default => return .value (← get b floats disk now depth key default)
  | .getEntry key => return .entry (← getEntry b floats disk now key)
  | .delete key => do
      delete b floats disk now depth key
      return .done
  | .clear => do
      clear floats disk
      return .done
  | .search query => return .entries (← search b floats disk now depth query)
  | .filter filters => return .entries (← filter b floats disk now depth filters)
  | .status => status b floats disk now depth

end

end YasinCore.Memory.Persistent
