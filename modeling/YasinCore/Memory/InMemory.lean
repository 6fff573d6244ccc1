import YasinCore.Memory.Base

namespace YasinCore.Memory

open YasinCore.Library

variable {φ : Type}

abbrev Data (φ : Type) := Dict Str (MemoryEntry φ)

namespace InMemory

abbrev Operation (φ : Type) := EStateM MemoryError (Data φ)

def cleanupExpired (b : Builtins φ) (now : Clock) : Operation φ PUnit :=
  modify fun data =>
    ((data.entries.filter fun item => item.2.isExpired b now).map Prod.fst).foldl Dict.erase data

def get (b : Builtins φ) (now : Clock) (key : Str) (default : Json φ) : Operation φ (Json φ) := do
  cleanupExpired b now
  match (← MonadState.get).get? key with
  | some entry => return entry.value
  | none => return default

def set (b : Builtins φ) (now : Clock) (key : Str) (value : Json φ)
    (metadata : Option (List (Str × Json φ))) (ttl : Option Int) : Operation φ PUnit := do
  cleanupExpired b now
  match MemoryEntry.ofSet b now key value metadata ttl with
  | .error e => throw e
  | .ok entry => modify fun data => data.set key entry

def delete (b : Builtins φ) (now : Clock) (key : Str) : Operation φ PUnit := do
  cleanupExpired b now
  modify fun data => data.erase key

def clear : Operation φ PUnit := modify fun _ => .empty

def getEntry (b : Builtins φ) (now : Clock) (key : Str) : Operation φ (Option (MemoryEntry φ)) := do
  cleanupExpired b now
  return (← MonadState.get).get? key

def search (b : Builtins φ) (now : Clock) (query : Str) : Operation φ (List (MemoryEntry φ)) := do
  cleanupExpired b now
  match select (MemoryEntry.isHit b query) (← MonadState.get).values with
  | .error e => throw e
  | .ok found => return found

def filter (b : Builtins φ) (now : Clock) (filters : List (Str × Json φ)) :
    Operation φ (List (MemoryEntry φ)) := do
  cleanupExpired b now
  return (← MonadState.get).values.filter (MemoryEntry.hasMetadata b filters)

def status (b : Builtins φ) (now : Clock) : Operation φ (Result φ) := do
  cleanupExpired b now
  let data ← MonadState.get
  return .status "active" data.size data.keys

def call (b : Builtins φ) (now : Clock) : Call φ → Operation φ (Result φ)
  | .set key value metadata ttl => do
      set b now key value metadata ttl
      return .done
  | .get key default => return .value (← get b now key default)
  | .getEntry key => return .entry (← getEntry b now key)
  | .delete key => do
      delete b now key
      return .done
  | .clear => do
      clear
      return .done
  | .search query => return .entries (← search b now query)
  | .filter filters => return .entries (← filter b now filters)
  | .status => status b now

end InMemory

end YasinCore.Memory
