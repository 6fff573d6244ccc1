import YasinCore.Library.Isoformat
import YasinCore.Storage.JSONFile

namespace YasinCore.Memory

open YasinCore.Library

variable {φ : Type}

-- The built-ins that are applied to stored values.
structure Builtins (φ : Type) where
  str : Json φ → Str
  lower : Str → Str
  equal : Json φ → Json φ → Bool
  isZero : φ → Bool

-- What bool gives; an object of any other class counts as true.
def Builtins.truth (b : Builtins φ) : Json φ → Bool
  | .null => false
  | .bool value => value
  | .int value => value ≠ 0
  | .float value => !b.isZero value
  | .str value => !value.isEmpty
  | .list items => !items.isEmpty
  | .dict entries => !entries.isEmpty
  | .object _ => true

-- One reading of the clock, in UTC and in local time.
structure Clock where
  utc : DateTime
  wall : DateTime
  utc_offset : utc.offset = some 0
  wall_offset : wall.offset = none

inductive MemoryError
  | storage (e : Storage.StorageError)
  | recursion
  | overflow
  | attribute
  | conversion
  deriving DecidableEq

-- The items of a dictionary whose keys may be other values than strings.
abbrev Items (φ : Type) := List (Json φ × Json φ)

namespace Items

def ofEntries (entries : List (Str × Json φ)) : Items φ := entries.map fun entry => (.str entry.1, entry.2)

-- The items whose keys are strings.
def named (items : Items φ) : List (Str × Json φ) :=
  items.filterMap fun item =>
    match item.1 with
    | .str key => some (key, item.2)
    | _ => none

def isHashable : Json φ → Bool
  | .list _ | .dict _ => false
  | _ => true

-- Whether two keys are one to a dictionary, as 1 and true are.
def sameKey (b : Builtins φ) : Json φ → Json φ → Bool
  | .str key, .str other => key = other
  | key, other => b.equal key other

def assign (b : Builtins φ) (key value : Json φ) : Items φ → Items φ
  | [] => [(key, value)]
  | item :: items => if sameKey b item.1 key then (item.1, value) :: items else item :: assign b key value items

-- A key and a value, from an element of a sequence that is made a dictionary.
def pair? : Json φ → Option (Json φ × Json φ)
  | .list [key, value] => if isHashable key then some (key, value) else none
  | .str [key, value] => some (.str [key], .str [value])
  | .dict [(key, _), (value, _)] => some (.str key, .str value)
  | _ => none

-- dict(value); none is an exception.
def dict? (b : Builtins φ) : Json φ → Option (Items φ)
  | .dict entries => some (ofEntries entries)
  | .list items => (items.mapM pair?).map fun pairs =>
      pairs.foldl (fun items pair => assign b pair.1 pair.2 items) []
  | .str value => if value = [] then some [] else none
  | _ => none

theorem named_ofEntries (entries : List (Str × Json φ)) : (ofEntries entries).named = entries := by
  unfold named ofEntries
  rw [List.filterMap_map]
  exact List.filterMap_some

end Items

structure MemoryEntry (φ : Type) where
  key : Json φ
  value : Json φ
  metadata : Items φ
  createdAt : Json φ
  expireAt : Json φ

namespace MemoryEntry

def init (b : Builtins φ) (now : Clock) (key value : Json φ) (metadata : Items φ)
    (createdAt expireAt : Json φ) : MemoryEntry φ where
  key := key
  value := value
  metadata := metadata
  createdAt := if b.truth createdAt then createdAt else .str now.utc.isoformat
  expireAt := expireAt

def isExpired (b : Builtins φ) (now : Clock) (entry : MemoryEntry φ) : Bool :=
  if b.truth entry.expireAt then
    match entry.expireAt with
    | .str text =>
        match DateTime.fromisoformat text with
        | some exp =>
            if exp.isAware then exp.instant < now.utc.instant else exp.instant < now.wall.instant
        | none => false
    | _ => false
  else false

-- Asked for only where set has made the entry, from metadata whose keys are strings.
def toDict (entry : MemoryEntry φ) : List (Str × Json φ) :=
  [(.ofString "key", entry.key), (.ofString "value", entry.value),
    (.ofString "metadata", .dict entry.metadata.named), (.ofString "created_at", entry.createdAt),
    (.ofString "expire_at", entry.expireAt)]

-- Fails where the source raises: without a key or a value, or over metadata that dict refuses.
def fromDict (b : Builtins φ) (now : Clock) (data : List (Str × Json φ)) : Option (MemoryEntry φ) := do
  let key ← Entries.lookup (.ofString "key") data
  let value ← Entries.lookup (.ofString "value") data
  let metadata ←
    match (Entries.lookup (.ofString "metadata") data).getD .null with
    | .null => some []
    | metadata => Items.dict? b metadata
  return init b now key value metadata ((Entries.lookup (.ofString "created_at") data).getD .null)
    ((Entries.lookup (.ofString "expire_at") data).getD .null)

-- The entry that set makes; its metadata are copied, and its lifetime is in seconds.
def ofSet (b : Builtins φ) (now : Clock) (key : Str) (value : Json φ)
    (metadata : Option (List (Str × Json φ))) (ttl : Option Int) : Except MemoryError (MemoryEntry φ) :=
  match ttl with
  | none => .ok (init b now (.str key) value (.ofEntries (metadata.getD [])) .null .null)
  | some ttl =>
      match now.utc.addSeconds ttl with
      | none => .error .overflow
      | some exp => .ok (init b now (.str key) value (.ofEntries (metadata.getD [])) .null (.str exp.isoformat))

-- Whether the query occurs in the key, the value or the metadata; a key that is no string has no
-- lower case.
def isHit (b : Builtins φ) (query : Str) (entry : MemoryEntry φ) : Except MemoryError Bool :=
  match entry.key with
  | .str key =>
      .ok (b.lower query <:+: b.lower key || b.lower query <:+: b.lower (b.str entry.value) ||
        entry.metadata.any fun item =>
          b.lower query <:+: b.lower (b.str item.1) || b.lower query <:+: b.lower (b.str item.2))
  | _ => .error .attribute

def hasMetadata (b : Builtins φ) (filters : List (Str × Json φ)) (entry : MemoryEntry φ) : Bool :=
  filters.all fun item =>
    match Entries.lookup item.1 entry.metadata.named with
    | none => false
    | some value => b.equal value item.2

end MemoryEntry

-- The entries that a search keeps, in order.
def select (keep : MemoryEntry φ → Except MemoryError Bool) :
    List (MemoryEntry φ) → Except MemoryError (List (MemoryEntry φ))
  | [] => .ok []
  | entry :: entries => do
      let kept ← keep entry
      let others ← select keep entries
      return if kept then entry :: others else others

-- The calls on a long-term memory.
inductive Call (φ : Type)
  | set (key : Str) (value : Json φ) (metadata : Option (List (Str × Json φ))) (ttl : Option Int)
  | get (key : Str) (default : Json φ)
  | getEntry (key : Str)
  | delete (key : Str)
  | clear
  | search (query : Str)
  | filter (metadataFilters : List (Str × Json φ))
  | status

inductive Result (φ : Type)
  | done
  | value (value : Json φ)
  | entry (entry : Option (MemoryEntry φ))
  | entries (entries : List (MemoryEntry φ))
  | status (state : String) (totalEntries : Nat) (keys : List Str)

end YasinCore.Memory
