import YasinCore.Library.Json

namespace YasinCore.Storage

open YasinCore.Library

variable {φ : Type}

-- What a file holds: bytes that are the encoding of a text, or bytes that are of none.
inductive Content
  | text (chars : List Char)
  | undecodable (bytes : List UInt8)
  deriving DecidableEq

-- What the file system does to one attempt to write the file, failures with their messages: whether
-- the directory is there or can be made, whether the file can be opened for writing, and after how
-- many characters the device takes no more.
structure Disk where
  directory : Option String
  opening : Option String
  room : Option (Nat × String)

-- The last two are what the interpreter raises when the parsed data is no dictionary.
inductive StorageError
  | connection (message : String)
  | typeError
  | attributeError
  deriving DecidableEq

structure JSONFileStorage (φ : Type) where
  filepath : String
  data : Json φ
  file : Option Content

abbrev Operation (φ : Type) := EStateM StorageError (JSONFileStorage φ)

namespace JSONFileStorage

-- A missing file and one that cannot be parsed both count as an empty dictionary.
def loaded (floats : Floats φ) : Option Content → Json φ
  | some (.text chars) => (Json.decode floats chars).getD (.dict [])
  | _ => .dict []

def load (floats : Floats φ) (s : JSONFileStorage φ) : JSONFileStorage φ :=
  { s with data := loaded floats s.file }

def reload (floats : Floats φ) (s : JSONFileStorage φ) : JSONFileStorage φ := s.load floats

def get (s : JSONFileStorage φ) (key : Str) (default : Json φ) : Except StorageError (Json φ) :=
  match s.data with
  | .dict entries => .ok ((Entries.lookup key entries).getD default)
  | _ => .error .attributeError

end JSONFileStorage

-- The characters of an output that reach the file.
def Disk.written (disk : Disk) (out : Json.Output) : List Char :=
  match disk.room with
  | some (room, _) => out.text.take room
  | none => out.text

-- Why writing an output fails: the device is full, or the encoder refuses a value.
def Disk.failure (disk : Disk) (out : Json.Output) : Option String :=
  match disk.room with
  | some (room, e) => if room < out.text.length then some e else out.refusal
  | none => out.refusal

namespace Operation

def save (floats : Floats φ) (disk : Disk) : Operation φ Unit := do
  let s ← get
  if let some e := disk.directory then
    throw (.connection ("Failed to create directory for database storage: " ++ e))
  if let some e := disk.opening then
    throw (.connection ("Failed to write to storage file " ++ s.filepath ++ ": " ++ e))
  -- Opening the file empties it, and what was written stays when the rest fails.
  let out := Json.encode floats 4 0 s.data
  modify fun s => { s with file := some (.text (disk.written out)) }
  if let some e := disk.failure out then
    throw (.connection ("Failed to write to storage file " ++ s.filepath ++ ": " ++ e))

def set (floats : Floats φ) (disk : Disk) (key : Str) (value : Json φ) : Operation φ Unit := do
  match (← get).data with
  | .dict entries =>
      modify fun s => { s with data := .dict (Entries.assign key value entries) }
      save floats disk
  | _ => throw .typeError

def isStr (key : Str) : Json φ → Bool
  | .str s => s = key
  | _ => false

def delete (floats : Floats φ) (disk : Disk) (key : Str) : Operation φ Unit := do
  match (← get).data with
  | .dict entries =>
      if key ∈ entries.map Prod.fst then
        modify fun s => { s with data := .dict (Entries.remove key entries) }
        save floats disk
  | .list items => if items.any (isStr key) then throw .typeError
  | .str s => if key <:+: s then throw .typeError
  | _ => throw .typeError

def clear (floats : Floats φ) (disk : Disk) : Operation φ Unit := do
  match (← get).data with
  | .dict _ =>
      modify fun s => { s with data := .dict [] }
      save floats disk
  | .list _ =>
      modify fun s => { s with data := .list [] }
      save floats disk
  | _ => throw .attributeError

end Operation

-- The calls that change what is stored.
inductive Action (φ : Type)
  | set (key : Str) (value : Json φ)
  | delete (key : Str)
  | clear

def Action.operation (floats : Floats φ) (disk : Disk) : Action φ → Operation φ Unit
  | .set key value => Operation.set floats disk key value
  | .delete key => Operation.delete floats disk key
  | .clear => Operation.clear floats disk

end YasinCore.Storage
