import YasinCore.Library.Hoare
import YasinCore.Library.Json

namespace YasinCore.Api

open YasinCore.Library

variable {φ σ : Type}

def text (s : String) : Json φ := .str (.ofString s)

def fields (entries : List (String × Json φ)) : Json φ :=
  .dict (entries.map fun entry => (.ofString entry.1, entry.2))

inductive APIErrorCode
  | validationError
  | unauthorized
  | forbidden
  | notFound
  | methodNotAllowed
  | internalServerError
  | serviceUnavailable
  deriving DecidableEq

def APIErrorCode.value : APIErrorCode → String
  | validationError => "VALIDATION_ERROR"
  | unauthorized => "UNAUTHORIZED"
  | forbidden => "FORBIDDEN"
  | notFound => "NOT_FOUND"
  | methodNotAllowed => "METHOD_NOT_ALLOWED"
  | internalServerError => "INTERNAL_SERVER_ERROR"
  | serviceUnavailable => "SERVICE_UNAVAILABLE"

structure APIError (φ : Type) where
  message : Str
  code : APIErrorCode
  statusCode : Nat
  details : List (Str × Json φ)

def APIError.toDict (error : APIError φ) : Json φ :=
  .dict ([(.ofString "code", text error.code.value), (.ofString "message", .str error.message)] ++
    if error.details.isEmpty then [] else [(.ofString "details", .dict error.details)])

-- What is raised: an error of the interface, a ValueError, or any other exception, with its text.
inductive Raised (φ : Type)
  | api (error : APIError φ)
  | value (message : Str)
  | other (message : Str)

structure APIRequest (φ : Type) where
  method : String
  path : String
  headers : Json φ
  queryParams : Json φ
  body : Json φ

def isDict : Json φ → Bool
  | .dict _ => true
  | _ => false

def APIRequest.validate (request : APIRequest φ) : Except (Raised φ) Unit := do
  if request.method = "" then
    throw (.value (.ofString "Request method is required."))
  if request.path = "" then
    throw (.value (.ofString "Request path is required."))
  if isDict request.headers = false then
    throw (.value (.ofString "Headers must be a dictionary."))
  if isDict request.queryParams = false then
    throw (.value (.ofString "Query parameters must be a dictionary."))

structure APIResponse (φ : Type) where
  statusCode : Nat
  data : Json φ
  errors : List (Json φ)
  version : String

def APIResponse.success (statusCode : Nat) (data : Json φ) (version : String) : APIResponse φ :=
  ⟨statusCode, data, [], version⟩

def APIResponse.failure (error : APIError φ) (version : String) : APIResponse φ :=
  ⟨error.statusCode, .null, [error.toDict], version⟩

-- A task, with what a client puts into its fields.
structure Task (φ : Type) where
  id : Json φ
  name : Json φ
  inputData : Json φ
  status : Json φ
  result : Json φ
  error : Json φ

-- The operations of the client that the handlers call.
inductive Operation (φ : Type)
  | health
  | status
  | start
  | stop
  | reload
  | createTask (id name inputData : Json φ)
  | executeTask (task : Task φ)
  | saveMemory (key value category metadata ttl : Json φ)
  | getMemory (key category : Json φ)
  | createContext (data parentId metadata : Json φ)
  | activeContext
  | retrieveContextMemories (contextId : Json φ)
  | listPlugins
  | pluginStatus
  | loadPlugin (name : Json φ)
  | unloadPlugin (name : Json φ)
  | startPlugin (name : Json φ)
  | stopPlugin (name : Json φ)
  | pluginState (name : Json φ)
  | publish (eventName payload : Json φ)

@[reducible] def Operation.Reply : Operation φ → Type
  | .createTask .. | .executeTask _ => Task φ
  | _ => Json φ

-- What the gateway uses of the interpreter: whether a number is zero, how a value is written in a
-- message, the trace of an exception, and the clock.
structure Host (σ φ : Type) where
  isZero : φ → Bool
  str : Json φ → Str
  traceback : Raised φ → Str
  time : σ → φ
  minus : φ → φ → φ

-- Each operation changes the state of the client, and returns or raises.
abbrev Client (σ φ : Type) := (operation : Operation φ) → EStateM (Raised φ) σ operation.Reply

-- A call of an operation, with what it has raised.
structure Call (φ : Type) where
  operation : Operation φ
  raised : Option (Raised φ)

structure World (σ φ : Type) where
  client : σ
  calls : List (Call φ)

abbrev Program (σ φ : Type) := EStateM (Raised φ) (World σ φ)

def call (client : Client σ φ) (operation : Operation φ) : Program σ φ operation.Reply := fun w =>
  match client operation w.client with
  | .ok reply s => .ok reply ⟨s, w.calls ++ [⟨operation, none⟩]⟩
  | .error e s => .error e ⟨s, w.calls ++ [⟨operation, some e⟩]⟩

def raise {α : Type} (error : Raised φ) : Program σ φ α := throw error

end YasinCore.Api
