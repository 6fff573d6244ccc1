import YasinCore.Api.Models

namespace YasinCore.Api

open YasinCore.Library

variable {σ φ : Type}

section Values

-- The class of a value, as messages name it.
def typeName : Json φ → String
  | .null => "NoneType"
  | .bool _ => "bool"
  | .int _ => "int"
  | .float _ => "float"
  | .str _ => "str"
  | .list _ => "list"
  | .dict _ => "dict"
  | .object _ => "object"

def truthy (host : Host σ φ) : Json φ → Bool
  | .null => false
  | .bool value => value
  | .int n => n ≠ 0
  | .float x => !host.isZero x
  | .str s => !s.isEmpty
  | .list items => !items.isEmpty
  | .dict entries => !entries.isEmpty
  | .object _ => true

-- value or {}
def orEmpty (host : Host σ φ) (value : Json φ) : Json φ :=
  if truthy host value then value else .dict []

def isStr : Json φ → Bool
  | .str _ => true
  | _ => false

-- key in value
def contains (key : String) : Json φ → Program σ φ Bool
  | .dict entries => return (Entries.lookup (.ofString key) entries).isSome
  | .list items => return items.any fun
      | .str s => s = .ofString key
      | _ => false
  | .str s => return decide (Str.ofString key <:+: s)
  | value => raise (.other (.ofString
      ("argument of type '" ++ typeName value ++ "' is not iterable")))

-- value[key]
def subscript (key : String) : Json φ → Program σ φ (Json φ)
  | .dict entries =>
      match Entries.lookup (.ofString key) entries with
      | some value => return value
      | none => raise (.other (.ofString ("'" ++ key ++ "'")))
  | .list _ => raise (.other (.ofString "list indices must be integers or slices, not str"))
  | .str _ => raise (.other (.ofString "string indices must be integers, not 'str'"))
  | value => raise (.other (.ofString ("'" ++ typeName value ++ "' object is not subscriptable")))

def noAttribute {α : Type} (value : Json φ) (name : String) : Program σ φ α :=
  raise (.other (.ofString ("'" ++ typeName value ++ "' object has no attribute '" ++ name ++ "'")))

-- value.get(key, default)
def getField (key : String) (default : Json φ) : Json φ → Program σ φ (Json φ)
  | .dict entries => return (Entries.lookup (.ofString key) entries).getD default
  | value => noAttribute value "get"

-- list(value.keys())
def keyList : Json φ → Program σ φ (Json φ)
  | .dict entries => return .list (entries.map fun entry => .str entry.1)
  | value => noAttribute value "keys"

end Values

def invalid {α : Type} (message : String) : Program σ φ α :=
  raise (.api ⟨.ofString message, .validationError, 400, []⟩)

abbrev Handler (σ φ : Type) := APIRequest φ → Program σ φ (APIResponse φ)

section Handlers

variable (host : Host σ φ) (client : Client σ φ)

def message (parts : Str) : Json φ := fields [("message", .str parts)]

-- A handler that makes one call and returns what it gave.
def report (operation : Operation φ) (data : operation.Reply → Json φ) : Handler σ φ := fun _ => do
  let reply ← call client operation
  return .success 200 (data reply) "v1"

def handleHealth : Handler σ φ := report client .health id

def handleRuntimeStatus : Handler σ φ := report client .status id

def handleRuntimeStart : Handler σ φ :=
  report client .start fun _ => message (.ofString "Runtime started successfully.")

def handleRuntimeStop : Handler σ φ :=
  report client .stop fun _ => message (.ofString "Runtime stopped successfully.")

def handleRuntimeReload : Handler σ φ :=
  report client .reload fun _ => message (.ofString "Runtime reloaded successfully.")

-- The second question is asked when the answer to the first one is yes.
def both (first second : Program σ φ Bool) : Program σ φ Bool := do
  if ← first then second else pure false

-- Two fields that a body has to have.
def requireFields (body : Json φ) (first second error : String) : Program σ φ Unit := do
  if (← both (contains first body) (contains second body)) = false then
    invalid error

def handleTaskCreate : Handler σ φ := fun request => do
  let body := orEmpty host request.body
  requireFields body "id" "name" "Missing required fields: 'id' and 'name'."
  let id ← subscript "id" body
  let name ← subscript "name" body
  let inputData ← getField "input_data" .null body
  let task : Task φ ← call client (.createTask id name inputData)
  return .success 201 (fields [("id", task.id), ("name", task.name),
    ("input_data", task.inputData), ("status", task.status), ("result", task.result),
    ("error", task.error)]) "v1"

def handleTaskExecuteV1 : Handler σ φ := fun request => do
  let body := orEmpty host request.body
  requireFields body "id" "name" "Missing required fields: 'id' and 'name'."
  let id ← subscript "id" body
  let name ← subscript "name" body
  let inputData ← getField "input_data" .null body
  let task : Task φ ← call client (.createTask id name inputData)
  let executed : Task φ ← call client (.executeTask task)
  return .success 200 (fields [("id", executed.id), ("name", executed.name),
    ("status", executed.status), ("result", executed.result), ("error", executed.error)]) "v1"

-- The keys of the input data, if there are input data.
def inputKeys (body : Json φ) : Program σ φ (Json φ) := do
  if truthy host (← getField "input_data" .null body) then
    keyList (← getField "input_data" (.dict []) body)
  else pure (.list [])

def handleTaskExecuteV2 : Handler σ φ := fun request => do
  let body := orEmpty host request.body
  requireFields body "id" "name" "Missing required fields for v2 execute: 'id' and 'name'."
  let strings ← both (isStr <$> subscript "id" body) (isStr <$> subscript "name" body)
  if strings = false then
    invalid "'id' and 'name' must be string values."
  let id ← subscript "id" body
  let name ← subscript "name" body
  let inputData ← getField "input_data" .null body
  let task : Task φ ← call client (.createTask id name inputData)
  let startTime := host.time (← get).client
  let executed : Task φ ← call client (.executeTask task)
  let duration := host.minus (host.time (← get).client) startTime
  let inputKeys ← inputKeys host body
  return .success 200 (fields [("id", executed.id), ("name", executed.name),
    ("status", executed.status), ("result", executed.result), ("error", executed.error),
    ("meta", fields [("version", text "v2"), ("duration_seconds", .float duration),
      ("input_keys", inputKeys)])]) "v2"

def handleMemorySaveV1 : Handler σ φ := fun request => do
  let body := orEmpty host request.body
  requireFields body "key" "value" "Missing required fields: 'key' and 'value'."
  let category ← getField "category" (text "short-term") body
  let key ← subscript "key" body
  let value ← subscript "value" body
  let metadata ← getField "metadata" .null body
  let ttl ← getField "ttl" .null body
  let _ ← call client (.saveMemory key value category metadata ttl)
  return .success 200
    (message (.ofString "Saved key in " ++ host.str category ++ .ofString " memory.")) "v1"

-- The metadata with the tag of the second version.
def mergedMetadata : Json φ → Json φ
  | .dict entries => .dict (Entries.assign (.ofString "v2_saved") (.bool true) entries)
  | _ => fields [("v2_saved", .bool true)]

def handleMemorySaveV2 : Handler σ φ := fun request => do
  let body := orEmpty host request.body
  requireFields body "key" "value" "Missing required fields for v2: 'key' and 'value'."
  let metadata ← getField "metadata" .null body
  if typeName metadata ≠ "NoneType" ∧ isDict metadata = false then
    invalid "'metadata' must be a dictionary in v2."
  let category ← getField "category" (text "short-term") body
  let key ← subscript "key" body
  let value ← subscript "value" body
  let ttl ← getField "ttl" .null body
  let _ ← call client (.saveMemory key value category (mergedMetadata metadata) ttl)
  return .success 200 (fields [("message", .str (.ofString "Saved key in " ++ host.str category ++
    .ofString " memory with v2 metadata tag.")), ("v2", .bool true)]) "v2"

-- A parameter of the query that has to be there.
def requireParam (request : APIRequest φ) (key error : String) : Program σ φ (Json φ) := do
  let param ← getField key .null request.queryParams
  if truthy host param = false then
    invalid error
  return param

def handleMemoryGet : Handler σ φ := fun request => do
  let key ← requireParam host request "key" "Missing query parameter 'key'."
  let category ← getField "category" (text "short-term") request.queryParams
  let value : Json φ ← call client (.getMemory key category)
  return .success 200 (fields [("key", key), ("value", value), ("category", category)]) "v1"

def handleContextCreate : Handler σ φ := fun request => do
  let body := orEmpty host request.body
  let data ← getField "data" .null body
  let parentId ← getField "parent_id" .null body
  let metadata ← getField "metadata" .null body
  let context : Json φ ← call client (.createContext data parentId metadata)
  return .success 201 context "v1"

-- Without a context the client gives none.
def handleContextActive : Handler σ φ := report client .activeContext fun context =>
  if typeName context = "NoneType" then
    message (.ofString "No active context found in current thread.")
  else context

def handleContextMemories : Handler σ φ := fun request => do
  let contextId ← requireParam host request "context_id" "Missing query parameter 'context_id'."
  let memories : Json φ ← call client (.retrieveContextMemories contextId)
  return .success 200 memories "v1"

def handlePluginList : Handler σ φ :=
  report client .listPlugins fun plugins => fields [("plugins", plugins)]

def handlePluginStatus : Handler σ φ := report client .pluginStatus id

-- An operation on the plugin that the body names.
def pluginHandler (operation : Json φ → Operation φ) (done : String) : Handler σ φ :=
  fun request => do
    let body := orEmpty host request.body
    let name ← getField "name" .null body
    if truthy host name = false then
      invalid "Missing required field 'name'."
    let _ ← call client (operation name)
    return .success 200 (message (.ofString "Plugin '" ++ host.str name ++
      .ofString ("' " ++ done ++ " successfully."))) "v1"

def handlePluginLoad : Handler σ φ := pluginHandler host client .loadPlugin "loaded"

def handlePluginUnload : Handler σ φ := pluginHandler host client .unloadPlugin "unloaded"

def handlePluginStart : Handler σ φ := pluginHandler host client .startPlugin "started"

def handlePluginStop : Handler σ φ := pluginHandler host client .stopPlugin "stopped"

def handlePluginState : Handler σ φ := fun request => do
  let name ← requireParam host request "name" "Missing query parameter 'name'."
  let state : Json φ ← call client (.pluginState name)
  return .success 200 (fields [("name", name), ("state", state)]) "v1"

def handleEventPublish : Handler σ φ := fun request => do
  let body := orEmpty host request.body
  let eventName ← getField "event_name" .null body
  let payload ← getField "payload" .null body
  if truthy host eventName = false then
    invalid "Missing required field 'event_name'."
  let _ ← call client (.publish eventName payload)
  return .success 200 (message (.ofString "Event '" ++ host.str eventName ++
    .ofString "' published successfully.")) "v1"

end Handlers

-- The default routes with the method POST.
inductive Endpoint
  | runtimeStart
  | runtimeStop
  | runtimeReload
  | taskCreate
  | taskExecuteV1
  | taskExecuteV2
  | memorySaveV1
  | memorySaveV2
  | contextCreate
  | pluginLoad
  | pluginUnload
  | pluginStart
  | pluginStop
  | eventPublish
  deriving DecidableEq

namespace Endpoint

def path : Endpoint → String
  | runtimeStart => "/v1/runtime/start"
  | runtimeStop => "/v1/runtime/stop"
  | runtimeReload => "/v1/runtime/reload"
  | taskCreate => "/v1/tasks/create"
  | taskExecuteV1 => "/v1/tasks/execute"
  | taskExecuteV2 => "/v2/tasks/execute"
  | memorySaveV1 => "/v1/memory/save"
  | memorySaveV2 => "/v2/memory/save"
  | contextCreate => "/v1/context/create"
  | pluginLoad => "/v1/plugins/load"
  | pluginUnload => "/v1/plugins/unload"
  | pluginStart => "/v1/plugins/start"
  | pluginStop => "/v1/plugins/stop"
  | eventPublish => "/v1/events/publish"

def handler (host : Host σ φ) (client : Client σ φ) : Endpoint → Handler σ φ
  | runtimeStart => handleRuntimeStart client
  | runtimeStop => handleRuntimeStop client
  | runtimeReload => handleRuntimeReload client
  | taskCreate => handleTaskCreate host client
  | taskExecuteV1 => handleTaskExecuteV1 host client
  | taskExecuteV2 => handleTaskExecuteV2 host client
  | memorySaveV1 => handleMemorySaveV1 host client
  | memorySaveV2 => handleMemorySaveV2 host client
  | contextCreate => handleContextCreate host client
  | pluginLoad => handlePluginLoad host client
  | pluginUnload => handlePluginUnload host client
  | pluginStart => handlePluginStart host client
  | pluginStop => handlePluginStop host client
  | eventPublish => handleEventPublish host client

def all : List Endpoint :=
  [runtimeStart, runtimeStop, runtimeReload, taskCreate, taskExecuteV1, taskExecuteV2, memorySaveV1,
    memorySaveV2, contextCreate, pluginLoad, pluginUnload, pluginStart, pluginStop, eventPublish]

end Endpoint

structure APIGateway (σ φ : Type) where
  host : Host σ φ
  client : Client σ φ
  authenticate : APIRequest φ → Except (Raised φ) Unit
  routes : Dict (String × String) (Handler σ φ)

namespace APIGateway

-- What is registered when nobody has registered anything else.
def defaultRoutes (host : Host σ φ) (client : Client σ φ) :
    List ((String × String) × Handler σ φ) :=
  [(("GET", "/v1/health"), handleHealth client),
    (("GET", "/v1/runtime/status"), handleRuntimeStatus client),
    (("GET", "/v1/memory/get"), handleMemoryGet host client),
    (("GET", "/v1/context/active"), handleContextActive client),
    (("GET", "/v1/context/memories"), handleContextMemories host client),
    (("GET", "/v1/plugins/list"), handlePluginList client),
    (("GET", "/v1/plugins/status"), handlePluginStatus client),
    (("GET", "/v1/plugins/state"), handlePluginState host client)] ++
  Endpoint.all.map fun endpoint => (("POST", endpoint.path), endpoint.handler host client)

def init (host : Host σ φ) (client : Client σ φ)
    (authenticate : APIRequest φ → Except (Raised φ) Unit) : APIGateway σ φ :=
  ⟨host, client, authenticate, .ofEntries (defaultRoutes host client)⟩

-- The method comes in upper case.
def registerRoute (method path : String) (handler : Handler σ φ) (gateway : APIGateway σ φ) :
    APIGateway σ φ :=
  { gateway with routes := gateway.routes.set (method, path) handler }

def check {α : Type} (result : Except (Raised φ) α) : Program σ φ α :=
  match result with
  | .ok value => return value
  | .error e => raise e

-- The part of handle_request in which exceptions are caught.
def dispatch (gateway : APIGateway σ φ) (request : APIRequest φ) : Program σ φ (APIResponse φ) := do
  check request.validate
  check (gateway.authenticate request)
  match gateway.routes.get? (request.method, request.path) with
  | some handler => handler request
  | none => raise (.api ⟨.ofString ("Endpoint '" ++ request.method ++ " " ++ request.path ++
      "' not found."), .notFound, 404, []⟩)

-- The error that an exception is answered with.
def errorFor (host : Host σ φ) : Raised φ → APIError φ
  | .api error => error
  | .value message => ⟨message, .validationError, 400, []⟩
  | .other message => ⟨.ofString "An unexpected error occurred: " ++ message, .internalServerError, 500,
      [(.ofString "traceback", .str (host.traceback (.other message)))]⟩

def handleRequest (gateway : APIGateway σ φ) (request : APIRequest φ) (w : World σ φ) :
    APIResponse φ × World σ φ :=
  let version := if request.path.startsWith "/v2/" then "v2" else "v1"
  match gateway.dispatch request w with
  | .ok response t => (response, t)
  | .error e t => (.failure (errorFor gateway.host e) version, t)

end APIGateway

end YasinCore.Api
