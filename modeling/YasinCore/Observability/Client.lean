import YasinCore.Agents.Runtime
import YasinCore.Observability.Service
import YasinCore.Plugins.Records

namespace YasinCore.Observability

open YasinCore.Library

variable {φ : Type}

-- Something that happened, with what it happened to: the name of an agent, or the identifier and the
-- name of a task.
structure Happening where
  kind : Kind
  values : List Str
  deriving DecidableEq

-- A client whose observability service listens to everything on its bus, and what has happened in it.
structure Client (φ : Type) where
  agents : Dict Agents.AgentName Agents.BaseAgent
  plugins : Plugins.Registry
  bus : Events.EventBus Unit (Payload φ)
  service : ObservabilityService φ
  happened : List Happening

-- Exceptions come with their texts.
abbrev Client.Program (φ : Type) := EStateM String (Client φ)

-- The handler of the service is called; what it raises the bus does not pass on.
def listener : Events.Handlers Unit (Payload φ) where
  isCoroutine _ := false
  changes _ _ := []
  outcome _ _ := .ok ()

namespace Client

def init : Client φ where
  agents := .empty
  plugins := .empty
  bus := (Events.EventBus.init 100).change (.subscribe Events.wildcard () none false)
  service := .empty
  happened := []

-- The attribute plugin_registry, which collect_all looks for with hasattr. There is none: a client
-- keeps its registry as _plugin_registry.
def pluginRegistry? (_ : Client φ) : Option Plugins.Registry := none

namespace Program

-- The bus publishes, and the service handles what is delivered to it.
def publish (name : String) (payload : Payload φ) : Program φ Unit := modify fun c =>
  let w := finalState (Events.Program.publish listener false (.named (.ofString name) payload))
    ⟨c.bus, []⟩
  { c with
    bus := w.bus
    service := w.deliveries.foldl (fun service delivery =>
      finalState (ObservabilityService.handleEvent delivery.event) service) c.service }

def happen (kind : Kind) (values : List String) : Program φ Unit :=
  modify fun c => { c with happened := c.happened ++ [⟨kind, values.map .ofString⟩] }

def text (s : String) : Json φ := .str (.ofString s)

def fields (entries : List (String × Json φ)) : List (Str × Json φ) :=
  entries.map fun entry => (.ofString entry.1, entry.2)

-- The runtime of the agents puts an event into an event.
def publishAgent (event : String) (name : Agents.AgentName) : Program φ Unit :=
  publish event (.event ⟨.ofString event, fields [("agent_name", text name)]⟩)

def raise {α : Type} (message : String) : Program φ α := throw message

-- AgentRuntime.register_agent, with how the check of the permissions ends
def registerAgent (agent : Agents.BaseAgent) (permitted : Except String Unit) : Program φ Unit := do
  match permitted with
  | .ok _ => pure ()
  | .error message => raise message
  modify fun c => { c with agents := c.agents.set agent.name agent }
  happen .agentRegistered [agent.name]
  publishAgent "agent_registered" agent.name

def removeAgent (name : Agents.AgentName) : Program φ Unit := do
  if name ∈ (← get).agents then
    modify fun c => { c with agents := c.agents.erase name }
    publishAgent "agent_removed" name

def setRunning (name : Agents.AgentName) (agent : Agents.BaseAgent) (running : Bool) :
    Program φ Unit :=
  modify fun c => { c with agents := c.agents.set name { agent with running := running } }

-- How start and stop of the agents end.
abbrev Hooks := Agents.AgentName → Option String

def callHook (hooks : Hooks) (name : Agents.AgentName) : Program φ Unit :=
  match hooks name with
  | none => pure ()
  | some message => raise message

def startAgents (hooks : Hooks) : Program φ Unit := do
  (← get).agents.entries.forM fun (name, agent) => do
    if agent.running = false then
      callHook hooks name
      setRunning name agent true
      happen .agentStarted [name]
      publishAgent "agent_started" name

def stopAgents (hooks : Hooks) : Program φ Unit := do
  (← get).agents.entries.forM fun (name, agent) => do
    if agent.running = true then
      callHook hooks name
      setRunning name agent false
      happen .agentStopped [name]
      publishAgent "agent_stopped" name

-- Task.to_dict
def taskFields (task : Agents.Task) : Json φ :=
  let optional (value : Option String) : Json φ := (value.map text).getD .null
  .dict (fields [("id", text task.id), ("name", text task.name),
    ("input_data", .dict (fields ((task.agentName.map fun name => ("agent_name", text name)).toList))),
    ("status", text task.status), ("result", optional task.result), ("error", optional task.error)])

def publishTask (event : String) (task : Agents.Task) (more : List (String × Json φ)) :
    Program φ Unit :=
  publish event (.dict (fields ([("task_id", text task.id), ("task_name", text task.name)] ++ more ++
    [("task", taskFields task)])))

-- The part of TaskExecutor.execute_task in which exceptions are caught.
def runTask (task : Agents.Task) (hooks : Agents.AgentHooks) : Program φ Agents.Task := do
  let agentName := task.agentName.getD task.name
  if agentName = "" then
    raise "Planner could not determine target agent name."
  let some agent := (← get).agents.get? agentName
    | raise ("Agent '" ++ agentName ++ "' not found.")
  if agent.running = false then
    match hooks.start with
    | .ok running =>
        setRunning agentName agent running
        happen .agentStarted [agentName]
        publish "agent_started" (.dict (fields [("agent_name", text agentName)]))
    | .error message => raise message
  match hooks.execute with
  | .ok result =>
      let task := { task with status := "completed", result := some result }
      happen .taskCompleted [task.id, task.name]
      publishTask "task_completed" task [("result", text result)]
      return task
  | .error message => raise message

def executeTask (task : Agents.Task) (hooks : Agents.AgentHooks) : Program φ Agents.Task := do
  let task := { task with status := "running" }
  happen .taskStarted [task.id, task.name]
  publishTask "task_started" task []
  tryCatch (runTask task hooks) fun message => do
    let task := { task with status := "failed", error := some message }
    happen .taskFailed [task.id, task.name]
    publishTask "task_failed" task [("error", text message)]
    return task

-- AgentRuntime.execute_agent_task, with how the check of the permissions ends
def executeAgentTask (task : Agents.Task) (permitted : Except String Unit)
    (hooks : Agents.AgentHooks) : Program φ Agents.Task := do
  let agentName := task.agentName.getD task.name
  if agentName ∉ (← get).agents then
    return { task with status := "failed", error := some ("Agent '" ++ agentName ++ "' not found.") }
  match permitted with
  | .error message => return { task with status := "failed", error := some message }
  | .ok _ => executeTask task hooks

def publishRecord : Plugins.Record → Program φ Unit
  | .published event name details => publish event (.dict (fields
      (("plugin_name", text name) :: details.map fun detail => (detail.1, text detail.2))))
  | .registered _ | .called .. => pure ()

-- The registry has changed and published some events.
def adoptPlugins (plugins : Plugins.Registry) (records : List Plugins.Record) : Program φ Unit := do
  modify fun c => { c with plugins := plugins }
  records.forM publishRecord

-- An operation of the registry with the events that it publishes, the oldest first.
def operatePlugins (hooks : Plugins.Hooks) (act : Plugins.Action) : Program φ Unit := do
  let before := (← get).plugins
  let after := finalState (act.operation hooks) before
  adoptPlugins after (after.history.take (after.history.length - before.history.length)).reverse

-- collect_all, with how a plugin is described
def collectAll (describe : Plugins.YasinPlugin → String) : Program φ Unit := modify fun c =>
  match c.pluginRegistry? with
  | some plugins =>
      { c with
        service := finalState (ObservabilityService.collectPlugins (plugins.status describe)) c.service }
  | none => c

end Program

-- The calls on the runtime of the agents, the executor, the plugin registry and the service.
inductive Action
  | registerAgent (agent : Agents.BaseAgent) (permitted : Except String Unit)
  | removeAgent (name : Agents.AgentName)
  | startAgents (hooks : Program.Hooks)
  | stopAgents (hooks : Program.Hooks)
  | executeTask (task : Agents.Task) (hooks : Agents.AgentHooks)
  | executeAgentTask (task : Agents.Task) (permitted : Except String Unit) (hooks : Agents.AgentHooks)
  | plugins (hooks : Plugins.Hooks) (act : Plugins.Action)
  | collectAll (describe : Plugins.YasinPlugin → String)

def perform (c : Client φ) : Action → Client φ
  | .registerAgent agent permitted => finalState (Program.registerAgent agent permitted) c
  | .removeAgent name => finalState (Program.removeAgent name) c
  | .startAgents hooks => finalState (Program.startAgents hooks) c
  | .stopAgents hooks => finalState (Program.stopAgents hooks) c
  | .executeTask task hooks => finalState (Program.executeTask task hooks) c
  | .executeAgentTask task permitted hooks =>
      finalState (Program.executeAgentTask task permitted hooks) c
  | .plugins hooks act => finalState (Program.operatePlugins hooks act) c
  | .collectAll describe => finalState (Program.collectAll describe) c

def performAll (acts : List Action) : Client φ := acts.foldl perform init

end Client

end YasinCore.Observability
