import YasinCore.Execution.Worker
import YasinCore.Security.Manager

namespace YasinCore.Agents

open YasinCore.Library YasinCore.Execution YasinCore.Security

abbrev AgentName := String

structure BaseAgent where
  name : AgentName
  permissions : List String
  running : Bool
  deriving DecidableEq

structure Task where
  id : String
  name : String
  agentName : Option AgentName
  status : String
  result : Option String
  error : Option String
  deriving DecidableEq

-- What an agent's own methods do during one call: start raises, or it leaves the running flag at a
-- value; execute raises or returns.
structure AgentHooks where
  start : Except String Bool
  execute : Except String String

-- A call of agent.execute, and the security_subject of the context in which it is made.
structure AgentCall where
  agent : BaseAgent
  subject : Option Subject

-- One client: its engine, its security manager, the registered agents, and for each context that
-- the context engine knows the security_subject it yields. The newest call comes last.
structure AgentClient where
  state : State
  security : SecurityManager
  agents : Dict AgentName BaseAgent
  contexts : Dict String (Option Subject)
  calls : List AgentCall

namespace AgentClient

def start (heap : JobRef → Job) (security : SecurityManager) (agents : Dict AgentName BaseAgent)
    (contexts : Dict String (Option Subject)) : AgentClient :=
  ⟨.start heap, security, agents, contexts, []⟩

def getAgent (c : AgentClient) (name : AgentName) : Option BaseAgent := c.agents.get? name

-- The action and the resource of a permission, which is split at its first colon.
def permissionParts (permission : String) : String × String :=
  match permission.splitOn ":" with
  | action :: resource :: rest => (action, ":".intercalate (resource :: rest))
  | _ => ("execute", permission)

-- _validate_permission, for the security_subject of the active context
def validatePermission (subject : Option Subject) (now permission : String) : Operation PUnit :=
  match subject with
  | none => pure ⟨⟩
  | some subject => do
      let _ ← SecurityManager.validateRuntimeCheck subject (permissionParts permission).1
        (permissionParts permission).2 now

def checkPermissions (subject : Option Subject) (now : String) (permissions : List String) :
    Operation PUnit :=
  permissions.forM (validatePermission subject now)

-- An agent that is not running is started; then its execute is called.
def callAgent (c : AgentClient) (name : AgentName) (agent : BaseAgent) (subject : Option Subject)
    (hooks : AgentHooks) : AgentClient × Except String String :=
  match if agent.running then .ok true else hooks.start with
  | .error error => (c, .error error)
  | .ok running =>
      let agent := { agent with running := running }
      ({ c with agents := c.agents.set name agent, calls := c.calls ++ [⟨agent, subject⟩] },
        hooks.execute)

def SecurityError.text : SecurityError → String
  | .accessDenied message | .authentication message => message

-- TaskExecutor.execute_task, with the plan of the SimplePlanner
def executeTask (c : AgentClient) (task : Task) (subject : Option Subject) (hooks : AgentHooks) :
    AgentClient × Task :=
  let agentName := task.agentName.getD task.name
  let failed (error : String) : Task := { task with status := "failed", error := some error }
  if agentName = "" then (c, failed "Planner could not determine target agent name.")
  else
    match c.getAgent agentName with
    | none => (c, failed ("Agent '" ++ agentName ++ "' not found."))
    | some agent =>
        match c.callAgent agentName agent subject hooks with
        | (c, .ok result) => (c, { task with status := "completed", result := some result })
        | (c, .error error) => (c, failed error)

def executeAgentTask (c : AgentClient) (task : Task) (subject : Option Subject) (hooks : AgentHooks)
    (now : String) : AgentClient × Task :=
  let agentName := task.agentName.getD task.name
  match c.getAgent agentName with
  | none =>
      (c, { task with status := "failed", error := some ("Agent '" ++ agentName ++ "' not found.") })
  | some agent =>
      match checkPermissions subject now agent.permissions c.security with
      | .error error security =>
          ({ c with security := security },
            { task with status := "failed", error := some (SecurityError.text error) })
      | .ok _ security => executeTask { c with security := security } task subject hooks

-- The security_subject of the context that a JobWorker activates for a job.
def contextSubject (c : AgentClient) (job : Job) : Option Subject :=
  (Job.given job.contextId).bind fun id => (c.contexts.get? id).getD none

-- _execute_target; a target that is not an agent ends as the callable or the plugin does.
def executeTarget (c : AgentClient) (job : Job) (hooks : AgentHooks) (other : Except String String) :
    AgentClient × Except String String :=
  match job.target with
  | .callable _ => (c, other)
  | .str name =>
      match c.getAgent name with
      | some agent => c.callAgent name agent (c.contextSubject job) hooks
      | none => (c, other)

-- A thread of the engine calls the target of the job it runs, and takes down how the call ends.
def runTarget (c : AgentClient) (thread : ThreadId) (ref : JobRef) (hooks : AgentHooks)
    (other : Except String String) (now : Time) : Option AgentClient :=
  if c.state.hands thread = .running ref then
    match c.executeTarget (c.state.heap ref) hooks other with
    | (c, .ok result) =>
        (c.state.succeedJob thread ref result now).map fun t => { c with state := t }
    | (c, .error error) => (c.state.failJob thread ref error).map fun t => { c with state := t }
  else none

end AgentClient

-- The steps of the engine's model that are not the end of a target's call.
def withinEngine : Action → Bool
  | .succeedJob _ _ _ _ | .failJob _ _ _ => false
  | _ => true

inductive AgentAction
  | engine (act : Action)
  | runTarget (thread : ThreadId) (ref : JobRef) (hooks : AgentHooks) (other : Except String String)
      (now : Time)
  | executeAgentTask (task : Task) (subject : Option Subject) (hooks : AgentHooks) (now : String)

def AgentClient.step (c : AgentClient) : AgentAction → Option AgentClient
  | .engine act =>
      if withinEngine act then (Execution.step c.state act).map fun t => { c with state := t } else none
  | .runTarget thread ref hooks other now => c.runTarget thread ref hooks other now
  | .executeAgentTask task subject hooks now => some (c.executeAgentTask task subject hooks now).1

end YasinCore.Agents
