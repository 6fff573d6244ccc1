import YasinCore.Library.Dict
import YasinCore.Library.Glob
import YasinCore.Library.RecentLog
import YasinCore.Library.Text
import Mathlib.Data.Finset.Insert

namespace YasinCore.Security

open YasinCore.Library

structure Permission where
  name : String
  deriving DecidableEq

namespace Permission

def init (name : String) : Permission := ⟨Text.strip name⟩

-- The pattern is tried in both directions.
def «matches» (permission : Permission) (required : String) : Bool :=
  let reqClean := Text.strip required
  Glob.fnmatchcase reqClean permission.name || Glob.fnmatchcase permission.name reqClean

end Permission

structure Role where
  name : String
  permissions : List Permission
  deriving DecidableEq

def Role.hasPermission (role : Role) (required : String) : Bool :=
  role.permissions.any fun permission => permission.matches required

structure Subject where
  id : String
  subjectType : String
  roles : Finset String
  roleObjects : Dict String Role
  directPermissions : List Permission
  deriving DecidableEq

def Subject.anonymous : Subject := ⟨"anonymous", "api", ∅, .empty, []⟩

-- The subject that stands for an agent which is not registered.
def Subject.ofAgent (agentName : String) (permissions : List String) : Subject :=
  ⟨Text.strip agentName, "agent", ∅, .empty, permissions.map .init⟩

-- An object by the attribute name that it may have, and by what str makes of it.
structure Named where
  name : Option String
  text : String

def Named.label (object : Named) : String := object.name.getD object.text

-- What validate_agent_tool reads of an agent.
structure Agent extends Named where
  tools : List Named

abbrev Policy := Subject → String → Dict String Role → Bool

namespace DefaultRBACPolicy

-- The role object embedded in the subject, or else the registered one.
def roleObject (subject : Subject) (registry : Dict String Role) (name : String) : Option Role :=
  (subject.roleObjects.get? name).or (registry.get? name)

def roleGrants (subject : Subject) (registry : Dict String Role) (required name : String) : Bool :=
  match roleObject subject registry name with
  | some role => role.hasPermission required
  | none => false

def evaluate : Policy := fun subject required registry =>
  subject.directPermissions.any (fun permission => permission.matches required) ||
    decide (∃ name ∈ subject.roles, roleGrants subject registry required name)

end DefaultRBACPolicy

structure PolicyEngine where
  policies : List Policy

def PolicyEngine.init : PolicyEngine := ⟨[DefaultRBACPolicy.evaluate]⟩

def PolicyEngine.evaluateAll (engine : PolicyEngine) (subject : Subject) (required : String)
    (registry : Dict String Role) : Bool :=
  engine.policies.any fun policy => policy subject required registry

structure AuditEntry where
  timestamp : String
  action : String
  subjectId : String
  subjectType : String
  resource : String
  result : String
  details : String
  deriving DecidableEq

structure AuditLogger where
  history : List AuditEntry
  maxHistorySize : Nat
  deriving DecidableEq

def AuditLogger.logEvent (logger : AuditLogger) (entry : AuditEntry) : AuditLogger :=
  let history := logger.history ++ [entry]
  { logger with history := if history.length > logger.maxHistorySize then history.tail else history }

def AuditEntry.concerns (subjectId result : Option String) (entry : AuditEntry) : Bool :=
  RecentLog.wanted subjectId (fun subjectId entry => entry.subjectId = subjectId) entry &&
    RecentLog.wanted result (fun result entry => entry.result = result) entry

-- Empty texts are no filters.
def AuditLogger.getHistory (limit : Option Int) (subjectId result : Option String)
    (logger : AuditLogger) : List AuditEntry :=
  RecentLog.recent limit
    (logger.history.filter (AuditEntry.concerns (subjectId.filter (· ≠ "")) (result.filter (· ≠ ""))))

structure SecurityManager where
  policyEngine : PolicyEngine
  audit : AuditLogger
  roles : Dict String Role
  subjects : Dict String Subject

inductive SecurityError
  | accessDenied (message : String)
  | authentication (message : String)
  deriving DecidableEq

abbrev Operation := EStateM SecurityError SecurityManager

namespace SecurityManager

def logEvent (entry : AuditEntry) : Operation Unit :=
  modify fun s => { s with audit := s.audit.logEvent entry }

-- What the validate functions have in common: the decision, its audit entry, and the refusal.
def validate (subject : Subject) (permission : String) (entry : AuditEntry) (denied : String) :
    Operation Bool := do
  let s ← get
  let granted := s.policyEngine.evaluateAll subject permission s.roles
  logEvent { entry with result := if granted then "GRANTED" else "DENIED" }
  if granted then
    return true
  throw (.accessDenied denied)

def lacks (subject : Subject) (permission : String) : String :=
  "Access Denied: Subject '" ++ subject.id ++ "' lacks permission '" ++ permission ++ "'"

def validateServiceAccess (subject : Subject) (serviceName action now : String) : Operation Bool :=
  let permission := "service:" ++ serviceName ++ ":" ++ action
  validate subject permission
    { timestamp := now, action := "service_access:" ++ action, subjectId := subject.id,
      subjectType := subject.subjectType, resource := "service:" ++ serviceName, result := "",
      details := "Evaluated permission: " ++ permission }
    (lacks subject permission)

def validatePluginAccess (subject : Subject) (pluginName action now : String) : Operation Bool :=
  let permission := "plugin:" ++ pluginName ++ ":" ++ action
  validate subject permission
    { timestamp := now, action := "plugin_access:" ++ action, subjectId := subject.id,
      subjectType := subject.subjectType, resource := "plugin:" ++ pluginName, result := "",
      details := "Evaluated permission: " ++ permission }
    (lacks subject permission)

def validateRuntimeCheck (subject : Subject) (action resource now : String) : Operation Bool :=
  let permission := action ++ ":" ++ resource
  validate subject permission
    { timestamp := now, action := "runtime_check", subjectId := subject.id,
      subjectType := subject.subjectType, resource := action ++ ":" ++ resource, result := "",
      details := "Evaluated permission: " ++ permission }
    (lacks subject permission)

def validateAgentCapability (agentName capability now : String) : Operation Bool := do
  let subject := ((← get).subjects.get? agentName).getD (.ofAgent agentName [])
  let permission := "capability:" ++ capability
  validate subject permission
    { timestamp := now, action := "agent_capability", subjectId := subject.id, subjectType := "agent",
      resource := "capability:" ++ capability, result := "",
      details := "Checked agent capability: " ++ capability }
    ("Access Denied: Agent '" ++ agentName ++ "' lacks capability '" ++ capability ++ "'")

def toolPermission (toolName : String) : String := "tool:" ++ toolName ++ ":use"

-- An agent that is not registered may use the tools it has.
def validateAgentTool (agent : Agent) (toolName now : String) : Operation Bool := do
  let directPerms := agent.tools.map fun tool => toolPermission tool.label
  let subject := ((← get).subjects.get? agent.label).getD (.ofAgent agent.label directPerms)
  let permission := toolPermission toolName
  validate subject permission
    { timestamp := now, action := "agent_tool", subjectId := subject.id, subjectType := "agent",
      resource := "tool:" ++ toolName, result := "",
      details := "Evaluated permission: " ++ permission }
    ("Access Denied: Agent '" ++ agent.label ++ "' is not authorized to execute tool '" ++ toolName ++
      "'")

def apiSubjectId (apiKey : String) : String :=
  if apiKey = "" then "anonymous" else "api_key:" ++ (apiKey.take 8).toString

-- The subject an API key stands for; a key that is given but unknown has none.
def apiSubject (s : SecurityManager) (apiKey : String) : Option Subject :=
  (s.subjects.get? (apiSubjectId apiKey)).or (if apiKey = "" then some .anonymous else none)

-- The upper-casing of the method is str.upper.
def validateApiAccess (upper : String → String) (apiKey endpoint method now : String) :
    Operation Bool := do
  match (← get).apiSubject apiKey with
  | none =>
      logEvent
        { timestamp := now, action := "api_access", subjectId := "unregistered", subjectType := "api",
          resource := "api:" ++ endpoint ++ ":" ++ method, result := "DENIED",
          details := "Invalid or unregistered API key" }
      throw (.authentication "Authentication Failed: Invalid API Key")
  | some subject =>
      let permission := "api:" ++ endpoint ++ ":" ++ upper method
      validate subject permission
        { timestamp := now, action := "api_access", subjectId := subject.id, subjectType := "api",
          resource := "api:" ++ endpoint ++ ":" ++ method, result := "",
          details := "Evaluated permission: " ++ permission }
        ("Access Denied: API Key '" ++ apiSubjectId apiKey ++ "' lacks permission for " ++ method ++
          " on " ++ endpoint)

end SecurityManager

end YasinCore.Security
