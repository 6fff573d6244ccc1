import YasinCore.Security.Grants

namespace YasinCore.Security

open YasinCore.Library

-- The calls that decide about an access.
inductive AccessCall
  | service (subject : Subject) (serviceName action : String)
  | plugin (subject : Subject) (pluginName action : String)
  | agentCapability (agentName capability : String)
  | agentTool (agent : Agent) (toolName : String)
  | api (apiKey endpoint method : String)
  | runtime (subject : Subject) (action resource : String)

namespace AccessCall

variable (upper : String → String)

def operation (now : String) : AccessCall → Operation Bool
  | .service subject serviceName action =>
      SecurityManager.validateServiceAccess subject serviceName action now
  | .plugin subject pluginName action =>
      SecurityManager.validatePluginAccess subject pluginName action now
  | .agentCapability agentName capability =>
      SecurityManager.validateAgentCapability agentName capability now
  | .agentTool agent toolName => SecurityManager.validateAgentTool agent toolName now
  | .api apiKey endpoint method =>
      SecurityManager.validateApiAccess upper apiKey endpoint method now
  | .runtime subject action resource =>
      SecurityManager.validateRuntimeCheck subject action resource now

-- The permission that the call names.
def permission : AccessCall → String
  | .service _ serviceName action => "service:" ++ serviceName ++ ":" ++ action
  | .plugin _ pluginName action => "plugin:" ++ pluginName ++ ":" ++ action
  | .agentCapability _ capability => "capability:" ++ capability
  | .agentTool _ toolName => "tool:" ++ toolName ++ ":use"
  | .api _ endpoint method => "api:" ++ endpoint ++ ":" ++ upper method
  | .runtime _ action resource => action ++ ":" ++ resource

-- Who asks, as far as the manager can tell.
def subject? (s : SecurityManager) : AccessCall → Option Subject
  | .service subject _ _ | .plugin subject _ _ | .runtime subject _ _ => some subject
  | .agentCapability agentName _ =>
      some ((s.subjects.get? agentName).getD (.ofAgent agentName []))
  | .agentTool agent _ =>
      some ((s.subjects.get? agent.label).getD
        (.ofAgent agent.label (agent.tools.map fun tool => "tool:" ++ tool.label ++ ":use")))
  | .api apiKey _ _ => s.apiSubject apiKey

-- The policies grant the permission to who asks.
def Granted (s : SecurityManager) (call : AccessCall) : Prop :=
  ∃ subject, call.subject? s = some subject ∧
    s.policyEngine.evaluateAll subject (call.permission upper) s.roles

end AccessCall

-- The history goes on with one entry, and its oldest one goes exactly when the bound is reached.
structure AuditLogger.Records (before after : AuditLogger) (entry : AuditEntry) : Prop where
  bound : after.maxHistorySize = before.maxHistorySize
  within : before.history.length < before.maxHistorySize → after.history = before.history ++ [entry]
  exceeded : before.maxHistorySize ≤ before.history.length →
    after.history = before.history.tail ++ [entry]

-- The call ends with the decision and the one entry about it, and nothing else is different.
inductive Audited (before : SecurityManager) (granted : Prop) : EStateM.Result SecurityError
    SecurityManager Bool → Prop
  | grant {audit : AuditLogger} {entry : AuditEntry} : granted → entry.result = "GRANTED" →
      before.audit.Records audit entry → Audited before granted (.ok true { before with audit := audit })
  | deny {audit : AuditLogger} {entry : AuditEntry} {e : SecurityError} : ¬granted →
      entry.result = "DENIED" → before.audit.Records audit entry →
      Audited before granted (.error e { before with audit := audit })

section Entries

variable {s : SecurityManager}

theorem logEvent_records {audit : AuditLogger} (h : 1 ≤ audit.maxHistorySize) (entry : AuditEntry) :
    audit.Records (audit.logEvent entry) entry := by
  have hlength : (audit.history ++ [entry]).length = audit.history.length + 1 :=
    List.length_append
  refine ⟨rfl, fun hw => ?_, fun he => ?_⟩
  · have hfits : ¬(audit.history ++ [entry]).length > audit.maxHistorySize := by omega
    exact if_neg hfits
  · have hfull : (audit.history ++ [entry]).length > audit.maxHistorySize := by omega
    have hne : audit.history ≠ [] := by
      apply List.ne_nil_of_length_pos
      omega
    have hlogged : (audit.logEvent entry).history = (audit.history ++ [entry]).tail := if_pos hfull
    rw [hlogged, List.tail_append_of_ne_nil hne]

-- One decision, and one entry that tells it.
theorem validate_audited (h : 1 ≤ s.audit.maxHistorySize) (subject : Subject) (permission : String)
    (entry : AuditEntry) (denied : String) :
    Audited s (s.policyEngine.evaluateAll subject permission s.roles)
      (SecurityManager.validate subject permission entry denied s) := by
  simp only [SecurityManager.validate, SecurityManager.logEvent, run_get_bind, run_modify_bind]
  cases hg : s.policyEngine.evaluateAll subject permission s.roles with
  | true => exact .grant rfl rfl (logEvent_records h _)
  | false => exact .deny Bool.false_ne_true rfl (logEvent_records h _)

-- A key that is not registered is refused, and the refusal is logged, before any policy is asked.
theorem unregistered_audited (h : 1 ≤ s.audit.maxHistorySize) {upper : String → String}
    {apiKey : String} (hs : s.apiSubject apiKey = none) (endpoint method now : String) :
    Audited s False (SecurityManager.validateApiAccess upper apiKey endpoint method now s) := by
  simp only [SecurityManager.validateApiAccess, SecurityManager.logEvent, run_get_bind, hs,
    run_modify_bind]
  exact .deny id rfl (logEvent_records h _)

theorem granted_iff {upper : String → String} {call : AccessCall} {subject : Subject}
    (h : call.subject? s = some subject) : call.Granted upper s ↔
      s.policyEngine.evaluateAll subject (call.permission upper) s.roles := by
  simp only [AccessCall.Granted, h, Option.some.injEq, exists_eq_left']

end Entries

-- Whatever is asked, by whom and in which state: the call grants exactly what the policies grant for
-- the permission that it names, and leaves exactly one entry, which tells the decision.
theorem every_decision_audited (upper : String → String) (now : String) (call : AccessCall)
    (s : SecurityManager) (h : 1 ≤ s.audit.maxHistorySize) :
    Audited s (call.Granted upper s) (call.operation upper now s) := by
  cases call with
  | service subject serviceName action =>
      rw [granted_iff rfl]
      exact validate_audited h ..
  | plugin subject pluginName action =>
      rw [granted_iff rfl]
      exact validate_audited h ..
  | agentCapability agentName capability =>
      rw [granted_iff rfl]
      exact validate_audited h ..
  | agentTool agent toolName =>
      rw [granted_iff rfl]
      exact validate_audited h ..
  | runtime subject action resource =>
      rw [granted_iff rfl]
      exact validate_audited h ..
  | api apiKey endpoint method =>
      cases hs : s.apiSubject apiKey with
      | none =>
          have hdenied : ¬(AccessCall.api apiKey endpoint method).Granted upper s := by
            rintro ⟨subject, hsubject, -⟩
            exact Option.some_ne_none subject (hsubject.symm.trans hs)
          rw [iff_false_intro hdenied]
          exact unregistered_audited h hs endpoint method now
      | some subject =>
          have hsubject : (AccessCall.api apiKey endpoint method).subject? s = some subject := hs
          have hrun : (AccessCall.api apiKey endpoint method).operation upper now s = _ :=
            validateApiAccess_known hs
          rw [granted_iff hsubject, hrun]
          exact validate_audited h ..

theorem runtime_check_audited : 1 ≤ (200 : Nat) ∧
    Audited ⟨.init, ⟨[], 200⟩, .empty, .empty⟩
      ((AccessCall.runtime .anonymous "jobs" "run").Granted id ⟨.init, ⟨[], 200⟩, .empty, .empty⟩)
      ((AccessCall.runtime .anonymous "jobs" "run").operation id "now"
        ⟨.init, ⟨[], 200⟩, .empty, .empty⟩) :=
  ⟨by decide, every_decision_audited id "now" (.runtime .anonymous "jobs" "run") _ (by decide)⟩

end YasinCore.Security
