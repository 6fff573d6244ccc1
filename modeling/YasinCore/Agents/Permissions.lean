import YasinCore.Agents.Runtime
import YasinCore.Library.Hoare
import YasinCore.Library.Transition
import YasinCore.Security.Grants

namespace YasinCore.Agents

open YasinCore.Library YasinCore.Execution YasinCore.Security

-- The permission that the security manager is asked for.
def required (permission : String) : String :=
  (AgentClient.permissionParts permission).1 ++ ":" ++ (AgentClient.permissionParts permission).2

def Granted (security : SecurityManager) (subject : Subject) (permission : String) : Prop :=
  security.policyEngine.evaluateAll subject (required permission) security.roles = true

-- Policies and roles: all that a decision depends on besides the subject.
def SameRules (s t : SecurityManager) : Prop := t.policyEngine = s.policyEngine ∧ t.roles = s.roles

theorem Granted.congr {s t : SecurityManager} (h : SameRules s t) {subject : Subject}
    {permission : String} : Granted t subject permission ↔ Granted s subject permission := by
  rw [Granted, Granted, h.1, h.2]

-- The subject of the active context, if there is one, has all of the agent's permissions.
def Cleared (security : SecurityManager) (subject : Option Subject) (agent : BaseAgent) : Prop :=
  ∀ known, subject = some known → ∀ permission ∈ agent.permissions, Granted security known permission

-- No agent has been called for a subject that lacks one of its permissions.
def Guarded (c : AgentClient) : Prop := ∀ call ∈ c.calls, Cleared c.security call.subject call.agent

-- The start of the agent, if it is needed, does not raise.
def Starts (agent : BaseAgent) (hooks : AgentHooks) : Prop :=
  agent.running = true ∨ ∃ running, hooks.start = .ok running

-- A job whose target is an agent reaches the agent only for a subject that has its permissions.
def Checked (c : AgentClient) : AgentAction → Prop
  | .runTarget thread ref hooks _ _ => c.state.hands thread = .running ref →
      ∀ name agent, (c.state.heap ref).target = .str name → c.getAgent name = some agent →
        Starts agent hooks → Cleared c.security (c.contextSubject (c.state.heap ref)) agent
  | _ => True

section Security

variable (rules : SecurityManager)

-- A validation that returns has found the permission granted; it changes the audit log only.
theorem validate_spec (subject : Subject) (permission : String) (entry : AuditEntry) (denied : String) :
    Triple (SameRules rules) (SecurityManager.validate subject permission entry denied)
      (fun _ s => SameRules rules s ∧
        rules.policyEngine.evaluateAll subject permission rules.roles = true)
      fun _ s => SameRules rules s := by
  intro s hs
  obtain ⟨hengine, hroles⟩ := hs
  simp only [SecurityManager.validate, SecurityManager.logEvent, run_get_bind, run_modify_bind]
  rw [hengine, hroles]
  by_cases hg : rules.policyEngine.evaluateAll subject permission rules.roles = true
  · rw [hg]
    exact ⟨⟨rfl, rfl⟩, rfl⟩
  · rw [Bool.eq_false_iff.mpr hg]
    exact ⟨rfl, rfl⟩

theorem validatePermission_spec (subject : Option Subject) (now permission : String) :
    Triple (SameRules rules) (AgentClient.validatePermission subject now permission)
      (fun _ s => SameRules rules s ∧ ∀ known, subject = some known → Granted rules known permission)
      fun _ s => SameRules rules s := by
  cases subject with
  | none => exact Triple.pure fun s hs => ⟨hs, fun known hk => nomatch hk⟩
  | some subject =>
      have hcheck : Triple (SameRules rules)
          (SecurityManager.validateRuntimeCheck subject (AgentClient.permissionParts permission).1
            (AgentClient.permissionParts permission).2 now)
          (fun _ s => SameRules rules s ∧ Granted rules subject permission) fun _ s => SameRules rules s :=
        validate_spec rules subject (required permission) _ _
      refine Triple.bind hcheck fun _ => Triple.pure fun s hs => ⟨hs.1, fun known hk => ?_⟩
      obtain rfl := Option.some.inj hk
      exact hs.2

-- The loop over the permissions ends only when the subject has all of them.
theorem checkPermissions_spec (subject : Option Subject) (now : String) (permissions : List String) :
    Triple (SameRules rules) (AgentClient.checkPermissions subject now permissions)
      (fun _ s => SameRules rules s ∧ ∀ known, subject = some known →
        ∀ permission ∈ permissions, Granted rules known permission)
      fun _ s => SameRules rules s := by
  suffices hloop : Triple (fun s => SameRules rules s ∧ ∀ known, subject = some known →
      ∀ permission ∈ ([] : List String), Granted rules known permission)
      (AgentClient.checkPermissions subject now permissions)
      (fun _ s => SameRules rules s ∧ ∀ known, subject = some known →
        ∀ permission ∈ permissions, Granted rules known permission) fun _ s => SameRules rules s by
    exact hloop.pre_imp fun s hs => ⟨hs, fun _ _ permission hm => nomatch hm⟩
  refine Triple.forM (fun done s => SameRules rules s ∧ ∀ known, subject = some known →
    ∀ permission ∈ done, Granted rules known permission) fun done permission rest _ => ?_
  · intro s hs
    have hr := validatePermission_spec rules subject now permission s hs.1
    revert hr
    cases AgentClient.validatePermission subject now permission s with
    | error e t => exact id
    | ok value t =>
        rintro ⟨hrules, hgranted⟩
        refine ⟨hrules, fun known hk other hm => ?_⟩
        rcases List.mem_append.mp hm with hm | hm
        · exact hs.2 known hk other hm
        · rw [List.mem_singleton.mp hm]
          exact hgranted known hk

end Security

section Calls

variable {c d : AgentClient}

theorem Cleared.congr {s t : SecurityManager} (h : SameRules s t) {subject : Option Subject}
    {agent : BaseAgent} : Cleared t subject agent ↔ Cleared s subject agent := by
  simp only [Cleared, Granted.congr h]

-- Calling an agent adds one call, if the agent starts, and leaves all the rest alone.
theorem callAgent_spec (c : AgentClient) (name : AgentName) (agent : BaseAgent)
    (subject : Option Subject) (hooks : AgentHooks) :
    (c.callAgent name agent subject hooks).1.security = c.security ∧
      (c.callAgent name agent subject hooks).1.state = c.state ∧
      (c.callAgent name agent subject hooks).1.contexts = c.contexts ∧
      ((¬Starts agent hooks ∧ (c.callAgent name agent subject hooks).1.calls = c.calls) ∨
        Starts agent hooks ∧ ∃ running, (c.callAgent name agent subject hooks).1.calls =
          c.calls ++ [⟨{ agent with running := running }, subject⟩]) := by
  unfold AgentClient.callAgent
  by_cases hr : agent.running = true
  · rw [if_pos hr]
    exact ⟨rfl, rfl, rfl, .inr ⟨.inl hr, true, rfl⟩⟩
  · rw [if_neg hr]
    cases hs : hooks.start with
    | error error =>
        refine ⟨rfl, rfl, rfl, .inl ⟨?_, rfl⟩⟩
        rintro (hc | ⟨running, hc⟩)
        · exact hr hc
        · rw [hs] at hc
          cases hc
    | ok running => exact ⟨rfl, rfl, rfl, .inr ⟨.inr ⟨running, hs⟩, running, rfl⟩⟩

-- One more call keeps the law exactly when its subject is cleared for the agent.
theorem guarded_snoc_iff (h : Guarded c) (hrules : SameRules c.security d.security)
    {agent : BaseAgent} {subject : Option Subject} {running : Bool}
    (hcalls : d.calls = c.calls ++ [⟨{ agent with running := running }, subject⟩]) :
    Guarded d ↔ Cleared c.security subject agent := by
  unfold Guarded
  simp only [hcalls, List.mem_append, List.mem_singleton, Cleared.congr hrules]
  constructor
  · intro hd
    exact hd _ (.inr rfl)
  · rintro hcleared call (hm | rfl)
    · exact h call hm
    · exact hcleared

theorem Guarded.same (h : Guarded c) (hrules : SameRules c.security d.security)
    (hcalls : d.calls = c.calls) : Guarded d := by
  intro call hm
  rw [hcalls] at hm
  exact (Cleared.congr hrules).mpr (h call hm)

theorem guarded_callAgent_iff (h : Guarded c) (name : AgentName) (agent : BaseAgent)
    (subject : Option Subject) (hooks : AgentHooks) :
    Guarded (c.callAgent name agent subject hooks).1 ↔
      (Starts agent hooks → Cleared c.security subject agent) := by
  obtain ⟨hsecurity, -, -, ⟨hnot, hcalls⟩ | ⟨hstarts, running, hcalls⟩⟩ :=
    callAgent_spec c name agent subject hooks
  · have hrules : SameRules c.security (c.callAgent name agent subject hooks).1.security := by
      rw [hsecurity]
      exact ⟨rfl, rfl⟩
    exact iff_of_true (h.same hrules hcalls) fun hc => absurd hc hnot
  · have hrules : SameRules c.security (c.callAgent name agent subject hooks).1.security := by
      rw [hsecurity]
      exact ⟨rfl, rfl⟩
    rw [guarded_snoc_iff h hrules hcalls]
    exact ⟨fun hc _ => hc, fun hc => hc hstarts⟩

theorem Guarded.executeTask (h : Guarded c) (task : Task) (subject : Option Subject)
    (hooks : AgentHooks)
    (hcleared : ∀ agent, c.getAgent (task.agentName.getD task.name) = some agent →
      Cleared c.security subject agent) : Guarded (c.executeTask task subject hooks).1 := by
  unfold AgentClient.executeTask
  dsimp only
  split
  · exact h
  · split
    · exact h
    · rename_i agent hagent
      have hcall := (guarded_callAgent_iff h (task.agentName.getD task.name) agent subject hooks).mpr
        fun _ => hcleared agent hagent
      split
      · rename_i d result he
        rw [he] at hcall
        exact hcall
      · rename_i d error he
        rw [he] at hcall
        exact hcall

-- The runtime's own path checks before it calls.
theorem Guarded.executeAgentTask (h : Guarded c) (task : Task) (subject : Option Subject)
    (hooks : AgentHooks) (now : String) : Guarded (c.executeAgentTask task subject hooks now).1 := by
  unfold AgentClient.executeAgentTask
  dsimp only
  split
  · exact h
  · rename_i agent hagent
    have hchecked := checkPermissions_spec c.security subject now agent.permissions
      c.security ⟨rfl, rfl⟩
    split
    · rename_i error security he
      rw [he] at hchecked
      exact h.same (d := { c with security := security }) hchecked rfl
    · rename_i value security he
      rw [he] at hchecked
      have hc : Guarded { c with security := security } := h.same hchecked.1 rfl
      refine hc.executeTask task subject hooks fun other hother => ?_
      obtain rfl := Option.some.inj (hagent.symm.trans hother)
      exact (Cleared.congr hchecked.1).mpr hchecked.2

theorem runTarget_eq {thread : ThreadId} {ref : JobRef} {hooks : AgentHooks}
    {other : Except String String} {now : Time} (h : c.runTarget thread ref hooks other now = some d) :
    c.state.hands thread = .running ref ∧
      d.calls = (c.executeTarget (c.state.heap ref) hooks other).1.calls ∧
      d.security = (c.executeTarget (c.state.heap ref) hooks other).1.security := by
  unfold AgentClient.runTarget at h
  split at h
  · rename_i hi
    split at h
    · rename_i after result he
      obtain ⟨t, _, rfl⟩ := Option.map_eq_some_iff.mp h
      exact ⟨hi, by rw [he], by rw [he]⟩
    · rename_i after error he
      obtain ⟨t, _, rfl⟩ := Option.map_eq_some_iff.mp h
      exact ⟨hi, by rw [he], by rw [he]⟩
  · cases h

theorem guarded_executeTarget_iff (h : Guarded c) (job : Job) (hooks : AgentHooks)
    (other : Except String String) : Guarded (c.executeTarget job hooks other).1 ↔
      ∀ name agent, job.target = .str name → c.getAgent name = some agent → Starts agent hooks →
        Cleared c.security (c.contextSubject job) agent := by
  unfold AgentClient.executeTarget
  cases ht : job.target with
  | callable _ => exact iff_of_true h fun _ _ hc => nomatch hc
  | str name =>
      dsimp only
      cases ha : c.getAgent name with
      | none =>
          refine iff_of_true h fun name' agent hn hagent => ?_
          obtain rfl := Target.str.inj hn
          rw [ha] at hagent
          cases hagent
      | some agent =>
          rw [guarded_callAgent_iff h]
          constructor
          · intro hc name' agent' hn hagent hstarts
            obtain rfl := Target.str.inj hn
            obtain rfl := Option.some.inj (ha.symm.trans hagent)
            exact hc hstarts
          · exact fun hc => hc name agent rfl ha

-- One step keeps the law exactly when it is one of the checked steps.
theorem guarded_step_iff {act : AgentAction} (h : Guarded c) (hs : c.step act = some d) :
    Guarded d ↔ Checked c act := by
  cases act with
  | engine act =>
      simp only [AgentClient.step] at hs
      split at hs
      · obtain ⟨t, _, rfl⟩ := Option.map_eq_some_iff.mp hs
        exact iff_of_true h trivial
      · cases hs
  | runTarget thread ref hooks other now =>
      obtain ⟨hi, hcalls, hsecurity⟩ := runTarget_eq hs
      have hsame : Guarded d ↔ Guarded (c.executeTarget (c.state.heap ref) hooks other).1 := by
        simp only [Guarded, hcalls, hsecurity]
      rw [hsame, guarded_executeTarget_iff h]
      exact ⟨fun hc _ => hc, fun hc => hc hi⟩
  | executeAgentTask task subject hooks now =>
      obtain rfl := Option.some.inj hs
      exact iff_of_true (h.executeAgentTask task subject hooks now) trivial

end Calls

-- Over whole runs of both paths: no agent is ever called for a subject that lacks one of its
-- permissions exactly when every background run of an agent is checked by somebody else.
theorem agent_permissions_guard_iff (heap : JobRef → Job) (security : SecurityManager)
    (agents : Dict AgentName BaseAgent) (contexts : Dict String (Option Subject))
    (acts : List AgentAction) :
    Always AgentClient.step Guarded (.start heap security agents contexts) acts ↔
      Meets AgentClient.step Checked (.start heap security agents contexts) acts := by
  have hstart : Guarded (.start heap security agents contexts) := by
    intro call hm
    cases hm
  have hkept (c : AgentClient) (act : AgentAction) (d : AgentClient) (_ : True)
      (_ : c.step act = some d) : True := trivial
  exact always_iff_meets hkept (fun _ _ _ _ => guarded_step_iff) trivial hstart

-- A subject without any permission submits a job for an agent that asks for one.
def reporter : BaseAgent := ⟨"reporter", ["report:write"], true⟩

def guest : Subject := ⟨"guest", "user", ∅, .empty, []⟩

def guestClient : AgentClient :=
  .start (fun _ => Job.init (.str "reporter") .empty "job-1" none 20 0 none none 0)
    { policyEngine := .init, audit := ⟨[], 1000⟩, roles := .empty, subjects := .empty }
    (Dict.empty.set "reporter" reporter) (Dict.empty.set "ctx-1" (some guest))

def guestRun : List AgentAction :=
  [.engine (.submitJob 0 (some "ctx-1")), .engine (.dequeue 0 0), .engine (.checkCancelled 0 0 1),
    .engine (.startJob 0 0 1), .runTarget 0 0 ⟨.ok true, .ok "written"⟩ (.error "") 2]

theorem job_calls_agent_unchecked : ∃ c, Run AgentClient.step guestClient guestRun c ∧
    c.calls = [⟨reporter, some guest⟩] ∧ ¬Granted c.security guest "report:write" ∧ ¬Guarded c := by
  have hr : Run AgentClient.step guestClient guestRun _ := Run.of_foldlM rfl
  have hdenied : ¬Granted guestClient.security guest "report:write" := by
    intro hg
    -- The subject holds nothing, so nothing that it holds covers the request.
    have hnothing (permission : Permission) : ¬Holds guest .empty permission := by
      rintro (hp | ⟨name, hn, _⟩)
      · cases hp
      · exact Finset.notMem_empty name hn
    rcases evaluateAll_iff.mp hg with ⟨permission, hp, _⟩ | ⟨permission, hp, _⟩
    · exact hnothing permission hp
    · exact hnothing permission hp
  exact ⟨_, hr, rfl, hdenied, fun h => hdenied (h _ (List.mem_singleton_self _) guest rfl _
    (List.mem_singleton_self _))⟩

end YasinCore.Agents
