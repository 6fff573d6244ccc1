import YasinCore.Agents.Runtime
import YasinCore.Library.Account
import YasinCore.Library.Hoare
import YasinCore.Library.Json
import Mathlib.Data.List.Chain

namespace YasinCore.Agents

open YasinCore.Library YasinCore.Execution YasinCore.Security

variable {φ μ : Type}

abbrev AgentRef := Nat

-- The payload that goes into an inbox.
structure Envelope (μ : Type) where
  sender : AgentName
  message : μ
  timestamp : Time
  deriving DecidableEq

structure AgentObject (φ μ : Type) extends BaseAgent where
  state : Json φ
  inbox : List (Envelope μ)

inductive AgentEvent
  | agentRegistered (agentName : AgentName)
  | agentRemoved (agentName : AgentName)
  | agentStarted (agentName : AgentName)
  | agentStopped (agentName : AgentName)
  | agentMessageSent (sender receiver : AgentName) (timestamp : Time)
  deriving DecidableEq

inductive Hook
  | start
  | stop
  deriving DecidableEq

-- A call of an agent's own start or stop, and whether it returned.
structure HookCall where
  agent : AgentRef
  hook : Hook
  returned : Bool
  deriving DecidableEq

-- The agents are objects, which the registry names. The newest hook call and event come last. The
-- storage is one whose writes go through.
structure AgentRuntime (φ μ : Type) where
  security : SecurityManager
  heap : AgentRef → AgentObject φ μ
  agents : Dict AgentName AgentRef
  storage : Dict Str (Json φ)
  hookCalls : List HookCall
  published : List AgentEvent

inductive RuntimeError
  | security (e : SecurityError)
  | value (message : String)
  | hook (message : String)

abbrev RuntimeOperation (φ μ : Type) := EStateM RuntimeError (AgentRuntime φ μ)

namespace AgentRuntime

def updateAgent (r : AgentRuntime φ μ) (ref : AgentRef)
    (f : AgentObject φ μ → AgentObject φ μ) : AgentRuntime φ μ :=
  { r with heap := fun other => if other = ref then f (r.heap ref) else r.heap other }

def announce (r : AgentRuntime φ μ) (event : AgentEvent) : AgentRuntime φ μ :=
  { r with published := r.published ++ [event] }

def note (r : AgentRuntime φ μ) (call : HookCall) : AgentRuntime φ μ :=
  { r with hookCalls := r.hookCalls ++ [call] }

def publish (event : AgentEvent) : RuntimeOperation φ μ PUnit := modify fun r => r.announce event

-- Each permission is checked before the agent is taken in, which replaces one of the same name.
def registerAgent (ref : AgentRef) (subject : Option Subject) (now : String) :
    RuntimeOperation φ μ PUnit := do
  let agent := (← get).heap ref
  match AgentClient.checkPermissions subject now agent.permissions (← get).security with
  | .error e security =>
      modify fun r => { r with security := security }
      throw (.security e)
  | .ok _ security =>
      modify fun r => { r with security := security, agents := r.agents.set agent.name ref }
      publish (.agentRegistered agent.name)

def removeAgent (name : AgentName) : RuntimeOperation φ μ (Option AgentRef) := do
  match (← get).agents.get? name with
  | none => return none
  | some ref =>
      modify fun r => { r with agents := r.agents.erase name }
      publish (.agentRemoved name)
      return some ref

-- What an agent's start or stop does: it returns, or it raises and leaves the running flag at a
-- value. Hooks do not call the runtime back.
abbrev Hooks := AgentRef → Option (String × Bool)

def callHook (hooks : Hooks) (hook : Hook) (name : AgentName) (ref : AgentRef) :
    RuntimeOperation φ μ PUnit := do
  let running := hook == .start
  if ((← get).heap ref).running != running then
    match hooks ref with
    | some (e, left) =>
        modify fun r => (r.updateAgent ref fun agent => { agent with running := left }).note ⟨ref, hook, false⟩
        throw (.hook e)
    | none =>
        modify fun r =>
          (r.updateAgent ref fun agent => { agent with running := running }).note ⟨ref, hook, true⟩
        publish (match hook with | .start => .agentStarted name | .stop => .agentStopped name)

def startAgents (hooks : Hooks) : RuntimeOperation φ μ PUnit := do
  (← get).agents.entries.forM fun entry => callHook hooks .start entry.1 entry.2

def stopAgents (hooks : Hooks) : RuntimeOperation φ μ PUnit := do
  (← get).agents.entries.forM fun entry => callHook hooks .stop entry.1 entry.2

def sendAgentMessage (sender receiver : AgentName) (message : μ) (now : Time) :
    RuntimeOperation φ μ PUnit := do
  match (← get).agents.get? receiver with
  | none => throw (.value ("Receiver agent '" ++ receiver ++ "' not found."))
  | some ref =>
      modify fun r => r.updateAgent ref fun agent =>
        { agent with inbox := agent.inbox ++ [⟨sender, message, now⟩] }
      publish (.agentMessageSent sender receiver now)

-- Message after message, until the inbox is empty.
def drain (messages : List (Envelope μ)) : List (Envelope μ) → List (Envelope μ)
  | [] => messages
  | first :: rest => drain (messages ++ [first]) rest

def notFound (name : AgentName) : RuntimeError := .value ("Agent '" ++ name ++ "' not found.")

def retrieveAgentMessages (name : AgentName) : RuntimeOperation φ μ (List (Envelope μ)) := do
  match (← get).agents.get? name with
  | none => throw (notFound name)
  | some ref =>
      let messages := drain [] ((← get).heap ref).inbox
      modify fun r => r.updateAgent ref fun agent => { agent with inbox := [] }
      return messages

def stateKey (name : AgentName) : Str := .ofString ("agent_state_" ++ name)

def saveAgentState (name : AgentName) : RuntimeOperation φ μ PUnit := do
  match (← get).agents.get? name with
  | none => throw (notFound name)
  | some ref => modify fun r => { r with storage := r.storage.set (stateKey name) (r.heap ref).state }

def loadAgentState (name : AgentName) : RuntimeOperation φ μ PUnit := do
  match (← get).agents.get? name with
  | none => throw (notFound name)
  | some ref =>
      modify fun r => r.updateAgent ref fun agent =>
        { agent with state := (r.storage.get? (stateKey name)).getD (.dict []) }

end AgentRuntime

-- The calls of a runtime, and what goes on beside them: an agent's own code works on its state and
-- takes from its inbox, and a new process starts with the storage and no agents.
inductive RuntimeCall (φ μ : Type)
  | registerAgent (ref : AgentRef) (subject : Option Subject) (now : String)
  | removeAgent (name : AgentName)
  | startAgents (hooks : AgentRuntime.Hooks)
  | stopAgents (hooks : AgentRuntime.Hooks)
  | sendAgentMessage (sender receiver : AgentName) (message : μ) (now : Time)
  | retrieveAgentMessages (name : AgentName)
  | saveAgentState (name : AgentName)
  | loadAgentState (name : AgentName)
  | assignState (ref : AgentRef) (state : Json φ)
  | takeMessage (ref : AgentRef)
  | restart

namespace RuntimeCall

-- Only the calls that take messages out of an inbox return something.
def operation : RuntimeCall φ μ → RuntimeOperation φ μ (List (Envelope μ))
  | .registerAgent ref subject now => do
      AgentRuntime.registerAgent ref subject now
      return []
  | .removeAgent name => do
      let _ ← AgentRuntime.removeAgent name
      return []
  | .startAgents hooks => do
      AgentRuntime.startAgents hooks
      return []
  | .stopAgents hooks => do
      AgentRuntime.stopAgents hooks
      return []
  | .sendAgentMessage sender receiver message now => do
      AgentRuntime.sendAgentMessage sender receiver message now
      return []
  | .retrieveAgentMessages name => AgentRuntime.retrieveAgentMessages name
  | .saveAgentState name => do
      AgentRuntime.saveAgentState name
      return []
  | .loadAgentState name => do
      AgentRuntime.loadAgentState name
      return []
  | .assignState ref state => do
      modify fun r => r.updateAgent ref fun agent => { agent with state := state }
      return []
  | .takeMessage ref => do
      let first := ((← get).heap ref).inbox.take 1
      modify fun r => r.updateAgent ref fun agent => { agent with inbox := agent.inbox.drop 1 }
      return first
  | .restart => do
      modify fun r => { r with agents := .empty }
      return []

-- The runtime after a call, whether the call returned or raised.
def after (r : AgentRuntime φ μ) (call : RuntimeCall φ μ) : AgentRuntime φ μ :=
  finalState call.operation r

-- The messages that a call delivers to an agent: it is the one registered as the receiver.
def delivered (ref : AgentRef) (r : AgentRuntime φ μ) (call : RuntimeCall φ μ) : List (Envelope μ) :=
  match call with
  | .sendAgentMessage sender receiver message now =>
      if (returned call.operation r).isSome ∧ r.agents.get? receiver = some ref then
        [⟨sender, message, now⟩]
      else []
  | _ => []

-- The messages of an agent that a call returns.
def handedOut (ref : AgentRef) (r : AgentRuntime φ μ) (call : RuntimeCall φ μ) : List (Envelope μ) :=
  match call with
  | .retrieveAgentMessages name =>
      if r.agents.get? name = some ref then (returned call.operation r).getD [] else []
  | .takeMessage other => if other = ref then (returned call.operation r).getD [] else []
  | _ => []

-- The state that a call saves under a name.
def saved (name : AgentName) (r : AgentRuntime φ μ) (call : RuntimeCall φ μ) : Option (Json φ) :=
  match call with
  | .saveAgentState other =>
      if other = name then (r.agents.get? name).map fun ref => (r.heap ref).state else none
  | _ => none

end RuntimeCall

namespace AgentRuntime

variable {r : AgentRuntime φ μ} {ref : AgentRef} {f : AgentObject φ μ → AgentObject φ μ}

@[simp] theorem announce_heap (event : AgentEvent) : (r.announce event).heap = r.heap := rfl

@[simp] theorem note_heap (call : HookCall) : (r.note call).heap = r.heap := rfl

@[simp] theorem updateAgent_self : (r.updateAgent ref f).heap ref = f (r.heap ref) := if_pos rfl

theorem updateAgent_of_ne {other : AgentRef} (h : other ≠ ref) :
    (r.updateAgent ref f).heap other = r.heap other := if_neg h

-- What an update leaves of every agent it leaves of the one that it changes.
theorem updateAgent_field {β : Type} (field : AgentObject φ μ → β)
    (h : field (f (r.heap ref)) = field (r.heap ref)) (other : AgentRef) :
    field ((r.updateAgent ref f).heap other) = field (r.heap other) := by
  by_cases he : other = ref
  · rw [he, updateAgent_self, h]
  · rw [updateAgent_of_ne he]

theorem drain_eq (messages inbox : List (Envelope μ)) : drain messages inbox = messages ++ inbox := by
  induction inbox generalizing messages with
  | nil => exact (List.append_nil _).symm
  | cons first rest ih => rw [drain, ih, List.append_assoc, List.singleton_append]

-- The three ways a hook call can go: it is not made, it raises, or it returns.
theorem callHook_cases (hooks : Hooks) (hook : Hook) (name : AgentName) (ref : AgentRef)
    (r : AgentRuntime φ μ) :
    (r.heap ref).running = (hook == .start) ∧ callHook hooks hook name ref r = .ok ⟨⟩ r ∨
    (r.heap ref).running ≠ (hook == .start) ∧ (∃ e left, hooks ref = some (e, left) ∧
      callHook hooks hook name ref r = .error (.hook e)
        ((r.updateAgent ref fun agent => { agent with running := left }).note ⟨ref, hook, false⟩)) ∨
    (r.heap ref).running ≠ (hook == .start) ∧ (∃ event, callHook hooks hook name ref r =
      .ok ⟨⟩ (((r.updateAgent ref fun agent => { agent with running := hook == .start }).note
        ⟨ref, hook, true⟩).announce event)) := by
  unfold callHook
  rw [run_get_bind]
  by_cases hr : (r.heap ref).running = (hook == .start)
  · refine .inl ⟨hr, ?_⟩
    simp only [hr, bne_self_eq_false]
    rfl
  · refine .inr ?_
    simp only [bne_iff_ne, ne_eq, hr, not_false_eq_true, if_true, true_and]
    cases hooks ref with
    | some raised => exact .inl ⟨raised.1, raised.2, rfl, rfl⟩
    | none => exact .inr ⟨_, rfl⟩

-- What the registry changes is none of this.
structure Aside (r t : AgentRuntime φ μ) : Prop where
  heap : t.heap = r.heap
  storage : t.storage = r.storage
  hookCalls : t.hookCalls = r.hookCalls

theorem registerAgent_aside (ref : AgentRef) (subject : Option Subject) (now : String) :
    Aside r (finalState (registerAgent ref subject now) r) := by
  unfold registerAgent finalState
  simp only [run_get_bind]
  cases AgentClient.checkPermissions subject now (r.heap ref).permissions r.security with
  | error e security => exact ⟨rfl, rfl, rfl⟩
  | ok _ security => exact ⟨rfl, rfl, rfl⟩

theorem removeAgent_aside (name : AgentName) : Aside r (finalState (removeAgent name) r) := by
  unfold removeAgent finalState
  rw [run_get_bind]
  cases r.agents.get? name with
  | none => exact ⟨rfl, rfl, rfl⟩
  | some ref => exact ⟨rfl, rfl, rfl⟩

theorem send_some (sender : AgentName) {receiver : AgentName} (message : μ) (now : Time)
    (h : r.agents.get? receiver = some ref) : sendAgentMessage sender receiver message now r = .ok ⟨⟩
      ((r.updateAgent ref fun agent => { agent with inbox := agent.inbox ++ [⟨sender, message, now⟩] }).announce
        (.agentMessageSent sender receiver now)) := by
  unfold sendAgentMessage
  rw [run_get_bind, h]
  rfl

theorem send_none (sender : AgentName) {receiver : AgentName} (message : μ) (now : Time)
    (h : r.agents.get? receiver = none) : sendAgentMessage sender receiver message now r =
      .error (.value ("Receiver agent '" ++ receiver ++ "' not found.")) r := by
  unfold sendAgentMessage
  rw [run_get_bind, h]
  rfl

theorem retrieve_some {name : AgentName} (h : r.agents.get? name = some ref) :
    retrieveAgentMessages name r = .ok (r.heap ref).inbox
      (r.updateAgent ref fun agent => { agent with inbox := [] }) := by
  unfold retrieveAgentMessages
  simp only [run_get_bind, h, drain_eq]
  rfl

theorem retrieve_none {name : AgentName} (h : r.agents.get? name = none) :
    retrieveAgentMessages name r = .error (notFound name) r := by
  unfold retrieveAgentMessages
  rw [run_get_bind, h]
  rfl

end AgentRuntime

open AgentRuntime

namespace RuntimeCall

variable {r : AgentRuntime φ μ}

section After

-- What each call makes of the runtime.
theorem after_registerAgent (r : AgentRuntime φ μ) (ref : AgentRef) (subject : Option Subject)
    (now : String) : Aside r (after r (.registerAgent ref subject now)) := by
  rw [after, operation, finalState_bind_pure]
  exact registerAgent_aside ref subject now

theorem after_removeAgent (r : AgentRuntime φ μ) (name : AgentName) :
    Aside r (after r (.removeAgent name)) := by
  rw [after, operation, finalState_bind_pure]
  exact removeAgent_aside name

theorem after_startAgents (r : AgentRuntime φ μ) (hooks : Hooks) : after r (.startAgents hooks) =
    finalState (r.agents.entries.forM fun entry => callHook hooks .start entry.1 entry.2) r := by
  rw [after, operation, finalState_bind_pure]
  rfl

theorem after_stopAgents (r : AgentRuntime φ μ) (hooks : Hooks) : after r (.stopAgents hooks) =
    finalState (r.agents.entries.forM fun entry => callHook hooks .stop entry.1 entry.2) r := by
  rw [after, operation, finalState_bind_pure]
  rfl

theorem after_sendAgentMessage (r : AgentRuntime φ μ) (sender receiver : AgentName) (message : μ)
    (now : Time) : after r (.sendAgentMessage sender receiver message now) =
      match r.agents.get? receiver with
      | none => r
      | some ref => (r.updateAgent ref fun agent =>
          { agent with inbox := agent.inbox ++ [⟨sender, message, now⟩] }).announce
            (.agentMessageSent sender receiver now) := by
  rw [after, operation, finalState_bind_pure, finalState]
  cases h : r.agents.get? receiver with
  | none => rw [send_none sender message now h]
  | some ref => rw [send_some sender message now h]

theorem after_retrieveAgentMessages (r : AgentRuntime φ μ) (name : AgentName) :
    after r (.retrieveAgentMessages name) =
      match r.agents.get? name with
      | none => r
      | some ref => r.updateAgent ref fun agent => { agent with inbox := [] } := by
  rw [after, operation, finalState]
  cases h : r.agents.get? name with
  | none => rw [retrieve_none h]
  | some ref => rw [retrieve_some h]

theorem after_saveAgentState (r : AgentRuntime φ μ) (name : AgentName) :
    after r (.saveAgentState name) =
      match r.agents.get? name with
      | none => r
      | some ref => { r with storage := r.storage.set (stateKey name) (r.heap ref).state } := by
  rw [after, operation, finalState_bind_pure, finalState]
  unfold AgentRuntime.saveAgentState
  rw [run_get_bind]
  cases r.agents.get? name with
  | none => rfl
  | some ref => rfl

theorem after_loadAgentState (r : AgentRuntime φ μ) (name : AgentName) :
    after r (.loadAgentState name) =
      match r.agents.get? name with
      | none => r
      | some ref => r.updateAgent ref fun agent =>
          { agent with state := (r.storage.get? (stateKey name)).getD (.dict []) } := by
  rw [after, operation, finalState_bind_pure, finalState]
  unfold AgentRuntime.loadAgentState
  rw [run_get_bind]
  cases r.agents.get? name with
  | none => rfl
  | some ref => rfl

theorem after_assignState (r : AgentRuntime φ μ) (ref : AgentRef) (state : Json φ) :
    after r (.assignState ref state) = r.updateAgent ref fun agent => { agent with state := state } :=
  rfl

theorem after_takeMessage (r : AgentRuntime φ μ) (ref : AgentRef) : after r (.takeMessage ref) =
    r.updateAgent ref fun agent => { agent with inbox := agent.inbox.drop 1 } := rfl

-- A property that every update of an agent keeps and that the registry and the hooks keep.
theorem after_field {β : Type} (field : AgentObject φ μ → β)
    (hhook : ∀ (agent : AgentObject φ μ) running, field { agent with running := running } = field agent)
    (hooks : Hooks) (hook : Hook) (entries : List (AgentName × AgentRef)) (ref : AgentRef) :
    field ((finalState (entries.forM fun entry => callHook hooks hook entry.1 entry.2) r).heap ref) =
      field (r.heap ref) := by
  have hmaintains : Maintains (fun t : AgentRuntime φ μ => field (t.heap ref) = field (r.heap ref))
      (entries.forM fun entry => callHook hooks hook entry.1 entry.2) := by
    refine .forM fun entry _ s hs => ?_
    rcases callHook_cases hooks hook entry.1 entry.2 s with ⟨-, he⟩ | ⟨-, e, left, -, he⟩ | ⟨-, event, he⟩
    · rw [he]
      exact hs
    · rw [he]
      dsimp only
      rw [note_heap, updateAgent_field field (hhook _ _), hs]
    · rw [he]
      dsimp only
      rw [announce_heap, note_heap, updateAgent_field field (hhook _ _), hs]
  exact hmaintains.finalState rfl

theorem after_storage (hooks : Hooks) (hook : Hook) (entries : List (AgentName × AgentRef)) :
    (finalState (entries.forM fun entry => callHook hooks hook entry.1 entry.2) r).storage = r.storage := by
  have hmaintains : Maintains (fun t : AgentRuntime φ μ => t.storage = r.storage)
      (entries.forM fun entry => callHook hooks hook entry.1 entry.2) := by
    refine .forM fun entry _ s hs => ?_
    rcases callHook_cases hooks hook entry.1 entry.2 s with ⟨-, he⟩ | ⟨-, e, left, -, he⟩ | ⟨-, event, he⟩ <;>
      · rw [he]
        exact hs
  exact hmaintains.finalState rfl

end After

section Inboxes

theorem sendAgentMessage_inbox (sender receiver : AgentName) (message : μ) (now : Time)
    (r : AgentRuntime φ μ) (ref : AgentRef) :
    ((after r (.sendAgentMessage sender receiver message now)).heap ref).inbox =
      (r.heap ref).inbox ++ delivered ref r (.sendAgentMessage sender receiver message now) := by
  rw [after_sendAgentMessage]
  cases h : r.agents.get? receiver with
  | none => simp [delivered, h]
  | some other =>
      have hrun : operation (.sendAgentMessage sender receiver message now) r = .ok [] _ :=
        run_bind_ok (send_some sender message now h) _
      simp only [delivered, returned, hrun, h, announce_heap, Option.isSome_some, true_and,
        Option.some.injEq]
      by_cases he : other = ref
      · subst he
        rw [if_pos rfl, updateAgent_self]
      · rw [if_neg he, updateAgent_of_ne (Ne.symm he), List.append_nil]

theorem retrieveAgentMessages_inbox (name : AgentName) (r : AgentRuntime φ μ) (ref : AgentRef) :
    (r.heap ref).inbox = handedOut ref r (.retrieveAgentMessages name) ++
      ((after r (.retrieveAgentMessages name)).heap ref).inbox := by
  rw [after_retrieveAgentMessages]
  cases h : r.agents.get? name with
  | none => simp [handedOut, h]
  | some other =>
      simp only [handedOut, returned, operation, retrieve_some h, h, Option.some.injEq, Option.getD_some]
      by_cases he : other = ref
      · subst he
        rw [if_pos rfl, updateAgent_self, List.append_nil]
      · rw [if_neg he, updateAgent_of_ne (Ne.symm he), List.nil_append]

theorem takeMessage_inbox (other : AgentRef) (r : AgentRuntime φ μ) (ref : AgentRef) :
    (r.heap ref).inbox = handedOut ref r (.takeMessage other) ++
      ((after r (.takeMessage other)).heap ref).inbox := by
  rw [after_takeMessage]
  by_cases he : other = ref
  · subst he
    have hrun : returned (operation (.takeMessage other)) r = some ((r.heap other).inbox.take 1) := rfl
    rw [handedOut, if_pos rfl, hrun, Option.getD_some, updateAgent_self, List.take_append_drop]
  · rw [updateAgent_of_ne (Ne.symm he), handedOut, if_neg he, List.nil_append]

-- A call that hands nothing out and delivers nothing leaves an inbox alone.
theorem inbox_kept (call : RuntimeCall φ μ) (r : AgentRuntime φ μ) (ref : AgentRef)
    (hd : delivered ref r call = []) (hh : handedOut ref r call = [])
    (h : ((after r call).heap ref).inbox = (r.heap ref).inbox) :
    (r.heap ref).inbox ++ delivered ref r call =
      handedOut ref r call ++ ((after r call).heap ref).inbox := by
  rw [hd, hh, h, List.append_nil, List.nil_append]

-- For every agent: what was in its inbox and what a call delivers is what the call hands out and
-- what is in it then.
theorem inbox_accounts (ref : AgentRef) :
    Accounts (after (φ := φ) (μ := μ)) (fun r => (r.heap ref).inbox) (delivered ref) (handedOut ref) := by
  intro r call
  cases call with
  | sendAgentMessage sender receiver message now =>
      exact (sendAgentMessage_inbox sender receiver message now r ref).symm
  | retrieveAgentMessages name =>
      exact (List.append_nil _).trans (retrieveAgentMessages_inbox name r ref)
  | takeMessage other => exact (List.append_nil _).trans (takeMessage_inbox other r ref)
  | registerAgent other subject now =>
      refine inbox_kept _ r ref rfl rfl ?_
      rw [(after_registerAgent r other subject now).heap]
  | removeAgent name =>
      refine inbox_kept _ r ref rfl rfl ?_
      rw [(after_removeAgent r name).heap]
  | startAgents hooks =>
      refine inbox_kept _ r ref rfl rfl ?_
      rw [after_startAgents, after_field AgentObject.inbox fun _ _ => rfl]
  | stopAgents hooks =>
      refine inbox_kept _ r ref rfl rfl ?_
      rw [after_stopAgents, after_field AgentObject.inbox fun _ _ => rfl]
  | saveAgentState name =>
      refine inbox_kept _ r ref rfl rfl ?_
      rw [after_saveAgentState]
      cases r.agents.get? name with
      | none => rfl
      | some other => rfl
  | loadAgentState name =>
      refine inbox_kept _ r ref rfl rfl ?_
      rw [after_loadAgentState]
      cases r.agents.get? name with
      | none => rfl
      | some other => simp only [updateAgent_field AgentObject.inbox]
  | assignState other state =>
      refine inbox_kept _ r ref rfl rfl ?_
      rw [after_assignState, updateAgent_field AgentObject.inbox rfl]
  | restart => exact inbox_kept _ r ref rfl rfl rfl

theorem send_returns_iff (sender receiver : AgentName) (message : μ) (now : Time)
    (r : AgentRuntime φ μ) :
    (returned (operation (.sendAgentMessage sender receiver message now)) r).isSome ↔
      ∃ ref, delivered ref r (.sendAgentMessage sender receiver message now) ≠ [] := by
  constructor
  · intro hok
    cases h : r.agents.get? receiver with
    | none =>
        have hrun := run_bind_error (send_none sender message now h)
          fun _ => (return [] : RuntimeOperation φ μ (List (Envelope μ)))
        rw [returned, operation, hrun] at hok
        cases hok
    | some ref =>
        refine ⟨ref, ?_⟩
        rw [delivered, if_pos ⟨hok, h⟩]
        exact List.cons_ne_nil _ _
  · rintro ⟨ref, h⟩
    by_contra hraised
    exact h (if_neg fun hboth => hraised hboth.1)

end Inboxes

section States

theorem stateKey_injective : Function.Injective stateKey := by
  intro name other h
  exact (String.append_right_inj _).mp (Str.ofString_injective h)

theorem saveAgentState_storage (r : AgentRuntime φ μ) (name other : AgentName) :
    (after r (.saveAgentState other)).storage.get? (stateKey name) =
      (saved name r (.saveAgentState other)).or (r.storage.get? (stateKey name)) := by
  rw [after_saveAgentState]
  by_cases he : other = name
  · subst he
    cases h : r.agents.get? other with
    | none => simp [saved, h]
    | some ref => simp [saved, h]
  · rw [saved, if_neg he, Option.none_or]
    cases r.agents.get? other with
    | none => rfl
    | some ref => exact Dict.get?_set_of_ne _ _ fun hk => he (stateKey_injective hk).symm

-- What the storage holds under an agent's key is what was saved last under its name.
theorem storage_step (name : AgentName) (r : AgentRuntime φ μ) (call : RuntimeCall φ μ) :
    (after r call).storage.get? (stateKey name) =
      (saved name r call).or (r.storage.get? (stateKey name)) := by
  have hquiet {t : AgentRuntime φ μ} (h : t.storage = r.storage) : t.storage.get? (stateKey name) =
      (none : Option (Json φ)).or (r.storage.get? (stateKey name)) := by rw [h, Option.none_or]
  cases call with
  | saveAgentState other => exact saveAgentState_storage r name other
  | registerAgent other subject now => exact hquiet (after_registerAgent r other subject now).storage
  | removeAgent other => exact hquiet (after_removeAgent r other).storage
  | startAgents hooks => exact hquiet ((after_startAgents r hooks).symm ▸ after_storage hooks .start _)
  | stopAgents hooks => exact hquiet ((after_stopAgents r hooks).symm ▸ after_storage hooks .stop _)
  | sendAgentMessage sender receiver message now =>
      refine hquiet ?_
      rw [after_sendAgentMessage]
      cases r.agents.get? receiver with
      | none => rfl
      | some ref => rfl
  | retrieveAgentMessages other =>
      refine hquiet ?_
      rw [after_retrieveAgentMessages]
      cases r.agents.get? other with
      | none => rfl
      | some ref => rfl
  | loadAgentState other =>
      refine hquiet ?_
      rw [after_loadAgentState]
      cases r.agents.get? other with
      | none => rfl
      | some ref => rfl
  | assignState other state => exact hquiet rfl
  | takeMessage other => exact hquiet rfl
  | restart => exact hquiet rfl

-- Every object is an agent of the same name.
def office : AgentRuntime Unit String where
  security := ⟨.init, ⟨[], 1000⟩, .empty, .empty⟩
  heap _ := ⟨⟨"planner", [], false⟩, .dict [], []⟩
  agents := .empty
  storage := .empty
  hookCalls := []
  published := []

def savedThenRestarted : List (RuntimeCall Unit String) :=
  [.registerAgent 0 none "", .assignState 0 (.bool true), .saveAgentState "planner",
    .assignState 0 (.bool false), .restart, .registerAgent 1 none ""]

end States

section Hooks

-- What an agent's hooks that returned have made of it, one after the other.
def flags (ref : AgentRef) (r : AgentRuntime φ μ) : List Bool :=
  (r.hookCalls.filter fun call => call.agent = ref ∧ call.returned).map fun call => call.hook == .start

-- The hooks alternate from what the agent was at first, and its flag says how the last one left it.
def Alternates (first : AgentRef → Bool) (r : AgentRuntime φ μ) : Prop :=
  ∀ ref, (first ref :: flags ref r).IsChain (· ≠ ·) ∧
    (first ref :: flags ref r).getLast? = some (r.heap ref).running

variable {first : AgentRef → Bool} {t : AgentRuntime φ μ}

theorem Alternates.quiet (h : Alternates first r) (hcalls : t.hookCalls = r.hookCalls)
    (hrunning : ∀ ref, (t.heap ref).running = (r.heap ref).running) : Alternates first t := by
  intro ref
  rw [flags, hcalls, hrunning]
  exact h ref

theorem Alternates.updated (h : Alternates first r) {ref : AgentRef}
    {f : AgentObject φ μ → AgentObject φ μ} (hf : (f (r.heap ref)).running = (r.heap ref).running) :
    Alternates first (r.updateAgent ref f) :=
  h.quiet rfl fun other => updateAgent_field (fun agent => agent.running) hf other

theorem Alternates.announced (h : Alternates first r) (event : AgentEvent) :
    Alternates first (r.announce event) := h

theorem Alternates.raised (h : Alternates first r) {ref : AgentRef} (hook : Hook) :
    Alternates first (r.note ⟨ref, hook, false⟩) := by
  intro other
  have hflags : flags other (r.note ⟨ref, hook, false⟩) = flags other r := by
    simp [flags, note]
  rw [hflags]
  exact h other

-- A hook that returns is called on an agent that its last hook left the other way.
theorem Alternates.returned (h : Alternates first r) {ref : AgentRef} {hook : Hook}
    (hne : (r.heap ref).running ≠ (hook == .start)) (event : AgentEvent) :
    Alternates first (((r.updateAgent ref fun agent => { agent with running := hook == .start }).note
      ⟨ref, hook, true⟩).announce event) := by
  intro other
  obtain ⟨hchain, hlast⟩ := h other
  by_cases he : other = ref
  · subst he
    have hflags : flags other (((r.updateAgent other fun agent =>
        { agent with running := hook == .start }).note ⟨other, hook, true⟩).announce event) =
        flags other r ++ [hook == .start] := by
      simp [flags, note, announce, updateAgent]
    rw [hflags, announce_heap, note_heap, updateAgent_self, ← List.cons_append]
    refine ⟨List.isChain_append.mpr ⟨hchain, List.isChain_singleton _, ?_⟩, List.getLast?_concat⟩
    intro last hmem next hnext
    rw [hlast] at hmem
    obtain rfl := Option.some.inj hmem
    obtain rfl := Option.some.inj hnext
    exact hne
  · have hflags : flags other (((r.updateAgent ref fun agent =>
        { agent with running := hook == .start }).note ⟨ref, hook, true⟩).announce event) =
        flags other r := by
      simp [flags, note, announce, updateAgent, Ne.symm he]
    rw [hflags, announce_heap, note_heap, updateAgent_of_ne he]
    exact ⟨hchain, hlast⟩

-- A hook that raises leaves the flag as it found it.
def Leaves (hooks : Hooks) (hook : Hook) : Prop :=
  ∀ ref e left, hooks ref = some (e, left) → left ≠ (hook == .start)

def Careful : RuntimeCall φ μ → Prop
  | .startAgents hooks => Leaves hooks .start
  | .stopAgents hooks => Leaves hooks .stop
  | _ => True

theorem callHooks_alternates {hooks : Hooks} {hook : Hook} (hleaves : Leaves hooks hook)
    (entries : List (AgentName × AgentRef)) :
    Maintains (Alternates (φ := φ) (μ := μ) first)
      (entries.forM fun entry => callHook hooks hook entry.1 entry.2) := by
  refine .forM fun entry _ s hs => ?_
  rcases callHook_cases hooks hook entry.1 entry.2 s with ⟨-, he⟩ | ⟨hne, e, left, hr, he⟩ | ⟨hne, event, he⟩
  · rw [he]
    exact hs
  · rw [he]
    have hsame : left = (s.heap entry.2).running := by
      have hleft := hleaves entry.2 e left hr
      revert hne hleft
      cases left <;> cases (s.heap entry.2).running <;> cases (hook == .start) <;> simp
    exact (hs.updated hsame).raised hook
  · rw [he]
    exact hs.returned hne event

theorem Alternates.step (h : Alternates first r) {call : RuntimeCall φ μ} (hc : call.Careful) :
    Alternates first (after r call) := by
  cases call with
  | startAgents hooks =>
      rw [after_startAgents]
      exact (callHooks_alternates hc _).finalState h
  | stopAgents hooks =>
      rw [after_stopAgents]
      exact (callHooks_alternates hc _).finalState h
  | registerAgent ref subject now =>
      have haside := after_registerAgent r ref subject now
      exact h.quiet haside.hookCalls fun _ => by rw [haside.heap]
  | removeAgent name =>
      have haside := after_removeAgent r name
      exact h.quiet haside.hookCalls fun _ => by rw [haside.heap]
  | sendAgentMessage sender receiver message now =>
      rw [after_sendAgentMessage]
      cases r.agents.get? receiver with
      | none => exact h
      | some ref => exact (h.updated rfl).announced _
  | retrieveAgentMessages name =>
      rw [after_retrieveAgentMessages]
      cases r.agents.get? name with
      | none => exact h
      | some ref => exact h.updated rfl
  | saveAgentState name =>
      rw [after_saveAgentState]
      cases r.agents.get? name with
      | none => exact h
      | some ref => exact h.quiet rfl fun _ => rfl
  | loadAgentState name =>
      rw [after_loadAgentState]
      cases r.agents.get? name with
      | none => exact h
      | some ref => exact h.updated rfl
  | assignState ref state =>
      rw [after_assignState]
      exact h.updated rfl
  | takeMessage ref =>
      rw [after_takeMessage]
      exact h.updated rfl
  | restart => exact h.quiet rfl fun _ => rfl

-- The agents that a loop over the registry has had are where its hook leaves them.
def Settled (hook : Hook) (done : List (AgentName × AgentRef)) (t : AgentRuntime φ μ) : Prop :=
  ∀ entry ∈ done, (t.heap entry.2).running = (hook == .start)

theorem callHook_settles (hooks : Hooks) (hook : Hook) (done : List (AgentName × AgentRef))
    (entry : AgentName × AgentRef) :
    Triple (Settled (φ := φ) (μ := μ) hook done) (callHook hooks hook entry.1 entry.2)
      (fun _ => Settled hook (done ++ [entry])) fun _ _ => True := by
  intro s hs
  rcases callHook_cases hooks hook entry.1 entry.2 s with ⟨hr, he⟩ | ⟨-, e, left, -, he⟩ | ⟨-, event, he⟩
  · rw [he]
    intro other hm
    rcases List.mem_append.mp hm with hm | hm
    · exact hs other hm
    · rwa [List.mem_singleton.mp hm]
  · rw [he]
    trivial
  · rw [he]
    intro other hm
    rw [announce_heap, note_heap]
    by_cases hsame : other.2 = entry.2
    · rw [hsame, updateAgent_self]
    · rw [updateAgent_of_ne hsame]
      refine hs other ((List.mem_append.mp hm).resolve_right fun hlast => hsame ?_)
      rw [List.mem_singleton.mp hlast]

theorem callHooks_settles (hooks : Hooks) (hook : Hook) {entries : List (AgentName × AgentRef)}
    (hok : (returned (entries.forM fun entry => callHook hooks hook entry.1 entry.2) r).isSome) :
    Settled hook entries
      (finalState (entries.forM fun entry => callHook hooks hook entry.1 entry.2) r) := by
  have htriple : Triple (Settled (φ := φ) (μ := μ) hook [])
      (entries.forM fun entry => callHook hooks hook entry.1 entry.2)
      (fun _ => Settled hook entries) fun _ _ => True :=
    .forM (Settled hook) fun done entry rest _ => callHook_settles hooks hook done entry
  have hempty : Settled hook [] r := fun _ hm => absurd hm List.not_mem_nil
  rcases htriple.outcome hempty with ⟨value, -, hsettled⟩ | ⟨hnone, -⟩
  · exact hsettled
  · rw [hnone] at hok
    cases hok

theorem startAgents_settles (r : AgentRuntime φ μ) (hooks : Hooks)
    (hok : (returned (operation (.startAgents hooks)) r).isSome) :
    Settled .start r.agents.entries (after r (.startAgents hooks)) := by
  rw [operation, returned_bind_pure, Option.isSome_map] at hok
  rw [after_startAgents]
  exact callHooks_settles hooks .start hok

theorem stopAgents_settles (r : AgentRuntime φ μ) (hooks : Hooks)
    (hok : (returned (operation (.stopAgents hooks)) r).isSome) :
    Settled .stop r.agents.entries (after r (.stopAgents hooks)) := by
  rw [operation, returned_bind_pure, Option.isSome_map] at hok
  rw [after_stopAgents]
  exact callHooks_settles hooks .stop hok

def startedTwice : List (RuntimeCall Unit String) :=
  [.registerAgent 0 none "", .startAgents fun _ => none, .startAgents fun _ => none,
    .stopAgents fun _ => some ("busy", true), .stopAgents fun _ => none]

theorem startedTwice_careful : ∀ call ∈ startedTwice, call.Careful := by
  simp only [startedTwice, List.forall_mem_cons, Careful, Leaves]
  simp

end Hooks

end RuntimeCall

end YasinCore.Agents
